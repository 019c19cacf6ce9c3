import VKernels.Compiler.OperatorIR

/-!
# Soundness of the overlap test

`Region.overlaps` compares bounding intervals.  The interval of a direct region bounds everything
the region can touch; the interval of an indirect region is the element count of its view, which
is a bound only when the view is dense enough.

* `Region.lastAddr` — the last element a region can touch.
* `Region.SpanCovers` — a direct region, or an indirect one that ends within its element count.

## Results

* `Region.touches_span` — a region whose span covers touches only its span.
* `Region.exists_touch_last` — the last element is touched under some environment.
* `overlaps_sound_iff` — a region is tested soundly exactly when its span covers.
* `Region.spanCovers_of_rowMajor` — an indirect region over a row-major view is covered.
* `narrowed_pool_escapes` — an indirect region over a narrowed pool is not.
-/

namespace VKernels.Compiler

open Strided
open List

/-! ## One axis -/

namespace Axis

variable {a : Axis} {env : RuntimeEnv} {i : ℕ}

/-- The largest admissible index, for some environment. -/
def last (a : Axis) : ℕ :=
  match a.table with
  | none => (a.hiEff - 1).toNat
  | some _ => a.extent - 1

/-- Some index is admissible, for some environment. -/
def Live (a : Axis) : Prop :=
  0 < a.extent ∧
    match a.table, a.hi with
    | none, _ => max a.lo 0 < a.hiEff
    | some _, .int h => max a.lo 0 < h
    | some _, _ => True

instance (a : Axis) : Decidable a.Live := by
  unfold Live
  cases a.table <;> cases a.hi <;> infer_instance

lemma lt_hiEff (hext : i < a.extent) (h : a.hi.Admits env i) : (i : ℤ) < a.hiEff := by
  unfold hiEff
  cases hhi : a.hi with
  | int n =>
    rw [hhi] at h
    have h : (i : ℤ) < n := h
    show (i : ℤ) < min n a.extent
    omega
  | sym expr =>
    show (i : ℤ) < a.extent
    omega
  | row tensor mode =>
    show (i : ℤ) < a.extent
    omega

lemma hiEff_le (a : Axis) : a.hiEff ≤ a.extent := by
  unfold hiEff
  cases a.hi with
  | int h => exact min_le_right _ _
  | sym expr => exact le_rfl
  | row tensor mode => exact le_rfl

lemma Admits.le_last (h : a.Admits env i) : i ≤ a.last := by
  obtain ⟨hext, hbox⟩ := h
  unfold last
  cases htable : a.table with
  | none =>
    rw [htable] at hbox
    have := lt_hiEff hext hbox.2
    show i ≤ (a.hiEff - 1).toNat
    omega
  | some table =>
    show i ≤ a.extent - 1
    omega

lemma Admits.live (h : a.Admits env i) : a.Live := by
  obtain ⟨hext, hbox⟩ := h
  refine ⟨by omega, ?_⟩
  cases htable : a.table with
  | none =>
    rw [htable] at hbox
    obtain ⟨hlo, hhi⟩ := hbox
    have := lt_hiEff hext hhi
    omega
  | some table =>
    rw [htable] at hbox
    obtain ⟨b, t, hlo, hhi, _⟩ := hbox
    cases hint : a.hi with
    | int n =>
      rw [hint] at hhi
      have hhi : (t : ℤ) < n := hhi
      omega
    | sym expr => trivial
    | row tensor mode => trivial

lemma Admits.candidates (h : a.Admits env i) (hdirect : a.table = none) :
    min a.candidates.1 a.candidates.2 ≤ i * a.stride ∧ (i * a.stride : ℤ) ≤ max a.candidates.1 a.candidates.2 := by
  obtain ⟨hext, hbox⟩ := h
  rw [hdirect] at hbox
  obtain ⟨hlo, hhi⟩ := hbox
  have hlt := lt_hiEff hext hhi
  unfold Axis.candidates
  rw [if_pos (by omega)]
  constructor
  · exact (min_le_left _ _).trans (Int.mul_le_mul_of_nonneg_right hlo (by omega))
  · exact (Int.mul_le_mul_of_nonneg_right (by omega) (by omega)).trans (le_max_right _ _)

end Axis

open Axis (Admits hiEff last stride)

/-- Scalars and rows above every bound, and a table that holds every slot. -/
def RuntimeEnv.wide (n : ℤ) : RuntimeEnv where
  scalars _ := n
  rows _ _ := n
  table _ b _ := b

lemma Bound.admits_wide {n : ℤ} {i : ℕ} (hi : (i : ℤ) < n) (b : Bound)
    (hint : ∀ h, b = .int h → (i : ℤ) < h) : b.Admits (.wide n) i := by
  cases b with
  | int h => exact hint h rfl
  | sym expr =>
    show (i : ℤ) < resolveExpr _ expr
    unfold resolveExpr
    split
    · show (i : ℤ) < n + 1
      omega
    · exact hi
  | row tensor mode =>
    refine ⟨0, ?_⟩
    cases mode with
    | positions =>
      show (i : ℤ) < n + 1
      omega
    | lengths => exact hi

lemma Axis.Live.admits_last {a : Axis} (h : a.Live) {n : ℤ} (hlo : a.lo < n)
    (hext : (a.extent : ℤ) < n) : a.Admits (.wide n) a.last := by
  obtain ⟨hpos, hbox⟩ := h
  cases htable : a.table with
  | none =>
    have hlast : a.last = (a.hiEff - 1).toNat := by
      unfold last
      rw [htable]
    rw [htable] at hbox
    have hbox : max a.lo 0 < a.hiEff := hbox
    have hle := a.hiEff_le
    unfold Admits
    rw [hlast, htable]
    refine ⟨by omega, by omega, Bound.admits_wide (by omega) _ fun m hm => ?_⟩
    have hint : a.hiEff ≤ m := by
      unfold hiEff
      rw [hm]
      exact min_le_left _ _
    omega
  | some table =>
    have hlast : a.last = a.extent - 1 := by
      unfold last
      rw [htable]
    have hcol : a.hi.Admits (.wide n) (max a.lo 0).toNat := by
      refine Bound.admits_wide (by omega) _ fun m hm => ?_
      rw [htable, hm] at hbox
      omega
    unfold Admits
    rw [hlast, htable]
    exact ⟨by omega, a.extent - 1, (max a.lo 0).toNat, by omega, hcol, rfl⟩

/-! ## One region -/

namespace Region

variable {r : Region} {env : RuntimeEnv} {addr : ℕ}

def lastAddr (r : Region) : ℕ :=
  r.view.offset + dot (r.axes.map last) (r.axes.map stride)

def SpanCovers (r : Region) : Prop :=
  r.indirectTable = none ∨ (∃ a ∈ r.axes, ¬ a.Live) ∨
    r.lastAddr ≤ r.view.offset + (r.view.numel - 1)

lemma mem_axes_direct (h : r.indirectTable = none) {a : Axis} (ha : a ∈ r.axes) : a.table = none := by
  unfold axes at ha
  rw [h] at ha
  obtain ⟨i, hi, rfl⟩ := mem_mapIdx.mp ha
  rfl

lemma Touches.le_lastAddr (h : r.Touches env addr) : addr ≤ r.lastAddr := by
  obtain ⟨idx, hidx, rfl⟩ := h
  have hle : Forall₂ (· ≤ ·) idx (r.axes.map last) :=
    forall₂_map_right_iff.mpr (hidx.imp fun _ _ => Axis.Admits.le_last)
  exact Nat.add_le_add_left (dot_mono hle _) _

lemma forall_live {idx : List ℕ} {axes : List Axis} (h : Forall₂ (Admits env) idx axes) :
    ∀ a ∈ axes, a.Live := by
  induction h with
  | nil => simp
  | cons hi _ ih =>
    intro a ha
    rcases mem_cons.mp ha with rfl | ha
    · exact hi.live
    · exact ih a ha

lemma Touches.live (h : r.Touches env addr) : ∀ a ∈ r.axes, a.Live := by
  obtain ⟨_, hidx, _⟩ := h
  exact forall_live hidx

lemma direct_bounds {idx : List ℕ} {axes : List Axis} (h : Forall₂ (Admits env) idx axes)
    (hdirect : ∀ a ∈ axes, a.table = none) :
    (axes.map fun a => min a.candidates.1 a.candidates.2).sum ≤ dot idx (axes.map stride) ∧
      (dot idx (axes.map stride) : ℤ) ≤ (axes.map fun a => max a.candidates.1 a.candidates.2).sum := by
  induction h with
  | nil => exact ⟨le_rfl, le_rfl⟩
  | @cons i a idx axes hi _ ih =>
    obtain ⟨hlo, hhi⟩ := hi.candidates (hdirect a (by simp))
    obtain ⟨_, _⟩ := ih fun b hb => hdirect b (by simp [hb])
    simp only [map_cons, sum_cons, dot_cons, Nat.cast_add, Nat.cast_mul]
    constructor <;> omega

lemma touches_span (hcov : r.SpanCovers) (h : r.Touches env addr) :
    r.storageSpan.1 ≤ addr ∧ (addr : ℤ) ≤ r.storageSpan.2 := by
  cases hind : r.indirectTable with
  | none =>
    obtain ⟨idx, hidx, rfl⟩ := h
    obtain ⟨hlo, hhi⟩ := direct_bounds hidx fun a ha => mem_axes_direct hind ha
    unfold storageSpan
    rw [hind]
    simp only [Nat.cast_add]
    constructor <;> omega
  | some ind =>
    have hle := h.le_lastAddr
    have hge : r.view.offset ≤ addr := by
      obtain ⟨_, _, rfl⟩ := h
      omega
    have hend : r.lastAddr ≤ r.view.offset + (r.view.numel - 1) := by
      rcases hcov with hdirect | ⟨a, ha, hdead⟩ | hend
      · rw [hind] at hdirect
        cases hdirect
      · exact absurd (h.live a ha) hdead
      · exact hend
    unfold storageSpan
    rw [hind]
    simp only
    constructor <;> omega

lemma exists_above (axes : List Axis) : ∃ n : ℤ, ∀ a ∈ axes, a.lo < n ∧ (a.extent : ℤ) < n := by
  induction axes with
  | nil => exact ⟨0, by simp⟩
  | cons a axes ih =>
    obtain ⟨n, hn⟩ := ih
    refine ⟨max n (max a.lo a.extent + 1), fun b hb => ?_⟩
    rcases mem_cons.mp hb with rfl | hb
    · omega
    · have := hn b hb
      omega

lemma exists_touch_last (hlive : ∀ a ∈ r.axes, a.Live) : ∃ env, r.Touches env r.lastAddr := by
  obtain ⟨n, hn⟩ := exists_above r.axes
  refine ⟨.wide n, r.axes.map last, ?_, rfl⟩
  rw [forall₂_map_left_iff]
  exact forall₂_same.mpr fun a ha => (hlive a ha).admits_last (hn a ha).1 (hn a ha).2

def single (storageId addr : ℕ) : Region :=
  whole ⟨"element", [1], [1], storageId, addr⟩

lemma single_span (storageId addr : ℕ) : (single storageId addr).storageSpan = ((addr : ℤ), (addr : ℤ)) := by
  have hspan : (single storageId addr).storageSpan = ((addr : ℤ) + 0, max ((addr : ℤ) + 0) ((addr : ℤ) + 0)) := rfl
  rw [hspan, Int.add_zero, max_self]

lemma single_touches (storageId addr : ℕ) (env : RuntimeEnv) : (single storageId addr).Touches env addr := by
  refine ⟨[0], .cons ⟨one_pos, le_rfl, ?_⟩ .nil, rfl⟩
  show ((0 : ℕ) : ℤ) < 1
  omega

end Region

/-! ## The test -/

open Region (axes indirect overlaps_iff touches_span whole)

/-- Every element two regions of one storage touch together is reported. -/
def PairSound (r r2 : Region) : Prop :=
  ∀ (env : RuntimeEnv) (addr : ℕ), r.storageId = r2.storageId → r.Touches env addr →
    r2.Touches env addr → r.overlaps r2 = true

lemma overlaps_of_touches {r r2 : Region} (hr : r.SpanCovers) (hr2 : r2.SpanCovers) : PairSound r r2 := by
  intro _ _ hsto h h2
  have hspan := touches_span hr h
  have hspan2 := touches_span hr2 h2
  exact overlaps_iff.mpr ⟨hsto, hspan.1.trans hspan2.2, hspan2.1.trans hspan.2⟩

/-- **When the test is sound.** -/
theorem overlaps_sound_iff (r : Region) : (∀ r2 : Region, r2.SpanCovers → PairSound r r2) ↔ r.SpanCovers := by
  refine ⟨fun h => ?_, fun hr r2 hr2 => overlaps_of_touches hr hr2⟩
  by_contra hcov
  unfold Region.SpanCovers at hcov
  push Not at hcov
  obtain ⟨hind, hlive, hend⟩ := hcov
  obtain ⟨_, hind⟩ := Option.ne_none_iff_exists'.mp hind
  obtain ⟨env, htouch⟩ := Region.exists_touch_last hlive
  have hov := h (.single r.storageId r.lastAddr) (.inl rfl) env r.lastAddr rfl htouch (Region.single_touches _ _ env)
  -- the span of `r` ends before its last element
  obtain ⟨_, _, hle⟩ := overlaps_iff.mp hov
  rw [Region.single_span] at hle
  unfold Region.storageSpan at hle
  rw [hind] at hle
  simp only at hle
  omega

lemma Region.indirect_axes_last {view : TensorValue}
    (hlen : view.strides.length = view.shape.length) (table : String) (axis : ℕ) :
    (indirect view table axis).axes.map last = view.shape.map (· - 1) := by
  unfold axes
  refine ext_getElem (by simp [indirect, hlen]) fun i _ _ => ?_
  simp only [indirect, getElem_map, getElem_mapIdx, getElem_zip]
  unfold last
  by_cases hi : i = axis
  · simp [hi]
  · simp only [hi, if_false, hiEff]
    omega

lemma Region.indirect_axes_extent {view : TensorValue}
    (hlen : view.strides.length = view.shape.length) (table : String) (axis : ℕ) :
    (indirect view table axis).axes.map Axis.extent = view.shape := by
  unfold axes
  refine ext_getElem (by simp [indirect, hlen]) fun i _ _ => ?_
  simp [indirect]

lemma Region.spanCovers_of_rowMajor {view : TensorValue}
    (hdense : view.strides = rowMajor view.shape) (table : String) (axis : ℕ) :
    (indirect view table axis).SpanCovers := by
  have hlen : view.strides.length = view.shape.length := by rw [hdense, rowMajor_length]
  by_cases hpos : ∀ d ∈ view.shape, 0 < d
  · refine .inr (.inr ?_)
    unfold Region.lastAddr
    rw [Region.indirect_axes_last hlen, Region.axes_stride (by simp [indirect]) hlen]
    show view.offset + dot _ view.strides ≤ _
    rw [hdense, dot_last_rowMajor hpos]
    exact le_rfl
  · -- an empty dimension: nothing is touched
    push Not at hpos
    obtain ⟨d, hd, hzero⟩ := hpos
    rw [← Region.indirect_axes_extent hlen] at hd
    obtain ⟨a, ha, rfl⟩ := mem_map.mp hd
    exact .inr (.inl ⟨a, ha, fun hlive => absurd hlive.1 (by omega)⟩)

/-! ## A narrowed pool -/

/-- Two slots of two elements. -/
def pool : TensorValue := ⟨"pool", [2, 2, 1, 1], [2, 1, 1, 1], 0, 0⟩

/-- The first element of every slot, as a list of slots: slot 1 lies at 2, behind the two elements
    that the view counts. -/
def narrowedPool : TensorValue := ⟨"head", [2, 1, 1], [2, 1, 1], 0, 0⟩

/-- The other end of the pool. -/
def secondSlot : TensorValue := ⟨"slot", [1, 2, 1, 1], [2, 1, 1, 1], 0, 2⟩

lemma narrowedPool_derived : narrowedPool.Derived := by
  have hfirst : pool.narrow "first" 1 0 1 = .ok ⟨"first", [2, 1, 1, 1], [2, 1, 1, 1], 0, 0⟩ := rfl
  have hview : TensorValue.view ⟨"first", [2, 1, 1, 1], [2, 1, 1, 1], 0, 0⟩ "head" [2, 1, 1] = .ok narrowedPool := rfl
  exact .view (.narrow (.storage rfl) hfirst) hview

lemma secondSlot_derived : secondSlot.Derived := by
  have hslot : pool.narrow "slot" 0 1 1 = .ok secondSlot := rfl
  exact .narrow (.storage rfl) hslot

lemma narrowedPool_touches : (indirect narrowedPool "slots" 0).Touches (.wide 2) 2 := by
  refine ⟨[1, 0, 0], .cons ⟨by decide, 1, 0, by decide, ?_, rfl⟩
    (.cons ⟨by decide, by decide, ?_⟩ (.cons ⟨by decide, by decide, ?_⟩ .nil)), rfl⟩
  all_goals show (_ : ℤ) < _
  all_goals decide

lemma secondSlot_touches {i : ℕ} (hi : i < 2) : (whole secondSlot).Touches (.wide 2) (2 + i) := by
  refine ⟨[0, i, 0, 0], .cons ⟨by decide, by decide, ?_⟩ (.cons ⟨hi, Int.natCast_nonneg i, ?_⟩
    (.cons ⟨by decide, by decide, ?_⟩ (.cons ⟨by decide, by decide, ?_⟩ .nil))), ?_⟩
  · show (_ : ℤ) < _
    decide
  · show (i : ℤ) < 2
    omega
  · show (_ : ℤ) < _
    decide
  · show (_ : ℤ) < _
    decide
  · show 2 + i = 2 + (0 * 2 + (i * 1 + (0 * 1 + (0 * 1 + 0))))
    omega

/-- **An indirect region over a narrowed pool** touches slot 1, and the test does not see it. -/
theorem narrowed_pool_escapes : narrowedPool.Derived ∧ secondSlot.Derived ∧
      ¬ PairSound (indirect narrowedPool "slots" 0) (whole secondSlot) := by
  refine ⟨narrowedPool_derived, secondSlot_derived, fun h => ?_⟩
  exact absurd (h _ 2 rfl narrowedPool_touches (secondSlot_touches two_pos)) (by decide)

end VKernels.Compiler
