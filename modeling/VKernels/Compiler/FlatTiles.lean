import VKernels.Compiler.TaskIR
import VKernels.Compiler.ViewLayout

/-!
# Flat tiles of elementwise operators

The element tiling of `compiler/lowerings/common.py` and `compiler/lowerings/dense.py`.

* `lowerGelu`, `lowerSwiglu`, `lowerAdd` — the lowerings, each a domain and two region callbacks.

## Results

* `flatBox_vector`, `flatBox_matrix` — the box of one and of two dimensions.
* `flatRegions_cover` — with it the regions hold the range.
* `flat_tiles_iff` — a lowering covers exactly when the operands have no elements, or one or two
  dimensions.
-/

namespace VKernels.Compiler

open Strided
open List

open Region (axes tile)

def elemTile : ℕ := 1024

/-! ## The lowerings -/

/-- `[lo, hi)` of the flat elements, as a box of the view. -/
def flatBox (view : TensorValue) (lo hi : ℤ) : Except String (List (ℤ × ℤ)) :=
  if view.isContiguous = false then
    .error ("elementwise tiling requires contiguous views (" ++ view.name ++ ")")
  else if view.shape.length = 1 then .ok [(lo, hi)]
  else match view.shape.getLast? with
    | none => .error "tuple index out of range"
    | some 0 => .error "integer division or modulo by zero"
    | some cols =>
      let r0 := lo / cols
      let c0 := lo % cols
      let r1 := (hi - 1) / cols
      let c1 := (hi - 1) % cols
      .ok [(r0, r1 + 1), (if r0 = r1 then c0 else 0, if r0 = r1 then c1 + 1 else cols)]

/-- `_tile_region`: `Region.tile` asserts one range a dimension. -/
def tileRegion (box : List (ℤ × ℤ)) (view : TensorValue) : Except String Region :=
  if box.length = view.shape.length then
    .ok (tile view (box.map fun r => (r.1, Bound.int r.2)))
  else .error "AssertionError"

/-- Regions of tile `c`, by the flat box of `view`, on each of `targets`. -/
def flatRegions (view : TensorValue) (targets : List TensorValue) (c : ℕ) : Except String (List Region) := do
  let box ← flatBox view (c * elemTile : ℕ) (min ((c + 1) * elemTile) view.numel : ℕ)
  targets.mapM (tileRegion box)

structure FlatTask where
  domain : TileDomain
  reads : ℕ → Except String (List Region)
  writes : ℕ → Except String (List Region)

def lowerGelu (x y : TensorValue) : FlatTask where
  domain := ⟨[(x.numel, elemTile)]⟩
  reads := flatRegions x [x]
  writes := flatRegions y [y]

def lowerSwiglu (gate up y : TensorValue) : FlatTask where
  domain := ⟨[(gate.numel, elemTile)]⟩
  reads := flatRegions gate [gate, up]
  writes := flatRegions y [y]

def lowerAdd (a b y : TensorValue) : FlatTask where
  domain := ⟨[(a.numel, elemTile)]⟩
  reads := flatRegions a [a, b]
  writes := flatRegions y [y]

/-- The recorded elementwise operators. -/
inductive Elementwise where
  | gelu (x y : TensorValue)
  | swiglu (gate up y : TensorValue)
  | add (a b y : TensorValue)

namespace Elementwise

def operands : Elementwise → List TensorValue
  | gelu x y => [x, y]
  | swiglu gate up y => [gate, up, y]
  | add a b y => [a, b, y]

def lower : Elementwise → FlatTask
  | gelu x y => lowerGelu x y
  | swiglu gate up y => lowerSwiglu gate up y
  | add a b y => lowerAdd a b y

/-- Contiguous operands of one shape. -/
def Uniform (op : Elementwise) (shape : List ℕ) : Prop :=
  ∀ tv ∈ op.operands, tv.shape = shape ∧ tv.strides.length = shape.length ∧ tv.isContiguous = true

end Elementwise

/-! ## Coverage -/

open Elementwise (Uniform operands)

/-- The region holds an index of its view, whatever the runtime scalars. -/
def Region.HoldsIndex (r : Region) (idx : List ℕ) : Prop := ∀ env, Forall₂ (Axis.Admits env) idx r.axes

/-- The flat elements of tile `c`. -/
def InTile (numel c e : ℕ) : Prop := c * elemTile ≤ e ∧ e < (c + 1) * elemTile ∧ e < numel

/-- A callback returns for tile `c`, and its regions hold the tile's elements. -/
def RegionsCover (regions : Except String (List Region)) (numel c : ℕ) : Prop :=
  ∃ rs, regions = .ok rs ∧ ∀ r ∈ rs, ∀ e, InTile numel c e → r.HoldsIndex (unravel r.view.shape e)

/-- Every task of the lowering declares what it touches. -/
def FlatTask.Covers (t : FlatTask) (numel : ℕ) : Prop :=
  ∀ c < t.domain.taskCount, RegionsCover (t.reads c) numel c ∧ RegionsCover (t.writes c) numel c

section

variable {view : TensorValue} {lo hi : ℕ}

lemma flatBox_vector {n : ℕ} (hcont : view.isContiguous = true) (hshape : view.shape = [n]) (lo hi : ℤ) :
    flatBox view lo hi = .ok [(lo, hi)] := by
  unfold flatBox
  rw [hcont, hshape]
  rfl

/-- The box of a range that is not empty: the rows it meets, and its columns if it meets one row. -/
lemma flatBox_matrix {rows cols : ℕ} (hcont : view.isContiguous = true) (hshape : view.shape = [rows, cols])
    (hcols : 0 < cols) (hlt : lo < hi) : flatBox view lo hi = .ok
      [(((lo / cols : ℕ) : ℤ), (((hi - 1) / cols + 1 : ℕ) : ℤ)),
        (((if lo / cols = (hi - 1) / cols then lo % cols else 0 : ℕ) : ℤ),
          ((if lo / cols = (hi - 1) / cols then (hi - 1) % cols + 1 else cols : ℕ) : ℤ))] := by
  obtain ⟨k, rfl⟩ := Nat.exists_eq_add_of_lt hcols
  have hlast : ((hi : ℤ) - 1) = ((hi - 1 : ℕ) : ℤ) := by omega
  unfold flatBox
  rw [hcont, hshape, if_neg (by simp), if_neg (by simp)]
  rw [hlast]
  simp only [← Int.natCast_ediv, ← Int.natCast_emod, Int.natCast_inj]
  push_cast
  rfl

lemma flatBox_length {box : List (ℤ × ℤ)} {lo hi : ℤ} (h : flatBox view lo hi = .ok box)
    (hrank : view.shape.length ≠ 1) : box.length = 2 := by
  unfold flatBox at h
  split at h
  · cases h
  · split at h
    · cases h
    · cases h
    · cases h
      rfl

end

section

variable {shape : List ℕ} {box : List (ℤ × ℤ)}

lemma mapM_tileRegion {targets : List TensorValue} (h : ∀ t ∈ targets, t.shape.length = box.length) :
    targets.mapM (tileRegion box) =
      .ok (targets.map fun t => tile t (box.map fun r => (r.1, Bound.int r.2))) := by
  induction targets with
  | nil => rfl
  | cons t targets ih =>
    have ht : tileRegion box t = .ok (tile t (box.map fun r => (r.1, Bound.int r.2))) :=
      if_pos (h t mem_cons_self).symm
    rw [mapM_cons, ht, ih fun u hu => h u (mem_cons_of_mem _ hu)]
    rfl

lemma holds_vector {tv : TensorValue} {n s i : ℕ} {lo hi : ℤ} (hshape : tv.shape = [n])
    (hstrides : tv.strides = [s]) (hn : i < n) (hlo : lo ≤ i) (hhi : (i : ℤ) < hi) :
    (tile tv [(lo, .int hi)]).HoldsIndex [i] := by
  intro _
  have haxes : (tile tv [(lo, .int hi)]).axes = [⟨lo, .int hi, s, n, none⟩] := by
    simp [axes, tile, hshape, hstrides]
  rw [haxes]
  exact .cons ⟨hn, hlo, hhi⟩ .nil

lemma holds_matrix {tv : TensorValue} {m n s s' i j : ℕ} {lo hi lo' hi' : ℤ} (hshape : tv.shape = [m, n])
    (hstrides : tv.strides = [s, s']) (hm : i < m) (hn : j < n) (hrow : lo ≤ i ∧ (i : ℤ) < hi)
    (hcol : lo' ≤ j ∧ (j : ℤ) < hi') : (tile tv [(lo, .int hi), (lo', .int hi')]).HoldsIndex [i, j] := by
  intro _
  have haxes : (tile tv [(lo, .int hi), (lo', .int hi')]).axes =
      [⟨lo, .int hi, s, m, none⟩, ⟨lo', .int hi', s', n, none⟩] := by
    simp [axes, tile, hshape, hstrides]
  rw [haxes]
  exact .cons ⟨hm, hrow⟩ (.cons ⟨hn, hcol⟩ .nil)

lemma column_in_row {cols lo hi e : ℕ} (hlo : lo ≤ e) (hhi : e < hi) (hrow : lo / cols = (hi - 1) / cols) :
    lo % cols ≤ e % cols ∧ e % cols < (hi - 1) % cols + 1 := by
  have hlow : lo / cols ≤ e / cols := Nat.div_le_div_right hlo
  have hhigh : e / cols ≤ (hi - 1) / cols := Nat.div_le_div_right (by omega)
  have hsame : e / cols = lo / cols := by omega
  have h1 := Nat.div_add_mod lo cols
  have h2 := Nat.div_add_mod e cols
  have h3 := Nat.div_add_mod (hi - 1) cols
  rw [hsame] at h2
  rw [← hrow] at h3
  omega

/-- **The regions of a tile** hold its elements, over one and over two dimensions. -/
theorem flatRegions_cover {view : TensorValue} {targets : List TensorValue} {c : ℕ}
    (hview : view.shape = shape ∧ view.isContiguous = true)
    (htargets : ∀ t ∈ targets, t.shape = shape ∧ t.strides.length = shape.length)
    (hrank : shape.length = 1 ∨ shape.length = 2) (hc : c * elemTile < view.numel) :
    RegionsCover (flatRegions view targets c) view.numel c := by
  obtain ⟨hshape, hcont⟩ := hview
  have htile : 0 < elemTile := by decide
  have hend : c * elemTile < min ((c + 1) * elemTile) view.numel :=
    Nat.lt_min.mpr ⟨mul_lt_mul_of_pos_right (lt_add_one c) htile, hc⟩
  unfold flatRegions
  rcases hrank with h1 | h2
  · obtain ⟨n, rfl⟩ := length_eq_one_iff.mp h1
    rw [flatBox_vector hcont hshape]
    refine ⟨_, mapM_tileRegion fun t ht => by rw [(htargets t ht).1]; rfl, ?_⟩
    intro r hr e ⟨hlo, hhi, he⟩
    obtain ⟨t, ht, rfl⟩ := mem_map.mp hr
    obtain ⟨htshape, htlen⟩ := htargets t ht
    obtain ⟨s, hs⟩ := length_eq_one_iff.mp (htlen.trans h1)
    have hn : e < n := by simpa [TensorValue.numel, hshape] using he
    show (tile t _).HoldsIndex (unravel t.shape e)
    rw [htshape]
    show (tile t _).HoldsIndex [e / 1]
    rw [Nat.div_one]
    exact holds_vector htshape hs hn (by omega) (by omega)
  · obtain ⟨m, n, rfl⟩ := length_eq_two.mp h2
    have hnumel : view.numel = m * n := by simp [TensorValue.numel, hshape]
    have hn : 0 < n := pos_of_ne_zero fun h0 => by
      rw [hnumel, h0, Nat.mul_zero] at hc
      omega
    rw [flatBox_matrix hcont hshape hn hend]
    refine ⟨_, mapM_tileRegion fun t ht => by rw [(htargets t ht).1]; rfl, ?_⟩
    intro r hr e ⟨hlo, hhi, he⟩
    obtain ⟨t, ht, rfl⟩ := mem_map.mp hr
    obtain ⟨htshape, htlen⟩ := htargets t ht
    obtain ⟨s, _, hs⟩ := length_eq_two.mp (htlen.trans h2)
    have hlast : e < min ((c + 1) * elemTile) view.numel := Nat.lt_min.mpr ⟨hhi, he⟩
    have hrow : e / n < m := Nat.div_lt_of_lt_mul (by rwa [mul_comm, ← hnumel])
    have hcol : e % n < n := Nat.mod_lt e hn
    have hrows : c * elemTile / n ≤ e / n ∧ e / n < (min ((c + 1) * elemTile) view.numel - 1) / n + 1 :=
      ⟨Nat.div_le_div_right hlo, Nat.lt_succ_iff.mpr (Nat.div_le_div_right (by omega))⟩
    show (tile t _).HoldsIndex (unravel t.shape e)
    rw [htshape]
    have hidx : unravel [m, n] e = [e / n, e % n] := by simp [unravel]
    rw [hidx]
    refine holds_matrix htshape hs hrow hcol ⟨by omega, by omega⟩ ?_
    by_cases hone : c * elemTile / n = (min ((c + 1) * elemTile) view.numel - 1) / n
    · obtain ⟨hleft, hright⟩ := column_in_row hlo hlast hone
      rw [if_pos hone, if_pos hone]
      exact ⟨Int.ofNat_le.mpr hleft, Int.ofNat_lt.mpr hright⟩
    · rw [if_neg hone, if_neg hone]
      exact ⟨Int.natCast_nonneg _, Int.ofNat_lt.mpr hcol⟩

lemma flatRegions_rank {view : TensorValue} {targets : List TensorValue} {c : ℕ} {rs : List Region}
    (h : flatRegions view (view :: targets) c = .ok rs) : view.shape.length = 1 ∨ view.shape.length = 2 := by
  by_cases hone : view.shape.length = 1
  · exact .inl hone
  unfold flatRegions at h
  cases hbox : flatBox view (c * elemTile : ℕ) (min _ view.numel : ℕ) with
  | error e =>
    rw [hbox] at h
    cases h
  | ok box =>
    rw [hbox] at h
    change (view :: targets).mapM (tileRegion box) = .ok rs at h
    rw [mapM_cons] at h
    by_cases hlen : box.length = view.shape.length
    · exact .inr (hlen ▸ flatBox_length hbox hone)
    · rw [show tileRegion box view = .error "AssertionError" from if_neg hlen] at h
      cases h

lemma flatTask_covers_iff {view y : TensorValue} {rest : List TensorValue}
    (h : ∀ tv ∈ view :: rest ++ [y], tv.shape = shape ∧ tv.strides.length = shape.length ∧ tv.isContiguous = true) :
    (FlatTask.mk ⟨[(view.numel, elemTile)]⟩ (flatRegions view (view :: rest)) (flatRegions y [y])).Covers
      view.numel ↔ shape.prod = 0 ∨ shape.length = 1 ∨ shape.length = 2 := by
  have hview := h view (by simp)
  have hy := h y (by simp)
  have hcount : (TileDomain.mk [(view.numel, elemTile)]).taskCount = (view.numel + elemTile - 1) / elemTile := by
    simp [TileDomain.taskCount, TileDomain.taskGrid]
  have hnumel : view.numel = shape.prod := congrArg List.prod hview.1
  constructor
  · intro hcov
    by_cases hzero : shape.prod = 0
    · exact .inl hzero
    · have hpos : 0 < (view.numel + elemTile - 1) / elemTile := by
        unfold elemTile
        omega
      obtain ⟨⟨_, hrs, -⟩, -⟩ := hcov 0 (hcount ▸ hpos)
      rw [← hview.1]
      exact .inr (flatRegions_rank hrs)
  · rintro (hzero | hrank) c hc
    · rw [hcount, hnumel, hzero] at hc
      simp [elemTile] at hc
    · rw [hcount] at hc
      have hstart : c * elemTile < view.numel := by
        have hle := (Nat.le_div_iff_mul_le (by decide : 0 < elemTile)).mp (Nat.succ_le_of_lt hc)
        unfold elemTile at hle ⊢
        omega
      have hsame : y.numel = view.numel := (congrArg List.prod hy.1).trans hnumel.symm
      refine ⟨flatRegions_cover ⟨hview.1, hview.2.2⟩ ?_ hrank hstart, ?_⟩
      · intro t ht
        have := h t (mem_append_left _ ht)
        exact ⟨this.1, this.2.1⟩
      · rw [← hsame]
        refine flatRegions_cover ⟨hy.1, hy.2.2⟩ (fun t ht => ?_) hrank (hsame ▸ hstart)
        obtain rfl := mem_singleton.mp ht
        exact ⟨hy.1, hy.2.1⟩

end

/-- **Flat tiles.**  For every shape, every elementwise operator on contiguous operands of it covers its
    elements exactly when there are none, or the shape has one or two dimensions. -/
theorem flat_tiles_iff {op : Elementwise} {shape : List ℕ} (h : op.Uniform shape) :
    op.lower.Covers shape.prod ↔ shape.prod = 0 ∨ shape.length = 1 ∨ shape.length = 2 := by
  have hnumel : ∀ tv ∈ op.operands, tv.numel = shape.prod := fun tv htv => congrArg List.prod (h tv htv).1
  cases op with
  | gelu x y =>
    rw [← hnumel x (by simp [operands])]
    exact (@flatTask_covers_iff _ _ _ [] h).trans (by rw [hnumel x (by simp [operands])])
  | swiglu gate up y =>
    rw [← hnumel gate (by simp [operands])]
    exact (@flatTask_covers_iff _ _ _ [up] h).trans (by rw [hnumel gate (by simp [operands])])
  | add a b y =>
    rw [← hnumel a (by simp [operands])]
    exact (@flatTask_covers_iff _ _ _ [b] h).trans (by rw [hnumel a (by simp [operands])])

def denseTensor (name : String) (storageId : ℕ) (shape : List ℕ) : TensorValue where
  name := name
  shape := shape
  strides := rowMajor shape
  storageId := storageId
  offset := 0

theorem flat_tiles_matrix :
    (lowerAdd (denseTensor "a" 0 [3, 1000]) (denseTensor "b" 1 [3, 1000]) (denseTensor "y" 2 [3, 1000])).Covers
      [3, 1000].prod :=
  (@flat_tiles_iff (.add (denseTensor "a" 0 [3, 1000]) (denseTensor "b" 1 [3, 1000]) (denseTensor "y" 2 [3, 1000]))
    [3, 1000] (by unfold Uniform; decide)).mpr (.inr (.inr rfl))

/-- A cube of eight elements: the callback of the one task asserts. -/
theorem flat_tiles_cube :
    (lowerGelu (denseTensor "x" 0 [2, 2, 2]) (denseTensor "y" 1 [2, 2, 2])).reads 0 = .error "AssertionError" ∧
      ¬ (lowerGelu (denseTensor "x" 0 [2, 2, 2]) (denseTensor "y" 1 [2, 2, 2])).Covers [2, 2, 2].prod := by
  have hread : (lowerGelu (denseTensor "x" 0 [2, 2, 2]) (denseTensor "y" 1 [2, 2, 2])).reads 0 =
      .error "AssertionError" := by decide
  refine ⟨hread, fun h => ?_⟩
  obtain ⟨⟨_, hrs, -⟩, -⟩ := h 0 (by decide)
  cases hrs

end VKernels.Compiler
