import VKernels.Compiler.TaskIR
import VKernels.Lib.Blocks
import VKernels.Lib.RowMajor

/-!
# Task numbering

The numbering of `compiler/task_ir.py` and `compiler/schedule_phase.py`, for every integer id, every
tile grid and every worker count.

* `TileDomain.coordsAt`, `TileDomain.box` — coordinates and element ranges of an id, which may be
  negative or too large.
* `TileDomain.Numbered` — ids outside raise, boxes are not empty and partition the index space.
* `PhasePlan.familyOf`, `PhasePlan.localId` — the two lookups of a linear id.

## Results

* `coordsAt_ok`, `coordsAt_error` — what an id gives.
* `TileDomain.numbered` — every domain of positive extents and tiles is `Numbered`.
* `lookup_range` — the ids of a phase are its families' ids, one family after another.
* `task_numbering` — both, for all workers together.
-/

namespace VKernels.Compiler

open Strided
open List

namespace TileDomain

variable (d : TileDomain)

/-- The loop of `coords` on Python's integers: floor division, by a positive grid. -/
def coordsLoop : List ℕ → ℤ → List ℕ × ℤ
  | [], rem => ([], rem)
  | g :: grid, rem =>
    let (out, rem) := coordsLoop grid rem
    ((rem % g).toNat :: out, rem / g)

def coordsAt (taskId : ℤ) : Except String (List ℕ) :=
  let (out, rem) := coordsLoop d.taskGrid taskId
  if rem ≠ 0 then .error "task id outside domain" else .ok out

/-- One dimension of `box`, clipped to the extent. -/
def tileRange (dim : ℕ × ℕ) (c : ℕ) : ℕ × ℕ := (c * dim.2, min (c * dim.2 + dim.2) dim.1)

def box (taskId : ℤ) : Except String (List (ℕ × ℕ)) :=
  (fun coords => List.zipWith tileRange d.dims coords) <$> d.coordsAt taskId

/-- Every extent and every tile size is positive. -/
def Positive : Prop := ∀ dim ∈ d.dims, 0 < dim.1 ∧ 0 < dim.2

/-- An element of the index space. -/
def InSpace (x : List ℕ) : Prop := List.Forall₂ (fun i dim => i < dim.1) x d.dims

def InBox (x : List ℕ) (b : List (ℕ × ℕ)) : Prop := List.Forall₂ (fun i r => r.1 ≤ i ∧ i < r.2) x b

structure Numbered : Prop where
  raises : ∀ taskId : ℤ, (∃ e, d.coordsAt taskId = .error e) ↔ ¬ (0 ≤ taskId ∧ taskId < d.taskCount)
  nonempty : ∀ taskId : ℕ, taskId < d.taskCount → ∃ b, d.box taskId = .ok b ∧ ∃ x, InBox x b
  inside : ∀ (taskId : ℕ) b, d.box taskId = .ok b → ∀ x, InBox x b → d.InSpace x
  partition : ∀ x, d.InSpace x → ∃! taskId : ℕ, taskId < d.taskCount ∧ ∃ b, d.box taskId = .ok b ∧ InBox x b

end TileDomain

/-! ## Coordinates -/

namespace TileDomain

variable {d : TileDomain}

lemma coordsLoop_snd (grid : List ℕ) (rem : ℤ) : (coordsLoop grid rem).2 = rem / (grid.prod : ℕ) := by
  induction grid with
  | nil => simp [coordsLoop]
  | cons g grid ih =>
    show (coordsLoop grid rem).2 / g = _
    rw [ih, prod_cons, mul_comm, Nat.cast_mul, Int.ediv_ediv_of_nonneg (Int.natCast_nonneg _)]

variable {taskId : ℕ} {dims : List (ℕ × ℕ)} {x : List ℕ}

lemma coordsLoop_fst {grid : List ℕ} (h : taskId < grid.prod) : (coordsLoop grid taskId).1 = unravel grid taskId := by
  have hgen : ∀ (grid : List ℕ) (n : ℕ), 0 < grid.prod → (coordsLoop grid n).1 = unravel grid (n % grid.prod) := by
    intro grid
    induction grid with
    | nil => intro n _; rfl
    | cons g grid ih =>
      intro n hpos
      have hrest := Nat.pos_of_mul_pos_left hpos
      show ((coordsLoop grid n).2 % g).toNat :: (coordsLoop grid n).1 =
        n % (g :: grid).prod / grid.prod :: unravel grid (n % (g :: grid).prod % grid.prod)
      have hdigit : ((coordsLoop grid n).2 % g).toNat = n / grid.prod % g := by
        rw [coordsLoop_snd, ← Int.natCast_ediv, ← Int.natCast_emod, Int.toNat_natCast]
      rw [hdigit, ih n hrest, prod_cons, Nat.mul_comm g, Nat.mod_mul_right_div_self, Nat.mod_mul_right_mod]
  rw [hgen grid taskId (Nat.zero_lt_of_lt h), Nat.mod_eq_of_lt h]

lemma taskGrid_pos (hd : d.Positive) : ∀ g ∈ d.taskGrid, 0 < g := by
  intro g hg
  obtain ⟨dim, hdim, rfl⟩ := mem_map.mp hg
  obtain ⟨hextent, htile⟩ := hd dim hdim
  exact Nat.div_pos (by omega) htile

lemma taskCount_pos (hd : d.Positive) : 0 < d.taskCount := prod_pos (taskGrid_pos hd)

/-- An id of the domain has the row-major index of its tile. -/
lemma coordsAt_ok (h : taskId < d.taskCount) : d.coordsAt taskId = .ok (unravel d.taskGrid taskId) := by
  have hrem : (coordsLoop d.taskGrid taskId).2 = 0 := by
    rw [coordsLoop_snd]
    exact Int.ediv_eq_zero_of_lt (Int.natCast_nonneg _) (Int.ofNat_lt.mpr h)
  unfold coordsAt
  dsimp only
  rw [hrem, if_neg (by simp), coordsLoop_fst h]

lemma coordsAt_error (hd : d.Positive) {taskId : ℤ} (h : ¬ (0 ≤ taskId ∧ taskId < d.taskCount)) :
    ∃ e, d.coordsAt taskId = .error e := by
  have hcount : (0 : ℤ) < (d.taskGrid.prod : ℕ) := Int.natCast_pos.mpr (taskCount_pos hd)
  have hrem : (coordsLoop d.taskGrid taskId).2 ≠ 0 := by
    rw [coordsLoop_snd]
    intro hzero
    refine h ⟨?_, ?_⟩
    · by_contra hneg
      have := Int.ediv_neg_of_neg_of_pos (by omega : taskId < 0) hcount
      omega
    · by_contra hbig
      have hone : 1 ≤ taskId / (d.taskGrid.prod : ℕ) :=
        (Int.le_ediv_iff_mul_le hcount).mpr ((Int.one_mul _).trans_le (Int.not_lt.mp hbig))
      omega
  refine ⟨"task id outside domain", ?_⟩
  unfold coordsAt
  dsimp only
  rw [if_pos hrem]

/-! ## Boxes -/

lemma mem_tileRange {dim : ℕ × ℕ} {i c : ℕ} (htile : 0 < dim.2) (hi : i < dim.1) :
    ((tileRange dim c).1 ≤ i ∧ i < (tileRange dim c).2) ↔ c = i / dim.2 := by
  unfold tileRange
  rw [Nat.lt_min, ← Nat.add_one_mul]
  constructor
  · rintro ⟨hle, hlt, -⟩
    refine Nat.le_antisymm ((Nat.le_div_iff_mul_le htile).mpr hle) (Nat.lt_succ_iff.mp ?_)
    exact (Nat.div_lt_iff_lt_mul htile).mpr hlt
  · rintro rfl
    exact ⟨Nat.div_mul_le_self i dim.2, (Nat.lt_mul_div_succ i htile).trans_eq (mul_comm _ _), hi⟩

/-- The tiles of an index, one a dimension. -/
def tilesOf (x : List ℕ) (dims : List (ℕ × ℕ)) : List ℕ := List.zipWith (fun i dim => i / dim.2) x dims

lemma tilesOf_inShape (hdims : ∀ dim ∈ dims, 0 < dim.1 ∧ 0 < dim.2)
    (hx : List.Forall₂ (fun i dim => i < dim.1) x dims) :
    InShape (dims.map fun p => (p.1 + p.2 - 1) / p.2) (tilesOf x dims) := by
  induction hx with
  | nil => exact .nil
  | cons hi _ ih =>
    exact .cons (Blocks.div_lt_blocks (hdims _ mem_cons_self).2 hi) (ih fun dim hdim => hdims dim (mem_cons_of_mem _ hdim))

lemma inBox_iff (hdims : ∀ dim ∈ dims, 0 < dim.1 ∧ 0 < dim.2) {coords : List ℕ}
    (hx : List.Forall₂ (fun i dim => i < dim.1) x dims) (hlen : coords.length = dims.length) :
    InBox x (zipWith tileRange dims coords) ↔ coords = tilesOf x dims := by
  induction hx generalizing coords with
  | nil =>
    rw [length_eq_zero_iff.mp hlen]
    exact ⟨fun _ => rfl, fun _ => .nil⟩
  | cons hi _ ih =>
    obtain ⟨c, coords, rfl⟩ := exists_of_length_succ coords hlen
    have htile := (hdims _ mem_cons_self).2
    have hrest := ih (fun dim hdim => hdims dim (mem_cons_of_mem _ hdim)) (Nat.succ.inj hlen)
    unfold InBox at hrest ⊢
    rw [zipWith_cons_cons, forall₂_cons, mem_tileRange htile hi, hrest]
    unfold tilesOf
    rw [zipWith_cons_cons, cons.injEq]

lemma inBox_inSpace {coords : List ℕ} (hlen : coords.length = dims.length)
    (h : InBox x (zipWith tileRange dims coords)) : List.Forall₂ (fun i dim => i < dim.1) x dims := by
  induction dims generalizing x coords with
  | nil =>
    cases h
    exact .nil
  | cons dim dims ih =>
    obtain ⟨c, coords, rfl⟩ := exists_of_length_succ coords hlen
    cases h with
    | cons hi hrest => exact .cons (hi.2.trans_le (min_le_right _ _)) (ih (Nat.succ.inj hlen) hrest)

lemma first_inBox (hdims : ∀ dim ∈ dims, 0 < dim.1 ∧ 0 < dim.2) {coords : List ℕ}
    (h : InShape (dims.map fun p => (p.1 + p.2 - 1) / p.2) coords) :
    InBox (zipWith (fun dim c => c * dim.2) dims coords) (zipWith tileRange dims coords) := by
  induction dims generalizing coords with
  | nil => exact .nil
  | cons dim dims ih =>
    cases h with
    | @cons c _ coords _ hc hrest =>
      obtain ⟨hextent, htile⟩ := hdims _ mem_cons_self
      refine .cons ⟨le_rfl, Nat.lt_min.mpr ⟨Nat.lt_add_of_pos_right htile, ?_⟩⟩
        (ih (fun e he => hdims e (mem_cons_of_mem _ he)) hrest)
      have hle : (c + 1) * dim.2 ≤ dim.1 + dim.2 - 1 := (Nat.le_div_iff_mul_le htile).mp hc
      rw [Nat.add_one_mul] at hle
      show c * dim.2 < dim.1
      omega

lemma box_ok (h : taskId < d.taskCount) :
    d.box taskId = .ok (zipWith tileRange d.dims (unravel d.taskGrid taskId)) := by
  unfold box
  rw [coordsAt_ok h]
  rfl

lemma taskGrid_length (d : TileDomain) : d.taskGrid.length = d.dims.length := length_map _

lemma numbered (hd : d.Positive) : d.Numbered := by
  have hlt : ∀ (taskId : ℕ) b, d.box taskId = .ok b → taskId < d.taskCount := by
    intro taskId b hb
    by_contra hout
    obtain ⟨e, he⟩ : ∃ e, d.coordsAt taskId = .error e := coordsAt_error hd fun h => hout (Int.ofNat_lt.mp h.2)
    unfold box at hb
    rw [he] at hb
    cases hb
  have hlen : ∀ taskId, (unravel d.taskGrid taskId).length = d.dims.length := fun taskId => by
    rw [unravel_length, taskGrid_length]
  refine ⟨fun taskId => ⟨?_, coordsAt_error hd⟩, ?_, ?_, ?_⟩
  · rintro ⟨e, he⟩ ⟨h0, hlt⟩
    obtain ⟨n, rfl⟩ := Int.eq_ofNat_of_zero_le h0
    rw [coordsAt_ok (Int.ofNat_lt.mp hlt)] at he
    cases he
  · intro taskId h
    exact ⟨_, box_ok h, _, first_inBox hd (unravel_inShape h)⟩
  · intro taskId b hb x hx
    rw [box_ok (hlt taskId b hb)] at hb
    cases hb
    exact inBox_inSpace (hlen taskId) hx
  · intro x hx
    have hshape : InShape d.taskGrid (tilesOf x d.dims) := tilesOf_inShape hd hx
    have hid := dot_rowMajor_lt hshape
    refine ⟨dot _ _, ⟨hid, _, box_ok hid, ?_⟩, ?_⟩
    · exact (inBox_iff hd hx (hlen _)).mpr (unravel_dot hshape)
    · rintro taskId ⟨h, b, hb, hxb⟩
      rw [box_ok h] at hb
      cases hb
      rw [← (inBox_iff hd hx (hlen taskId)).mp hxb, dot_unravel h]

end TileDomain

/-! ## Phases -/

namespace PhasePlan

def familyOf (phase : PhasePlan) (taskId : ℕ) : Except String TaskFamily :=
  let rec loop : List TaskFamily → ℕ → Except String TaskFamily
    | [], _ => .error "task id outside phase"
    | f :: families, taskId =>
      if taskId < f.taskCount then .ok f else loop families (taskId - f.taskCount)
  loop phase.families taskId

def localId (phase : PhasePlan) (taskId : ℕ) : Except String ℕ :=
  let rec loop : List TaskFamily → ℕ → Except String ℕ
    | [], _ => .error "task id outside phase"
    | f :: families, taskId =>
      if taskId < f.taskCount then .ok taskId else loop families (taskId - f.taskCount)
  loop phase.families taskId

/-- Family and local id of a linear task id. -/
def lookup (phase : PhasePlan) (taskId : ℕ) : Except String TaskFamily × Except String ℕ :=
  (phase.familyOf taskId, phase.localId taskId)

/-- Every task of every family, by its local id. -/
def tasks (phase : PhasePlan) : List (Except String TaskFamily × Except String ℕ) :=
  phase.families.flatMap fun f => (List.range f.taskCount).map fun i => (.ok f, .ok i)

lemma lookup_range (phase : PhasePlan) : (range phase.taskCount).map phase.lookup = phase.tasks := by
  obtain ⟨_, families⟩ := phase
  unfold tasks taskCount
  induction families with
  | nil => rfl
  | cons f families ih =>
    rw [map_cons, sum_cons, range_add, map_append, flatMap_cons, ← ih, map_map]
    congr 1
    · refine map_congr_left fun i hi => ?_
      have hlt := mem_range.mp hi
      show (familyOf.loop (f :: families) i, localId.loop (f :: families) i) = _
      unfold familyOf.loop localId.loop
      rw [if_pos hlt, if_pos hlt]
    · refine map_congr_left fun i _ => ?_
      show (familyOf.loop (f :: families) (f.taskCount + i), localId.loop (f :: families) (f.taskCount + i)) = _
      rw [familyOf.loop, localId.loop, if_neg (by omega), if_neg (by omega), Nat.add_sub_cancel_left]
      rfl

end PhasePlan

def allWorkerIds (phase : PhasePlan) (workers : ℕ) : List ℕ :=
  (List.range workers).flatMap fun w => workerTaskIds phase w workers

/-- **Task numbering.**  Every domain of positive extents and tile sizes is `Numbered`, and for every
    worker count the ids of all workers look up every task of every family exactly once. -/
theorem task_numbering : (∀ d : TileDomain, d.Positive → d.Numbered) ∧
      ∀ (phase : PhasePlan) (workers : ℕ), 0 < workers →
        ((allWorkerIds phase workers).map phase.lookup).Perm phase.tasks := by
  refine ⟨fun d => TileDomain.numbered, fun phase workers hw => ?_⟩
  have hperm : (allWorkerIds phase workers).Perm (range phase.taskCount) := executionOrder_perm hw
  rw [← phase.lookup_range]
  exact hperm.map phase.lookup

/-- Five by three elements in tiles of two by two, over three workers. -/
theorem task_numbering_five_three : (TileDomain.mk [(5, 2), (3, 2)]).Numbered ∧
      ∀ phase : PhasePlan, ((allWorkerIds phase 3).map phase.lookup).Perm phase.tasks :=
  ⟨task_numbering.1 _ (by unfold TileDomain.Positive; decide), fun phase => task_numbering.2 phase 3 (by decide)⟩

end VKernels.Compiler
