import VKernels.Compiler.CompressorAppend
import VKernels.Lib.TileLoops

/-!
# The two-series entry pool, over runs

Every task of either body does to its own slab what `PingPong.push` does, at a boundary, and nothing otherwise.

* `Represents`, `Refines` — the slab of a task, and all slabs, as ping-pong series.
* `reference_step`, `device_step` — one task of each body.

## Results

* `runs_correct` — where the offsets fit, both bodies keep the same slabs, and the slabs hold what was emitted.
* `late_row_never_stored` — a pool of more than `2 ^ 31` elements whose device rows miss their entry.
-/

namespace VKernels.CompressorAppend

open Compiler LaneLaunch LocalActions Finset
open OnlineSoftmax (maxFrom)
open Function (update update_of_ne update_self)
open Device (acc boundary denom e eRot maskedStores ms pv shifted sign)

/-! ## Offsets that fit -/

namespace Geometry

variable (g : Geometry)

/-- Every element offset is below `2 ^ 31`. -/
structure Fits : Prop where
  gates : g.rows * g.m ≤ 2 ^ 31
  window : g.rows * g.m * g.d ≤ 2 ^ 31
  state : g.rows * g.layers * 2 ≤ 2 ^ 31
  pool : g.rows * g.layers * 2 * g.R * g.d ≤ 2 ^ 31

instance : Decidable g.Fits :=
  decidable_of_iff
    (g.rows * g.m ≤ 2 ^ 31 ∧ g.rows * g.m * g.d ≤ 2 ^ 31 ∧ g.rows * g.layers * 2 ≤ 2 ^ 31 ∧
      g.rows * g.layers * 2 * g.R * g.d ≤ 2 ^ 31)
    ⟨fun ⟨h1, h2, h3, h4⟩ => ⟨h1, h2, h3, h4⟩, fun ⟨h1, h2, h3, h4⟩ => ⟨h1, h2, h3, h4⟩⟩

/-- `Geometry.at` on naturals. -/
def place (t slot c i : ℕ) : ℕ := ((t * 2 + slot) * g.R + c) * g.d + i

lemma at_eq (t slot c i : ℕ) : g.at t slot c i = (g.place t slot c i : ℕ) := by
  unfold Geometry.at place
  push_cast
  ring

variable {g}

lemma place_lt {t slot c i : ℕ} (ht : t < g.tasks) (hslot : slot < 2) (hc : c < g.R) (hi : i < g.d) :
    g.place t slot c i < g.rows * g.layers * 2 * g.R * g.d :=
  Blocks.block_lt (Blocks.block_lt (Blocks.block_lt ht hslot) hc) hi

lemma place_inj {t slot c i t' slot' c' i' : ℕ} (hslot : slot < 2) (hc : c < g.R) (hi : i < g.d)
    (hslot' : slot' < 2) (hc' : c' < g.R) (hi' : i' < g.d) (h : g.place t slot c i = g.place t' slot' c' i') :
    t = t' ∧ slot = slot' ∧ c = c' ∧ i = i' := by
  unfold place at h
  obtain ⟨hcell, rfl⟩ := Blocks.place_inj hi hi' h
  obtain ⟨hslots, rfl⟩ := Blocks.place_inj hc hc' hcell
  obtain ⟨rfl, rfl⟩ := Blocks.place_inj hslot hslot' hslots
  exact ⟨rfl, rfl, rfl, rfl⟩

lemma row_lt {t : ℕ} (ht : t < g.tasks) : t / g.layers < g.rows := (Blocks.block_of_lt ht).1

lemma task_of_row (t : ℕ) : ((t / g.layers : ℕ) : ℤ) * g.layers + (t % g.layers : ℕ) = t := by
  rw [← Nat.cast_mul, ← Nat.cast_add, mul_comm, Nat.div_add_mod]

lemma task_lt {b l : ℕ} (hb : b < g.rows) (hl : l < g.layers) : b * g.layers + l < g.tasks := Blocks.block_lt hb hl

lemma row_of_task {b l : ℕ} (hl : l < g.layers) : (b * g.layers + l) / g.layers = b := Blocks.block_div _ hl

lemma coords_domain {t : ℕ} (ht : t < g.tasks) : g.domain.coords t = .ok [t / g.layers, t % g.layers] := by
  have hrow := row_lt ht
  simp [TileDomain.coords, TileDomain.taskGrid, TileDomain.coordsFrom, domain, Nat.mod_eq_of_lt hrow,
    Nat.div_eq_of_lt hrow]

end Geometry

/-! ## Stores of an entry -/

section

variable {V : Type}

lemma assign_concat {L : Type} [DecidableEq L] (as : List (L × V)) (p : L × V) (m : L → V) :
    assign (as ++ [p]) m = update (assign as m) p.1 p.2 := by
  induction as generalizing m with
  | nil => rfl
  | cons q as ih => exact ih _

lemma entryStores_succ (addr : ℕ → ℤ) (n : ℕ) (v : ℕ → V) :
    entryStores addr (n + 1) v = entryStores addr n v ++ [(addr n, v n)] := by
  simp [entryStores, List.range_succ]

variable {n : ℕ} {v : ℕ → V}

lemma entryStores_ne {addr : ℕ → ℤ} {a : ℤ} (h : ∀ i < n, addr i ≠ a) (pool : ℤ → V) :
    assign (entryStores addr n v) pool a = pool a := by
  apply assign_frame
  simp only [entryStores, List.map_map, List.mem_map, List.mem_range, Function.comp_apply, not_exists, not_and]
  exact h

lemma entryStores_at (addr : ℕ → ℤ) (hinj : ∀ i < n, ∀ j < n, addr i = addr j → i = j) {i : ℕ}
    (hi : i < n) (pool : ℤ → V) : assign (entryStores addr n v) pool (addr i) = v i := by
  induction n with
  | zero => omega
  | succ n ih =>
    rw [entryStores_succ, assign_concat]
    by_cases heq : i = n
    · rw [heq, update_self]
    · have hne : addr i ≠ addr n := fun h => heq (hinj i hi n (by omega) h)
      rw [update_of_ne hne]
      exact ih (fun j hj k hk => hinj j (by omega) k (by omega)) (by omega)

lemma maskedStores_entry {addr : ℕ → ℤ} (h : ∀ i < n, int32 (addr i) = addr i) :
    maskedStores true (entryStores addr n v) = entryStores addr n v := by
  simp only [maskedStores, if_true, entryStores, List.map_map]
  refine List.map_congr_left fun i hi => ?_
  simp [h i (List.mem_range.mp hi)]

lemma maskedLoad_at {α : Type} {buf : ℤ → α} {offset : ℤ} (heq : offset = n) (h : n < 2 ^ 31) (other : α) :
    maskedLoad true buf offset other = buf offset := by
  rw [maskedLoad, if_pos rfl, heq, int32_natCast h]

end

/-! ## The entry -/

lemma pair_lt {g : Geometry} {i : ℕ} (hi : i < g.d) : Device.pair g i < g.d := by
  have hd : g.d = 2 * g.half := rfl
  rw [Device.pair, g.half_eq]
  split <;> omega

section

variable {V : Type} [Field V] [LinearOrder V] (ops : Numerics V) {g : Geometry} (x : Inputs V)

omit [Field V] in
lemma foldl_maxFrom_some (l : List V) (a : V) :
    l.foldl (fun m s => some (maxFrom m s)) (some a) = some (l.foldl max a) := by
  induction l generalizing a with
  | nil => rfl
  | cons s l ih => exact ih _

omit [Field V] in
lemma foldl_maxFrom (l : List V) : l.foldl (fun m s => some (maxFrom m s)) none = l.max? := by
  cases l with
  | nil => rfl
  | cons a l => exact foldl_maxFrom_some l a

variable (hfits : g.Fits) {b : ℕ} (hb : b < g.rows)
include hfits hb

section

omit [LinearOrder V] in
lemma gt_eq {t : ℕ} (ht : t < g.m) : Device.gt g x true b t = rowGate g x b t := by
  have hlt := Blocks.block_lt hb ht
  exact maskedLoad_at (n := b * g.m + t) (by push_cast; ring) (lt_of_lt_of_le hlt hfits.gates) 0

lemma gmax_eq : (Device.gmax g x true b).getD 0 = gmax g x b := by
  have hgates : (List.range g.m).map (Device.gt g x true b) = (List.range g.m).map (rowGate g x b) :=
    List.map_congr_left fun t ht => gt_eq x hfits hb (List.mem_range.mp ht)
  unfold Device.gmax gmax
  rw [← hgates, ← foldl_maxFrom, List.foldl_map]

lemma shifted_eq {t : ℕ} (ht : t < g.m) : shifted ops g x true b t = ex ops g x b t := by
  rw [shifted, gt_eq x hfits hb ht, gmax_eq x hfits hb, ex]

lemma denom_eq : denom ops g x true b = ∑ t ∈ range g.m, ex ops g x b t := by
  rw [denom, TileLoops.foldl_add (fun a : V => a) (fun _ _ => rfl), zero_add]
  exact sum_congr rfl fun t ht => shifted_eq ops x hfits hb (mem_range.mp ht)

end

lemma acc_eq {i : ℕ} (hi : i < g.d) : acc ops g x true b i = folded ops g x b i := by
  rw [acc, TileLoops.foldl_add (fun a : V => a) (fun _ _ => rfl), zero_add]
  refine sum_congr rfl fun t ht => ?_
  have ht := mem_range.mp ht
  have hlt := Blocks.block_lt (Blocks.block_lt hb ht) hi
  have hload : maskedLoad true x.window ((b * g.m + t) * g.d + i) 0 = x.window ((b * g.m + t) * g.d + i) :=
    maskedLoad_at (n := (b * g.m + t) * g.d + i) (by push_cast; ring) (lt_of_lt_of_le hlt hfits.window) 0
  rw [hload, shifted_eq ops x hfits hb ht, denom_eq ops x hfits hb, weight]

/-- The width of a row of the window is at most the window's size. -/
lemma d_le : g.d ≤ 2 ^ 31 := by
  have hpos : 0 < g.rows * g.m := mul_pos (Nat.zero_lt_of_lt hb) g.m_pos
  exact (Nat.le_mul_of_pos_left g.d hpos).trans hfits.window

lemma e_eq {i : ℕ} (hi : i < g.d) : e ops g x true b i = normed ops g x b i := by
  have hms : ms ops g x true b = (∑ j ∈ range g.d, folded ops g x b j * folded ops g x b j) / g.d := by
    unfold ms
    congr 1
    refine sum_congr rfl fun j hj => ?_
    rw [acc_eq ops x hfits hb (mem_range.mp hj)]
  have hint : int32 (i : ℤ) = i := int32_natCast (lt_of_lt_of_le hi (d_le hfits hb))
  rw [e, normed, acc_eq ops x hfits hb hi, hms, hint, one_div]

lemma pv_eq {i : ℕ} (hi : i < g.d) : pv ops g x true b i = normed ops g x b (Device.pair g i) := by
  have hpair := pair_lt hi
  rw [pv, sum_ite_eq' , if_pos (mem_range.mpr hpair), e_eq ops x hfits hb hpair]

lemma eRot_eq {i : ℕ} (hi : i < g.d) : eRot ops g x true b i = rotated ops g x b i := by
  have hd : g.d = 2 * g.half := rfl
  have hhalf := g.half_eq
  have hmod : i % g.half < g.half := Nat.mod_lt _ (by omega)
  have hlt : b * g.half + i % g.half < 2 ^ 31 := by
    have h1 := Blocks.block_lt hb hmod
    have h2 : g.rows * g.half ≤ g.rows * g.m * g.d := by
      rw [mul_assoc]
      apply Nat.mul_le_mul_left
      have := Nat.le_mul_of_pos_left g.d g.m_pos
      omega
    have h3 := hfits.window
    omega
  have hload (buf : ℤ → V) : maskedLoad true buf ((b : ℤ) * (g.half : ℕ) + (i % g.half : ℕ)) 0 =
      buf (b * g.half + (i % g.half : ℕ)) := maskedLoad_at (n := b * g.half + i % g.half) (by simp) hlt 0
  unfold eRot rotated
  simp only [hhalf, hload, e_eq ops x hfits hb hi, pv_eq ops x hfits hb hi, Device.pair, sign]
  by_cases h : i < g.half
  · have hi' : i % g.half = i := Nat.mod_eq_of_lt h
    rw [if_pos h, if_pos h, if_pos h, hi', add_comm]
    ring_nf
  · have hi' : i % g.half = i - g.half := by
      rw [Nat.mod_eq_sub_mod (by omega), Nat.mod_eq_of_lt (by omega)]
    rw [if_neg h, if_neg h, if_neg h, hi']
    ring

end

/-! ## One task -/

section

variable {V : Type} {g : Geometry}

abbrev Series (V : Type) (g : Geometry) : Type := PingPong g.R (Fin g.d → V)

structure Represents (g : Geometry) (mem : Memory V) (t : ℕ) (s : Series V g) : Prop where
  slot : mem.state (t * 2) = (s.slot : ℕ)
  len : mem.state (t * 2 + 1) = (s.len : ℕ)
  cell : ∀ (slot : Fin 2) (c : Fin g.R) (i : Fin g.d), mem.pool (g.at t (slot : ℕ) (c : ℕ) (i : ℕ)) = s.cell slot c i

def Refines (g : Geometry) (mem : Memory V) (f : ℕ → Series V g) : Prop := ∀ t < g.tasks, Represents g mem t (f t)

variable {mem : Memory V} {t : ℕ} {s : Series V g}

lemma at_inj {t slot c i t' slot' c' i' : ℕ} (hslot : slot < 2) (hc : c < g.R) (hi : i < g.d)
    (hslot' : slot' < 2) (hc' : c' < g.R) (hi' : i' < g.d) (h : g.at t slot c i = g.at t' slot' c' i') :
    t = t' ∧ slot = slot' ∧ c = c' ∧ i = i' := by
  rw [g.at_eq, g.at_eq] at h
  exact Geometry.place_inj hslot hc hi hslot' hc' hi' (Int.ofNat_inj.mp h)

/-- The stores of a new entry leave the cells as `PingPong.put` has them. -/
lemma pool_put (h : Represents g mem t s) (v : ℕ → V) (slot : Fin 2) (c : Fin g.R) (i : Fin g.d) :
    assign (entryStores (fun i => g.at t (s.slot : ℕ) (s.len : ℕ) i) g.d v) mem.pool (g.at t (slot : ℕ) (c : ℕ) (i : ℕ)) =
      s.put (fun i => v i) slot c i := by
  by_cases hhere : slot = s.slot ∧ c = s.len
  · obtain ⟨rfl, rfl⟩ := hhere
    rw [PingPong.put_here]
    refine entryStores_at (fun i => g.at t (s.slot : ℕ) (s.len : ℕ) i) (fun j hj k hk heq => ?_) i.isLt mem.pool
    exact (at_inj s.slot.isLt s.len.isLt hj s.slot.isLt s.len.isLt hk heq).2.2.2
  · rw [entryStores_ne, h.cell]
    · by_cases hslot : slot = s.slot
      · have hc : c ≠ s.len := fun hc => hhere ⟨hslot, hc⟩
        rw [PingPong.put, hslot, update_self, update_of_ne hc]
      · rw [PingPong.put, update_of_ne hslot]
    · intro j hj heq
      obtain ⟨-, hslot, hc, -⟩ := at_inj s.slot.isLt s.len.isLt hj slot.isLt c.isLt i.isLt heq
      exact hhere ⟨Fin.ext hslot.symm, Fin.ext hc.symm⟩

lemma pool_other {t' : ℕ} (hne : t' ≠ t) (v : ℕ → V) (slot : Fin 2) (c : Fin g.R) (i : Fin g.d) :
    assign (entryStores (fun i => g.at t (s.slot : ℕ) (s.len : ℕ) i) g.d v) mem.pool
      (g.at t' (slot : ℕ) (c : ℕ) (i : ℕ)) = mem.pool (g.at t' (slot : ℕ) (c : ℕ) (i : ℕ)) := by
  apply entryStores_ne
  intro j hj heq
  exact hne (at_inj s.slot.isLt s.len.isLt hj slot.isLt c.isLt i.isLt heq).1.symm

/-- The state and the pool after a boundary task. -/
structure Appends (g : Geometry) (mem mem' : Memory V) (t : ℕ) (s : Series V g) (v : ℕ → V) : Prop where
  pool : mem'.pool = assign (entryStores (fun i => g.at t (s.slot : ℕ) (s.len : ℕ) i) g.d v) mem.pool
  slot : mem'.state (t * 2) = if s.len + 1 = g.R then 1 - (s.slot : ℤ) else s.slot
  len : mem'.state (t * 2 + 1) = if s.len + 1 = g.R then 0 else (s.len : ℤ) + 1
  state : ∀ a : ℤ, a ≠ t * 2 → a ≠ t * 2 + 1 → mem'.state a = mem.state a

lemma sub_slot : ∀ slot : Fin 2, ((1 - slot : Fin 2) : ℕ) = 1 - (slot : ℤ) := by decide

section

variable {mem' : Memory V} {v : ℕ → V} (happ : Appends g mem mem' t s v)
include happ

lemma Appends.represents (h : Represents g mem t s) : Represents g mem' t (s.push fun i => v i) := by
  by_cases hroom : s.len + 1 < g.R
  · have hne : ¬(s.len : ℕ) + 1 = g.R := by omega
    rw [PingPong.push, dif_pos hroom]
    refine ⟨?_, ?_, fun slot c i => ?_⟩
    · rw [happ.slot, if_neg hne]
    · rw [happ.len, if_neg hne]
      rfl
    · rw [happ.pool]
      exact pool_put h v slot c i
  · have heq : (s.len : ℕ) + 1 = g.R := by omega
    rw [PingPong.push, dif_neg hroom]
    refine ⟨?_, ?_, fun slot c i => ?_⟩
    · rw [happ.slot, if_pos heq]
      exact (sub_slot s.slot).symm
    · rw [happ.len, if_pos heq]
      rfl
    · rw [happ.pool]
      exact pool_put h v slot c i

lemma Appends.other {t' : ℕ} {s' : Series V g} (hne : t' ≠ t) (h : Represents g mem t' s') :
    Represents g mem' t' s' := by
  refine ⟨?_, ?_, fun slot c i => ?_⟩
  · rw [happ.state _ (by omega) (by omega)]
    exact h.slot
  · rw [happ.state _ (by omega) (by omega)]
    exact h.len
  · rw [happ.pool, pool_other hne]
    exact h.cell slot c i

end

variable [Field V] [LinearOrder V] (ops : Numerics V) (g) (form : PositionForm) (x : Inputs V)

def step (t : ℕ) (s : Series V g) : Series V g :=
  if AtBoundary g form x (t / g.layers) then s.push fun i => emitted ops g x (t / g.layers) i else s

/-- A body that takes every task as `step` does. -/
def Steps (body : ℕ → Memory V → Option (Memory V)) : Prop :=
  ∀ t < g.tasks, ∀ (mem : Memory V) (f : ℕ → Series V g), Refines g mem f →
    ∃ mem', body t mem = some mem' ∧ Refines g mem' (update f t (step g ops form x t (f t)))

variable {ops g form x}

variable {f : ℕ → Series V g} {body : ℕ → Memory V → Option (Memory V)}

lemma refines_append {mem mem' : Memory V} (h : Refines g mem f) (hbound : AtBoundary g form x (t / g.layers))
    (ht : t < g.tasks) (happ : Appends g mem mem' t (f t) (emitted ops g x (t / g.layers))) :
    Refines g mem' (update f t (step g ops form x t (f t))) := by
  intro u hu
  by_cases hut : u = t
  · subst hut
    rw [update_self, step, if_pos hbound]
    exact happ.represents (h u hu)
  · rw [update_of_ne hut]
    exact happ.other hut (h u hu)

lemma update_step_self (hbound : ¬AtBoundary g form x (t / g.layers)) :
    update f t (step g ops form x t (f t)) = f := by
  rw [step, if_neg hbound, Function.update_eq_self]

lemma reference_step : Steps g ops form x (referenceBody ops g form x) := by
  intro t ht mem f h
  have hs := h t ht
  have hcoords := Geometry.coords_domain ht
  by_cases hbound : AtBoundary g form x (t / g.layers)
  · have haxis : axisIndex 2 (mem.state (t * 2)) = some (((f t).slot : ℕ) : ℤ) := by
      rw [hs.slot]
      exact axisIndex_of_lt (f t).slot.isLt
    have haxis' : axisIndex g.R (mem.state (t * 2 + 1)) = some (((f t).len : ℕ) : ℤ) := by
      rw [hs.len]
      exact axisIndex_of_lt (f t).len.isLt
    have hfull : mem.state (t * 2 + 1) + 1 = g.R ↔ ((f t).len : ℕ) + 1 = g.R := by
      rw [hs.len]
      omega
    simp only [referenceBody, hcoords, Geometry.task_of_row, hbound, not_true, if_false, haxis, haxis',
      Option.bind_eq_bind, Option.bind_some, hfull]
    by_cases hlast : ((f t).len : ℕ) + 1 = g.R
    · rw [if_pos hlast]
      refine ⟨_, rfl, refines_append h hbound ht ⟨rfl, ?_, ?_, fun a ha ha' => ?_⟩⟩
      · rw [if_pos hlast, ← hs.slot]
        simp [assign]
      · rw [if_pos hlast]
        simp [assign]
      · simp [assign, ha, ha']
    · rw [if_neg hlast]
      refine ⟨_, rfl, refines_append h hbound ht ⟨rfl, ?_, ?_, fun a ha ha' => ?_⟩⟩
      · rw [if_neg hlast, ← hs.slot]
        simp [assign]
      · rw [if_neg hlast, ← hs.len]
        simp [assign]
      · simp [assign, ha']
  · refine ⟨mem, ?_, ?_⟩
    · simp [referenceBody, hcoords, hbound]
    · rwa [update_step_self hbound]

omit [Field V] [LinearOrder V] in
/-- Of a position that is not negative both bodies ask the same. -/
lemma boundary_eq {b : ℕ} (hpos : 0 ≤ rowPosValue form x b) :
    boundary g form x b = decide (AtBoundary g form x b) := by
  unfold boundary
  rw [Int.tmod_eq_emod_of_nonneg hpos]
  exact decide_eq_decide.mpr Iff.rfl

lemma device_idle {t : ℕ} (hpos : 0 ≤ rowPosValue form x (t / g.layers : ℕ))
    (hbound : ¬AtBoundary g form x (t / g.layers)) (mem : Memory V) : deviceBody ops g form x t mem = mem := by
  have hmask : boundary g form x ((t / g.layers : ℕ) : ℤ) = false := by
    rw [boundary_eq hpos]
    exact decide_eq_false hbound
  simp only [deviceBody, hmask, maskedStores, assign, Bool.false_eq_true, if_false]

lemma device_step (hfits : g.Fits) (hpos : ∀ b < g.rows, 0 ≤ rowPosValue form x (b : ℕ)) :
    Steps g ops form x fun t mem => some (deviceBody ops g form x t mem) := by
  intro t ht mem f h
  have hs := h t ht
  have hrow := Geometry.row_lt ht
  refine ⟨_, rfl, ?_⟩
  by_cases hbound : AtBoundary g form x (t / g.layers)
  · have hstate : t * 2 + 1 < 2 ^ 31 := by
      have h1 : t * 2 + 1 < g.tasks * 2 := Blocks.block_lt ht one_lt_two
      exact lt_of_lt_of_le h1 hfits.state
    have hload (k : ℕ) (hk : k ≤ 1) : maskedLoad true mem.state (t * 2 + k) 0 = mem.state (t * 2 + k) :=
      maskedLoad_at (n := t * 2 + k) (by push_cast; ring) (by omega) 0
    have hslot : maskedLoad true mem.state (t * 2) 0 = ((f t).slot : ℕ) := by
      have := hload 0 (by omega)
      rw [Nat.cast_zero, add_zero] at this
      rw [this, hs.slot]
    have hlen : maskedLoad true mem.state (t * 2 + 1) 0 = ((f t).len : ℕ) := by
      have := hload 1 (by omega)
      rw [Nat.cast_one] at this
      rw [this, hs.len]
    have haddr : ∀ i < g.d, int32 (g.at t ((f t).slot : ℕ) ((f t).len : ℕ) i) =
        g.at t ((f t).slot : ℕ) ((f t).len : ℕ) i := by
      intro i hi
      rw [g.at_eq]
      exact int32_natCast (lt_of_lt_of_le (Geometry.place_lt ht (f t).slot.isLt (f t).len.isLt hi) hfits.pool)
    have hvalues : entryStores (fun i => g.at t ((f t).slot : ℕ) ((f t).len : ℕ) i) g.d
        (fun i => ops.astype (eRot ops g x true (t / g.layers : ℕ) i)) =
          entryStores (fun i => g.at t ((f t).slot : ℕ) ((f t).len : ℕ) i) g.d (emitted ops g x (t / g.layers)) := by
      refine List.map_congr_left fun i hi => ?_
      simp only [eRot_eq ops x hfits hrow (List.mem_range.mp hi), emitted]
    have hfull : ((f t).len : ℤ) + 1 = g.R ↔ ((f t).len : ℕ) + 1 = g.R := by omega
    have hint : int32 ((t : ℤ) * 2) = t * 2 := int32_of_lt (by omega) (by omega)
    have hint' : int32 ((t : ℤ) * 2 + 1) = t * 2 + 1 := int32_of_lt (by omega) (by omega)
    apply refines_append h hbound ht
    have hmask : boundary g form x ((t / g.layers : ℕ) : ℤ) = true := by
      rw [boundary_eq (hpos _ hrow)]
      exact decide_eq_true hbound
    simp only [deviceBody, Geometry.task_of_row, hmask, hslot, hlen]
    refine ⟨?_, ?_, ?_, fun a ha ha' => ?_⟩
    · rw [hvalues, maskedStores_entry haddr]
    · simp [maskedStores, assign, hint, hint', hfull]
    · simp [maskedStores, assign, hint', hfull]
    · simp [maskedStores, assign, hint, hint', ha, ha']
  · rw [device_idle (hpos _ hrow) hbound, update_step_self hbound]
    exact h

/-- **The tasks of a step**, in any order. -/
theorem fold_refines (hbody : Steps g ops form x body) {order : List ℕ}
    (hnodup : order.Nodup) (hlt : ∀ t ∈ order, t < g.tasks) {mem : Memory V} (h : Refines g mem f) :
    ∃ mem', order.foldlM (fun mem t => body t mem) mem = some mem' ∧
      Refines g mem' fun t => if t ∈ order then step g ops form x t (f t) else f t := by
  induction order generalizing mem f with
  | nil =>
    refine ⟨mem, rfl, ?_⟩
    simpa using h
  | cons t order ih =>
    obtain ⟨hnew, hnodup⟩ := List.nodup_cons.mp hnodup
    obtain ⟨_, hmem₁, h₁⟩ := hbody t (hlt t List.mem_cons_self) mem f h
    obtain ⟨mem₂, hmem₂, h₂⟩ := ih hnodup (fun u hu => hlt u (List.mem_cons_of_mem t hu)) h₁
    refine ⟨mem₂, ?_, fun u hu => ?_⟩
    · rw [List.foldlM_cons, hmem₁]
      exact hmem₂
    · have hrep := h₂ u hu
      by_cases hut : u = t
      · subst hut
        simpa [hnew] using hrep
      · simpa [hut] using hrep

lemma order_refines (hbody : Steps g ops form x body) {order : List ℕ}
    (hperm : order.Perm (List.range g.tasks)) {mem : Memory V} (h : Refines g mem f) :
    ∃ mem', order.foldlM (fun mem t => body t mem) mem = some mem' ∧
      Refines g mem' fun t => step g ops form x t (f t) := by
  obtain ⟨mem', hmem', h'⟩ := fold_refines hbody (hperm.nodup_iff.mpr List.nodup_range)
    (fun t ht => List.mem_range.mp (hperm.mem_iff.mp ht)) h
  refine ⟨mem', hmem', fun t ht => ?_⟩
  have hrep := h' t ht
  have hmem : t ∈ order := hperm.mem_iff.mpr (List.mem_range.mpr ht)
  simpa only [hmem, if_true] using hrep

end

/-! ## Runs -/

section

variable {V : Type} [Field V] [LinearOrder V] (ops : Numerics V) (g : Geometry) (form : PositionForm)
  (inputs : ℕ → Inputs V)

/-- The series of every task after `n` steps. -/
def series (first : ℕ → Series V g) : ℕ → ℕ → Series V g
  | 0 => first
  | n + 1 => fun t => step g ops form (inputs n) t (series first n t)

/-- The entries that row `b` emits in the first `n` steps, in order. -/
def emissions (b n : ℕ) : List (Fin g.d → V) :=
  (List.range n).filterMap fun k =>
    if AtBoundary g form (inputs k) b then some fun i => emitted ops g (inputs k) b i else none

lemma emissions_succ (b n : ℕ) : emissions ops g form inputs b (n + 1) = if AtBoundary g form (inputs n) b then
      emissions ops g form inputs b n ++ [fun i : Fin g.d => emitted ops g (inputs n) b i]
    else emissions ops g form inputs b n := by
  unfold emissions
  rw [List.range_succ, List.filterMap_append]
  split <;> simp [*]

variable {first : ℕ → Series V g}

/-- **The series hold what was emitted.** -/
theorem series_holds {t : ℕ} (h : ((first t).len : ℕ) = 0) (n : ℕ) :
    (series ops g form inputs first n t).Holds (emissions ops g form inputs (t / g.layers) n) := by
  induction n with
  | zero => exact PingPong.Holds.nil h
  | succ n ih =>
    rw [emissions_succ]
    show (step g ops form (inputs n) t (series ops g form inputs first n t)).Holds _
    unfold step
    split
    · exact ih.push _
    · exact ih

variable {ops g form inputs}

/-- **Decode steps** of a body that takes every task as it should. -/
theorem run_refines (body : Inputs V → ℕ → Memory V → Option (Memory V)) {orders : ℕ → List ℕ}
    (hbody : ∀ k, Steps g ops form (inputs k) (body (inputs k)))
    (horders : ∀ k, (orders k).Perm (List.range g.tasks)) {start : Memory V} (hstart : Refines g start first) (n : ℕ) :
    ∃ mem, run body inputs orders start n = some mem ∧ Refines g mem (series ops g form inputs first n) := by
  induction n with
  | zero => exact ⟨start, rfl, hstart⟩
  | succ n ih =>
    obtain ⟨_, hmem, h⟩ := ih
    obtain ⟨mem', hmem', h'⟩ := order_refines (hbody n) (horders n) h
    refine ⟨mem', ?_, h'⟩
    rw [run, hmem]
    exact hmem'

/-! ## What the memory shows -/

section

variable (mem mem' : Memory V) (b l : ℕ)

def activeSlot (g : Geometry) : ℤ := mem.state ((b * g.layers + l) * 2)

def cbLen (g : Geometry) : ℤ := mem.state ((b * g.layers + l) * 2 + 1)

/-- `pool[b, l, slot, c, :]`. -/
def poolEntry (g : Geometry) (slot : ℤ) (c : ℕ) : Fin g.d → V := fun i => mem.pool (g.at (b * g.layers + l) slot c (i : ℕ))

/-- The invariant of a row and layer. -/
structure Kept (g : Geometry) (log : List (Fin g.d → V)) : Prop where
  slot : activeSlot mem b l g = 0 ∨ activeSlot mem b l g = 1
  len_nonneg : 0 ≤ cbLen mem b l g
  len_lt : cbLen mem b l g < g.R
  count : ((PingPong.sinceCompleted g.R log).length : ℤ) = cbLen mem b l g
  current : ∀ c : ℕ, (c : ℤ) < cbLen mem b l g →
    (PingPong.sinceCompleted g.R log)[c]? = some (poolEntry mem b l g (activeSlot mem b l g) c)
  last : g.R ≤ log.length → ∀ c < g.R,
    (PingPong.lastCompleted g.R log)[c]? = some (poolEntry mem b l g (1 - activeSlot mem b l g) c)

/-- A row and layer are the same in two memories. -/
structure SameSlab (g : Geometry) : Prop where
  slot : activeSlot mem b l g = activeSlot mem' b l g
  len : cbLen mem b l g = cbLen mem' b l g
  entry : ∀ slot < 2, ∀ c < g.R, poolEntry mem b l g (slot : ℕ) c = poolEntry mem' b l g (slot : ℕ) c

variable {mem mem' b l}

omit [Field V] [LinearOrder V] in
lemma kept_of_holds {s : Series V g} {log : List (Fin g.d → V)} (h : Represents g mem (b * g.layers + l) s)
    (hlog : s.Holds log) : Kept mem b l g log := by
  have hslot : activeSlot mem b l g = (s.slot : ℕ) := by
    rw [← h.slot]
    simp [activeSlot]
  have hlen : cbLen mem b l g = (s.len : ℕ) := by
    rw [← h.len]
    simp [cbLen]
  have hentry (slot : Fin 2) (c : Fin g.R) : poolEntry mem b l g (slot : ℕ) (c : ℕ) = s.cell slot c := by
    funext i
    rw [← h.cell]
    simp [poolEntry]
  refine ⟨?_, ?_, ?_, ?_, fun c hc => ?_, fun hfull c hc => ?_⟩
  · omega
  · omega
  · omega
  · rw [PingPong.length_sinceCompleted, hlen, hlog.len]
  · have hc' : c < s.len := by omega
    rw [hslot, hentry s.slot ⟨c, hc'.trans s.len.isLt⟩]
    exact hlog.current ⟨c, hc'.trans s.len.isLt⟩ hc'
  · rw [hslot, ← sub_slot, hentry _ ⟨c, hc⟩]
    exact hlog.last hfull ⟨c, hc⟩

omit [Field V] [LinearOrder V] in
lemma sameSlab_of_represents {s : Series V g} (h : Represents g mem (b * g.layers + l) s)
    (h' : Represents g mem' (b * g.layers + l) s) : SameSlab mem mem' b l g := by
  refine ⟨?_, ?_, fun slot hslot c hc => ?_⟩
  · have := h.slot.trans h'.slot.symm
    simpa [activeSlot] using this
  · have := h.len.trans h'.len.symm
    simpa [cbLen] using this
  · funext i
    have := (h.cell ⟨slot, hslot⟩ ⟨c, hc⟩ i).trans (h'.cell ⟨slot, hslot⟩ ⟨c, hc⟩ i).symm
    simpa [poolEntry] using this

end

variable (ops g form inputs)

/-- Every row's position starts at zero and advances by one. -/
def Advances : Prop :=
  ∀ b < g.rows, rowPosValue form (inputs 0) (b : ℕ) = 0 ∧
    ∀ k, rowPosValue form (inputs (k + 1)) (b : ℕ) = rowPosValue form (inputs k) (b : ℕ) + 1

def referenceRun (orders : ℕ → List ℕ) (start : Memory V) (n : ℕ) : Option (Memory V) :=
  run (referenceBody ops g form) inputs orders start n

def deviceRun (orders : ℕ → List ℕ) (start : Memory V) (n : ℕ) : Option (Memory V) :=
  run (fun x t mem => some (deviceBody ops g form x t mem)) inputs orders start n

/-- After `n` steps both bodies keep every row and layer, have the same there, and go on so. -/
def CorrectAfter (refOrders devOrders : ℕ → List ℕ) (start : Memory V) (n : ℕ) : Prop :=
  ∃ ref dev ref' dev', referenceRun ops g form inputs refOrders start n = some ref ∧
    deviceRun ops g form inputs devOrders start n = some dev ∧
    referenceRun ops g form inputs refOrders start (n + 1) = some ref' ∧
    deviceRun ops g form inputs devOrders start (n + 1) = some dev' ∧
    ∀ b < g.rows, ∀ l < g.layers,
      Kept ref b l g (emissions ops g form inputs b n) ∧ Kept dev b l g (emissions ops g form inputs b n) ∧
        SameSlab ref dev b l g ∧
          (¬AtBoundary g form (inputs n) b → SameSlab ref ref' b l g ∧ SameSlab dev dev' b l g)

variable {ops g form inputs}

omit [Field V] [LinearOrder V] in
lemma Advances.nonneg (h : Advances g form inputs) {b : ℕ} (hb : b < g.rows) (k : ℕ) :
    0 ≤ rowPosValue form (inputs k) (b : ℕ) := by
  obtain ⟨hzero, hsucc⟩ := h b hb
  induction k with
  | zero => rw [hzero]
  | succ k ih =>
    rw [hsucc k]
    omega

def firstSeries (g : Geometry) (start : Memory V) (t : ℕ) : Series V g :=
  ⟨⟨0, Nat.two_pos⟩, ⟨0, g.R_pos⟩, fun slot c i => start.pool (g.at t (slot : ℕ) (c : ℕ) (i : ℕ))⟩

omit [Field V] [LinearOrder V] in
lemma start_refines {start : Memory V} (hstart : ∀ a : ℕ, a < g.tasks * 2 → start.state a = 0) :
    Refines g start (firstSeries g start) := by
  intro t ht
  refine ⟨?_, ?_, fun slot c i => rfl⟩
  · exact_mod_cast hstart (t * 2) (by omega)
  · exact_mod_cast hstart _ (by omega)

/-- **Decode runs** of a call whose offsets fit. -/
theorem runs_correct (hfits : g.Fits) (hpos : Advances g form inputs) {refOrders devOrders : ℕ → List ℕ}
    (hrefOrders : ∀ k, (refOrders k).Perm (List.range g.tasks))
    (hdevOrders : ∀ k, (devOrders k).Perm (List.range g.tasks)) {start : Memory V}
    (hstart : ∀ a : ℕ, a < g.tasks * 2 → start.state a = 0) (n : ℕ) :
    CorrectAfter ops g form inputs refOrders devOrders start n := by
  have hfirst := start_refines hstart
  have hreference (k : ℕ) : Steps g ops form (inputs k) (referenceBody ops g form (inputs k)) := reference_step
  have hdevice (k : ℕ) : Steps g ops form (inputs k) fun t mem => some (deviceBody ops g form (inputs k) t mem) :=
    device_step hfits fun b hb => hpos.nonneg hb k
  have hreferences := run_refines (referenceBody ops g form) hreference hrefOrders hfirst
  have hdevices := run_refines (fun x t mem => some (deviceBody ops g form x t mem)) hdevice hdevOrders hfirst
  obtain ⟨ref, href, href_refines⟩ := hreferences n
  obtain ⟨ref', href', href'_refines⟩ := hreferences (n + 1)
  obtain ⟨dev, hdev, hdev_refines⟩ := hdevices n
  obtain ⟨dev', hdev', hdev'_refines⟩ := hdevices (n + 1)
  refine ⟨ref, dev, ref', dev', href, hdev, href', hdev', fun b hb l hl => ?_⟩
  have ht := Geometry.task_lt hb hl
  have hlog := series_holds ops g form inputs (rfl : ((firstSeries g start (b * g.layers + l)).len : ℕ) = 0) n
  rw [Geometry.row_of_task hl] at hlog
  have hr := href_refines _ ht
  have hd := hdev_refines _ ht
  refine ⟨?_, ?_, ?_, fun hidle => ?_⟩
  · exact kept_of_holds (by exact_mod_cast hr) hlog
  · exact kept_of_holds (by exact_mod_cast hd) hlog
  · exact sameSlab_of_represents (by exact_mod_cast hr) (by exact_mod_cast hd)
  · have hsame : series ops g form inputs (firstSeries g start) (n + 1) (b * g.layers + l) =
        series ops g form inputs (firstSeries g start) n (b * g.layers + l) := by
      show step g ops form (inputs n) _ _ = _
      rw [step, Geometry.row_of_task hl, if_neg hidle]
    have hr' := href'_refines _ ht
    have hd' := hdev'_refines _ ht
    rw [hsame] at hr' hd'
    exact ⟨sameSlab_of_represents hr hr', sameSlab_of_represents hd hd'⟩

end

/-! ## Two calls -/

section

/-- Numbers for which every step of the emission is exact. -/
def unitNumerics : Numerics ℚ := ⟨fun _ => 1, id, id, 0⟩

/-- Windows of ones at the position `k`. -/
def unitInputs (k : ℕ) : Inputs ℚ := ⟨fun _ => 1, fun _ => 0, fun _ => 1, fun _ => 1, fun _ => 0, fun _ => k, k⟩

def zeroMemory : Memory ℚ := ⟨fun _ => 0, fun _ => 0⟩

lemma unitInputs_advances (g : Geometry) : Advances g .row unitInputs :=
  fun b hb => ⟨rfl, fun k => by simp [rowPosValue, unitInputs]⟩

lemma small_m_pos : 0 < 2 := by decide

lemma small_r_pos : 0 < 4 := by decide

lemma small_m_dvd : 2 ∣ 4 := by decide

/-- Two tokens an entry, two entries a series. -/
def small : Geometry := ⟨1, 1, 2, 4, 1, small_m_pos, small_r_pos, small_m_dvd⟩

theorem runs_correct_small :
    CorrectAfter unitNumerics small .row unitInputs (fun _ => [0]) (fun _ => [0]) zeroMemory 9 :=
  runs_correct (by decide) (unitInputs_advances small) (fun _ => by decide) (fun _ => by decide) (fun _ _ => rfl) 9

lemma wide_m_pos : 0 < 1 := by decide

lemma wide_r_pos : 0 < 4096 := by decide

lemma wide_m_dvd : 1 ∣ 4096 := by decide

/-- 64 rows of 33 layers, with series of 4096 entries of width 128. -/
def wide : Geometry := ⟨64, 33, 1, 4096, 64, wide_m_pos, wide_r_pos, wide_m_dvd⟩

variable {V : Type} {a : ℤ}

/-- No offset of a device store is `2 ^ 31` or more. -/
lemma deviceBody_high [Field V] [LinearOrder V] (ops : Numerics V) (g : Geometry) (form : PositionForm)
    (x : Inputs V) (task : ℕ) (mem : Memory V) (ha : 2 ^ 31 ≤ a) :
    (deviceBody ops g form x task mem).pool a = mem.pool a := by
  apply assign_frame
  intro hmem
  obtain ⟨_, hst, heq⟩ := List.mem_map.mp hmem
  unfold maskedStores at hst
  split at hst
  · obtain ⟨st', -, rfl⟩ := List.mem_map.mp hst
    have hlt := int32_lt st'.1
    omega
  · cases hst

lemma order_high [Field V] [LinearOrder V] {ops : Numerics V} {g : Geometry} {form : PositionForm}
    {x : Inputs V} (ha : 2 ^ 31 ≤ a) {order : List ℕ} {mem dev : Memory V}
    (h : order.foldlM (fun mem t => some (deviceBody ops g form x t mem)) mem = some dev) : dev.pool a = mem.pool a := by
  induction order generalizing mem with
  | nil =>
    cases h
    rfl
  | cons t order ih =>
    rw [ih h]
    exact deviceBody_high ops g form x t mem ha

lemma deviceRun_high [Field V] [LinearOrder V] {ops : Numerics V} {g : Geometry} {form : PositionForm}
    {inputs : ℕ → Inputs V} {orders : ℕ → List ℕ} {start : Memory V} (ha : 2 ^ 31 ≤ a) (n : ℕ) {dev : Memory V}
    (h : deviceRun ops g form inputs orders start n = some dev) : dev.pool a = start.pool a := by
  induction n generalizing dev with
  | zero => rw [Option.some.inj h]
  | succ n ih =>
    obtain ⟨_, hmem, h⟩ := Option.bind_eq_some_iff.mp h
    rw [order_high ha h, ih hmem]

lemma emitted_unit (b : ℕ) (k : ℕ) : emitted unitNumerics wide (unitInputs k) b 0 = 1 := by
  have hd : wide.d = 128 := rfl
  have hm : wide.m = 1 := rfl
  have hfolded (i : ℕ) : folded unitNumerics wide (unitInputs k) b i = 1 := by
    simp [folded, weight, ex, unitNumerics, unitInputs, hm]
  have hnormed (i : ℕ) : normed unitNumerics wide (unitInputs k) b i = 1 := by
    unfold normed
    simp only [hfolded]
    simp [hd, unitNumerics, unitInputs]
  unfold emitted rotated
  simp only [hnormed]
  simp [hd, unitNumerics, unitInputs]

/-- **A pool of more than `2 ^ 31` elements**: in row 62 of layer 2 the device's entry never reaches its place. -/
theorem late_row_never_stored : Advances wide .row unitInputs ∧
      ¬CorrectAfter unitNumerics wide .row unitInputs (fun _ => List.range wide.tasks) (fun _ => List.range wide.tasks)
        zeroMemory 1 := by
  refine ⟨unitInputs_advances wide, ?_⟩
  rintro ⟨_, dev, _, _, _, hdev, _, _, hkept⟩
  obtain ⟨-, hkept, -⟩ := hkept 62 (by decide) 2 (by decide)
  have hlog : emissions unitNumerics wide .row unitInputs 62 1 =
      [fun i : Fin wide.d => emitted unitNumerics wide (unitInputs 0) 62 i] := by
    have hbound : AtBoundary wide .row (unitInputs 0) 62 := by decide
    rfl
  have hR : wide.R = 4096 := rfl
  have hcount := hkept.count
  have hcurrent := hkept.current 0
  have hone : cbLen dev 62 2 wide = 1 := by
    rw [← hcount, PingPong.length_sinceCompleted]
    rfl
  have hentry := hcurrent (by rw [hone]; decide)
  have hvalue : poolEntry dev 62 2 wide (activeSlot dev 62 2 wide) 0 ⟨0, by decide⟩ = 1 := by
    have h : some (fun i : Fin wide.d => emitted unitNumerics wide (unitInputs 0) 62 i) =
        some (poolEntry dev 62 2 wide (activeSlot dev 62 2 wide) 0) := hentry
    rw [← Option.some.inj h]
    exact emitted_unit 62 0
  have hplace : 2 ^ 31 ≤ wide.at ((62 : ℕ) * wide.layers + (2 : ℕ)) (activeSlot dev 62 2 wide) (0 : ℕ) (0 : ℕ) := by
    have hd : (wide.d : ℤ) = 128 := rfl
    have hlayers : (wide.layers : ℤ) = 33 := rfl
    have hR : (wide.R : ℤ) = 4096 := rfl
    rw [Geometry.at, hd, hlayers, hR]
    rcases hkept.slot with h | h <;> rw [h] <;> norm_num
  have hnever := deviceRun_high hplace 1 hdev
  have hzero : (1 : ℚ) = 0 := hvalue.symm.trans hnever
  exact one_ne_zero hzero

end

end VKernels.CompressorAppend
