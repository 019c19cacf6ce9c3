import VKernels.Lib.Blocks
import VKernels.Lib.Grouping
import VKernels.Lib.MaskedStores

/-!
# Launches by lane

A grid of programs whose lanes load from buffers and store to one, each lane under a mask and at an offset in 32-bit
arithmetic.  A load or store that leaves its buffer has no result.

* `Lane`, `Buffer`, `load` — one lane's access.

## Results

* `launch_grid` — a grid that stores every row once leaves every row.
* `launch_inside` — a launch with a result has stored inside its buffer.
-/

namespace VKernels.LaneLaunch

open Grouping MaskedStores
open LocalActions (assign)
open Blocks (range_blocks)
open List

variable {α V : Type}

/-! ## Offsets -/

/-- 32-bit arithmetic. -/
def int32 (x : ℤ) : ℤ := x.bmod (2 ^ 32)

lemma int32_of_lt {x : ℤ} (h0 : 0 ≤ x) (h : x < 2 ^ 31) : int32 x = x := by
  exact Int.bmod_eq_of_le (by norm_num; omega) (by norm_num; omega)

variable {n : ℕ} {l : List α}

lemma int32_natCast (h : n < 2 ^ 31) : int32 n = n := int32_of_lt (Int.natCast_nonneg n) (by omega)

lemma int32_lt (x : ℤ) : int32 x < 2 ^ 31 := by
  have h := Int.bmod_lt (x := x) (m := 2 ^ 32) (by norm_num)
  exact h

/-- Just above the bound an offset is negative. -/
lemma int32_neg {x : ℤ} (h : 2 ^ 31 ≤ x) (hhi : x < 2 ^ 32) : int32 x < 0 := by
  have hwrap : int32 x = x - 2 ^ 32 := by
    rw [int32, Int.bmod_eq_iff (by norm_num)]
    refine ⟨by norm_num; omega, by norm_num; omega, ?_⟩
    norm_num
  omega

/-- The 32-bit products of the numbers below `n` with `c` do not wrap. -/
def Reaches (n c : ℕ) : Prop := ∀ s < n, s * c < 2 ^ 31

instance (n c : ℕ) : Decidable (Reaches n c) := inferInstanceAs (Decidable (∀ s < n, s * c < 2 ^ 31))

section

variable {n c : ℕ}

lemma Reaches.int32_mul (hreach : Reaches n c) {s : ℤ} (hs : 0 ≤ s ∧ s < n) : int32 (s * c) = s * c := by
  obtain ⟨s, rfl⟩ := Int.eq_ofNat_of_zero_le hs.1
  have hlt := hreach s (by omega)
  exact int32_of_lt (by positivity) (by exact_mod_cast hlt)

/-- Products that stay non-negative in 32 bits do not wrap. -/
lemma reaches_of_nonneg (hc : c < 2 ^ 31) (h : ∀ s < n, 0 ≤ int32 ((s : ℤ) * c)) : Reaches n c := by
  intro s hs
  by_contra hge
  have hexists : ∃ s, 2 ^ 31 ≤ s * c := ⟨s, Nat.not_lt.mp hge⟩
  classical
  have hfirst := Nat.find_spec hexists
  have hfind := Nat.find_min' hexists (Nat.not_lt.mp hge)
  obtain ⟨r, hr⟩ : ∃ r, Nat.find hexists = r + 1 := by
    refine ⟨Nat.find hexists - 1, ?_⟩
    have hpos : Nat.find hexists ≠ 0 := fun hzero => by
      rw [hzero, Nat.zero_mul] at hfirst
      exact absurd hfirst (by decide)
    omega
  have hmin := Nat.find_min hexists (show r < Nat.find hexists by omega)
  rw [hr] at hfirst hfind
  have hsplit := add_one_mul r c
  have hneg := int32_neg (x := ((r + 1 : ℕ) : ℤ) * c) (by exact_mod_cast hfirst)
    (by exact_mod_cast (show (r + 1) * c < 2 ^ 32 by omega))
  have hnonneg := h (r + 1) (by omega)
  omega

end

/-- `triton.next_power_of_2`. -/
def nextPowerOf2 (n : ℕ) : ℕ := if n = 0 then 0 else 2 ^ Nat.clog 2 n

lemma le_nextPowerOf2 (n : ℕ) : n ≤ nextPowerOf2 n := by
  unfold nextPowerOf2
  split
  · omega
  · exact Nat.le_pow_clog one_lt_two n

lemma nextPowerOf2_two_pow (p : ℕ) : nextPowerOf2 (2 ^ p) = 2 ^ p := by
  rw [nextPowerOf2, if_neg (by positivity), Nat.clog_pow 2 p one_lt_two]

/-! ## Compile checks -/

/-- `tl.arange(0, n)`. -/
def arange (n : ℕ) : Except String Unit :=
  if n = 2 ^ Nat.log2 n then .ok () else .error "arange's range must be a power of 2"

/-- A tile of more than one dimension. -/
def tile (m n : ℕ) : Except String Unit :=
  if m * n ≤ 1048576 then .ok () else .error "numel exceeds triton maximum tensor numel (1048576)"

/-- The inner and outer sizes of `tl.dot`. -/
def dot (m n k : ℕ) : Except String Unit :=
  if 16 ≤ m ∧ 16 ≤ n ∧ 16 ≤ k then .ok () else .error "Input shapes should have M >= 16, N >= 16 and K >= 16"

lemma arange_ok (h : ∃ i, n = 2 ^ i) : arange n = .ok () := by
  obtain ⟨i, rfl⟩ := h
  exact if_pos (by rw [Nat.log2_two_pow])

lemma tile_ok {m : ℕ} (h : m * n ≤ 1048576) : tile m n = .ok () := if_pos h

lemma dot_ok {m k : ℕ} (hm : 16 ≤ m) (hn : 16 ≤ n) (hk : 16 ≤ k) : dot m n k = .ok () := if_pos ⟨hm, hn, hk⟩

/-! ## One lane -/

structure Lane where
  offset : ℤ
  mask : Bool

namespace Lane

def Inside (l : Lane) (size : ℕ) : Prop := l.mask = true → 0 ≤ l.offset ∧ l.offset < size

instance (l : Lane) (size : ℕ) : Decidable (l.Inside size) := inferInstanceAs (Decidable (_ → _))

/-- The lane, where it does anything, is among the `len` elements from `lo` on. -/
def Within (l : Lane) (lo : ℤ) (len : ℕ) : Prop := l.mask = true → lo ≤ l.offset ∧ l.offset < lo + len

end Lane

/-- A contiguous tensor. -/
structure Buffer (α : Type) where
  size : ℕ
  get : ℕ → α

namespace Buffer

variable (b : Buffer α)

def load (l : Lane) (other : α) : Option α :=
  if l.mask then if l.Inside b.size then some (b.get l.offset.toNat) else none else some other

variable {b}

lemma load_masked {l : Lane} (h : l.mask = false) (other : α) : b.load l other = some other := by
  rw [load, h]
  rfl

lemma load_at {l : Lane} {n : ℕ} (hmask : l.mask = true) (hoffset : l.offset = n) (hn : n < b.size) (other : α) :
    b.load l other = some (b.get n) := by
  have hinside : l.Inside b.size := fun _ => by
    rw [hoffset]
    exact ⟨Int.natCast_nonneg n, by exact_mod_cast hn⟩
  rw [load, if_pos hmask, if_pos hinside, hoffset, Int.toNat_natCast]

end Buffer

/-! ## Lists of partial results -/

lemma mapM_eq_some {β : Type} {f : α → Option β} {ys : List β} :
    l.mapM f = some ys ↔ List.Forall₂ (fun x y => f x = some y) l ys := by
  induction l generalizing ys with
  | nil =>
    rw [mapM_nil, forall₂_nil_left_iff]
    exact ⟨fun h => (Option.some.inj h).symm, fun h => h ▸ rfl⟩
  | cons x l ih =>
    rw [mapM_cons, forall₂_cons_left_iff]
    constructor
    · intro h
      obtain ⟨y, hy, h⟩ := Option.bind_eq_some_iff.mp h
      obtain ⟨zs, hzs, h⟩ := Option.bind_eq_some_iff.mp h
      exact ⟨y, zs, hy, ih.mp hzs, (Option.some.inj h).symm⟩
    · rintro ⟨y, _, hy, hzs, rfl⟩
      rw [hy, ih.mpr hzs]
      rfl

lemma exists_of_mapM {β : Type} {f : α → Option β} {ys : List β} (h : l.mapM f = some ys) {x : α}
    (hx : x ∈ l) : ∃ y ∈ ys, f x = some y := by
  have hall := mapM_eq_some.mp h
  clear h
  induction hall with
  | nil => cases hx
  | cons hxy _ ih =>
    rcases mem_cons.mp hx with rfl | hx
    · exact ⟨_, mem_cons_self, hxy⟩
    · obtain ⟨y, hy, heq⟩ := ih hx
      exact ⟨y, mem_cons_of_mem _ hy, heq⟩

lemma mapM_id_map_some : (l.map some).mapM id = some l := by
  rw [mapM_eq_some, forall₂_map_left_iff, forall₂_same]
  exact fun _ _ => rfl

/-- `tl.sum` over `n` lanes. -/
def sumOver [AddCommMonoid V] (n : ℕ) (f : ℕ → Option V) : Option V := ((List.range n).mapM f).map List.sum

lemma sumOver_eq [AddCommMonoid V] {f : ℕ → Option V} {g : ℕ → V} (h : ∀ i < n, f i = some (g i)) :
    sumOver n f = some ((range n).map g).sum := by
  have hlist : (range n).mapM f = some ((range n).map g) := by
    rw [mapM_eq_some, forall₂_map_right_iff, forall₂_same]
    exact fun i hi => h i (mem_range.mp hi)
  rw [sumOver, hlist, Option.map_some]

/-! ## Launches -/

/-- The rows of a launch: lane `r` of block `b` of each program. -/
def grid {T : Type} (programs blocks lanes : ℕ) (task : ℕ → ℤ → T) : List T :=
  (List.range programs).flatMap fun p => (List.range blocks).flatMap fun b : ℕ => (List.range lanes).map fun r : ℕ =>
    task p (int32 (int32 (b * lanes) + r))

/-- The stores of all rows, in the order of the device. -/
def launch (size : ℕ) (fresh : ℕ → V) (arrange : List (ℕ × V) → List (ℕ × V)) (tasks : List (Option (Lane × V))) :
    Option (Buffer V) := do
  let stores ← tasks.mapM id
  if ∀ st ∈ stores, st.1.Inside size then
    some ⟨size, assign (arrange (stores.flatMap fun st => storeIf st.1.mask st.1.offset.toNat st.2)) fresh⟩
  else none

section

variable {size programs blocks lanes n : ℕ} {fresh : ℕ → V} {arrange : List (ℕ × V) → List (ℕ × V)}
  {task : ℕ → ℤ → Option (Lane × V)}

lemma launch_inside {b : Buffer V} (h : launch size fresh arrange (grid programs blocks lanes task) = some b) :
    ∀ p < programs, ∀ q < blocks, ∀ r < lanes,
      ∃ st, task p (int32 (int32 (q * lanes) + r)) = some st ∧ st.1.Inside size := by
  intro p hp q hq r hr
  obtain ⟨_, hstores, h⟩ := Option.bind_eq_some_iff.mp h
  have hmem : task p (int32 (int32 (q * lanes) + r)) ∈ grid programs blocks lanes task := by
    refine mem_flatMap.mpr ⟨p, mem_range.mpr hp, mem_flatMap.mpr ⟨q, mem_range.mpr hq, ?_⟩⟩
    exact mem_map.mpr ⟨r, mem_range.mpr hr, rfl⟩
  obtain ⟨st, hst, htask⟩ := exists_of_mapM hstores hmem
  split at h
  · rename_i hall
    exact ⟨st, htask, hall st hst⟩
  · cases h

lemma int32_row {b r : ℕ} (hrows : blocks * lanes ≤ 2 ^ 31) (hb : b < blocks) (hr : r < lanes) :
    int32 (int32 (b * lanes) + r) = (b * lanes + r : ℕ) := by
  have hb' := Blocks.block_le hb lanes
  rw [← Nat.cast_mul, int32_natCast (by omega), ← Nat.cast_add, int32_natCast (by omega)]

lemma grid_eq {T : Type} {task : ℕ → ℤ → T} (hrows : blocks * lanes ≤ 2 ^ 31) : grid programs blocks lanes task =
      (range programs).flatMap fun p => (range (blocks * lanes)).map fun row : ℕ => task p row := by
  refine flatMap_congr fun p _ => ?_
  rw [← range_blocks, map_flatMap]
  refine flatMap_congr fun b hb => ?_
  rw [map_map]
  refine map_congr_left fun r hr => ?_
  rw [int32_row hrows (mem_range.mp hb) (mem_range.mp hr)]
  rfl

lemma rows_apart {p q r r' : ℕ} (hr : r < n) (hr' : r' < n) (h : q * n + r = p * n + r') : q = p :=
  (Blocks.place_inj hr hr' h).1

lemma launch_grid (hperm : ∀ stores, (arrange stores).Perm stores) (hlanes : 0 < lanes)
    (hrows : blocksFor lanes n * lanes ≤ 2 ^ 31) {off : ℕ → ℕ → ℤ} {v : ℕ → ℕ → V}
    (h : ∀ p < programs, ∀ row < blocksFor lanes n * lanes, task p row = some (⟨off p row, decide (row < n)⟩, v p row))
    (hoff : ∀ p < programs, ∀ row < n, off p row = (p * n + row : ℕ)) :
    ∃ b, launch (programs * n) fresh arrange (grid programs (blocksFor lanes n) lanes task) = some b ∧
      b.size = programs * n ∧ ∀ p < programs, ∀ row < n, b.get (p * n + row) = v p row := by
  let row (p r : ℕ) : Lane × V := (⟨off p r, decide (r < n)⟩, v p r)
  let rows := (range programs).flatMap fun p => (range (blocksFor lanes n * lanes)).map (row p)
  have htasks : grid programs (blocksFor lanes n) lanes task = rows.map some := by
    rw [grid_eq hrows, map_flatMap]
    refine flatMap_congr fun p hp => ?_
    rw [map_map]
    exact map_congr_left fun r hr => h p (mem_range.mp hp) r (mem_range.mp hr)
  have hinside : ∀ st ∈ rows, st.1.Inside (programs * n) := by
    intro st hst hmask
    obtain ⟨p, hp, hst⟩ := mem_flatMap.mp hst
    obtain ⟨r, -, rfl⟩ := mem_map.mp hst
    have hr : r < n := of_decide_eq_true hmask
    have hp : p < programs := mem_range.mp hp
    have hlast := Blocks.block_le hp n
    show 0 ≤ off p r ∧ off p r < _
    rw [hoff p hp r hr]
    exact ⟨Int.natCast_nonneg _, by exact_mod_cast (by omega : p * n + r < programs * n)⟩
  refine ⟨⟨programs * n, assign (arrange (rows.flatMap fun st => storeIf st.1.mask st.1.offset.toNat st.2)) fresh⟩,
    ?_, rfl, fun p hp r hr => ?_⟩
  · rw [launch, htasks, mapM_id_map_some, Option.bind_eq_bind, Option.bind_some, if_pos hinside]
  · refine assign_once (hperm _) ?_ fresh
    have hr' : r < blocksFor lanes n * lanes := lt_of_lt_of_le hr (le_blocksFor hlanes n)
    have hstores (q r' : ℕ) (hq : q < programs) : storesTo (storeIf (row q r').1.mask (row q r').1.offset.toNat (row q r').2)
        (p * n + r) = if r' < n ∧ q * n + r' = p * n + r then [(p * n + r, v q r')] else [] := by
      rw [storesTo_storeIf]
      by_cases hr' : r' < n
      · have hoffset : (off q r').toNat = q * n + r' := by rw [hoff q hq r' hr', Int.toNat_natCast]
        simp only [row, hr', decide_true, true_and, hoffset]
        split
        · rename_i h
          rw [h]
        · rfl
      · simp [row, hr']
    rw [storesTo_flatMap, flatMap_assoc, flatMap_once nodup_range (mem_range.mpr hp), flatMap_map,
      flatMap_once nodup_range (mem_range.mpr hr'), hstores p r hp, if_pos ⟨hr, rfl⟩]
    · intro r'' _ hne
      rw [hstores p r'' hp, if_neg fun h => hne (add_left_cancel h.2)]
    · intro q hq hne
      rw [flatMap_map, flatMap_eq_nil_iff]
      intro r'' _
      rw [hstores q r'' (mem_range.mp hq), if_neg]
      rintro ⟨hr'', h⟩
      exact hne (rows_apart hr'' hr h)

end

end VKernels.LaneLaunch
