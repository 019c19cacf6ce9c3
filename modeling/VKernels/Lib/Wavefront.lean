import VKernels.Lib.LaneLaunch
import VKernels.Lib.TileLoops

/-!
# Wavefronts

Sixty-four lanes in lock step, and launches whose wavefronts each store one row.

* `warpReduce` — a sum over all lanes by exchanges with the lanes at distance 32, 16, ..., 1; `warpReduce_eq`.
* `sum_strided`, `sum_consecutive_lanes` — a row spread over the lanes, strided or in consecutive pieces.
* `threadLoop` — the indices of one thread of a cooperative loop; `mem_threadLoop`.
* `rows_stores` — the stores of wavefronts that take every row once.
-/

namespace VKernels.Wavefront

open Finset
open List hiding cons mem_filter mem_range range

variable {V : Type} [AddCommMonoid V]

/-! ## Reductions -/

/-- Every lane adds what the lane at distance `off` has. -/
def shuffleXor (s : ℕ → V) (off : ℕ) : ℕ → V := fun lane => s lane + s (lane ^^^ off)

/-- The exchange loop. -/
def warpReduce (s : ℕ → V) : ℕ → V := [32, 16, 8, 4, 2, 1].foldl shuffleXor s

/-- The lanes that a sequence of exchanges collects, relative to the own one. -/
def masks : List ℕ → List ℕ
  | [] => [0]
  | off :: offs => masks offs ++ (masks offs).map (· ^^^ off)

lemma foldl_shuffleXor (offs : List ℕ) (s : ℕ → V) (lane : ℕ) :
    offs.foldl shuffleXor s lane = ((masks offs).map fun m => s (lane ^^^ m)).sum := by
  induction offs generalizing s with
  | nil => simp [masks]
  | cons off offs ih =>
    have hadd : ((masks offs).map fun m => shuffleXor s off (lane ^^^ m)).sum =
        ((masks offs).map fun m => s (lane ^^^ m)).sum + ((masks offs).map fun m => s (lane ^^^ m ^^^ off)).sum := by
      rw [← sum_map_add]
      rfl
    rw [foldl_cons, ih, hadd, masks, map_append, sum_append, List.map_map]
    congr 2
    refine map_congr_left fun m _ => ?_
    simp [Nat.xor_assoc]

lemma masks_perm : (masks [32, 16, 8, 4, 2, 1]).Perm (List.range 64) := by decide

lemma warpReduce_eq (s : ℕ → V) {lane : ℕ} (h : lane < 64) : warpReduce s lane = ∑ l ∈ range 64, s l := by
  have hlt (m : ℕ) (hm : m < 64) : lane ^^^ m < 64 := Nat.xor_lt_two_pow (n := 6) h hm
  have hself (m : ℕ) : lane ^^^ (lane ^^^ m) = m := by
    rw [← Nat.xor_assoc, Nat.xor_self, Nat.zero_xor]
  rw [warpReduce, foldl_shuffleXor, (masks_perm.map _).sum_eq]
  show ∑ m ∈ range 64, s (lane ^^^ m) = _
  refine Finset.sum_nbij' (lane ^^^ ·) (lane ^^^ ·) ?_ ?_ ?_ ?_ ?_
  · exact fun m hm => mem_range.mpr (hlt m (mem_range.mp hm))
  · exact fun m hm => mem_range.mpr (hlt m (mem_range.mp hm))
  · exact fun m _ => hself m
  · exact fun m _ => hself m
  · exact fun m _ => rfl

/-! ## Rows over lanes -/

lemma sum_bounded {n k : ℕ} (h : n ≤ k) (f : ℕ → V) :
    ∑ d ∈ range k, (if d < n then f d else 0) = ∑ d ∈ range n, f d := by
  rw [← sum_filter]
  congr 1
  ext d
  simp only [mem_filter, mem_range]
  omega

/-- Lane `l` has the elements `l`, `l + 64`, ... -/
lemma sum_strided {n tiles : ℕ} (h : n ≤ tiles * 64) (f : ℕ → V) :
    ∑ lane ∈ range 64, ∑ t ∈ range tiles, (if lane + t * 64 < n then f (lane + t * 64) else 0) = ∑ d ∈ range n, f d := by
  rw [sum_comm, ← sum_bounded h f, ← TileLoops.sum_blocks]
  refine sum_congr rfl fun t _ => sum_congr rfl fun lane _ => ?_
  rw [add_comm]

lemma sum_consecutive_lanes (piece : ℕ) (f : ℕ → V) :
    ∑ lane ∈ range 64, ∑ t ∈ range piece, f (lane * piece + t) = ∑ d ∈ range (piece * 64), f d := by
  rw [TileLoops.sum_blocks, mul_comm]

/-- The cells of a strided row: lane and turn. -/
def stridedCells (n tiles : ℕ) : List (ℕ × ℕ) :=
  (List.range 64 ×ˢ List.range tiles).filter fun c => c.1 + c.2 * 64 < n

lemma stridedCells_perm {n tiles : ℕ} (h : n ≤ tiles * 64) :
    ((stridedCells n tiles).map fun c => c.1 + c.2 * 64).Perm (List.range n) := by
  refine (perm_ext_iff_of_nodup ?_ nodup_range).mpr fun d => ?_
  · refine Nodup.map_on ?_ ((nodup_range.product nodup_range).filter _)
    rintro ⟨l, t⟩ hc ⟨_, _⟩ hc' heq
    simp only [stridedCells, List.mem_filter, List.mem_product, List.mem_range] at hc hc' heq
    rw [Prod.mk.injEq]
    omega
  · simp only [stridedCells, List.mem_map, List.mem_filter, Prod.exists, List.mem_product, List.mem_range,
      decide_eq_true_eq]
    constructor
    · rintro ⟨l, t, ⟨-, hlt⟩, rfl⟩
      exact hlt
    · intro hd
      exact ⟨d % 64, d / 64, ⟨⟨by omega, by omega⟩, by omega⟩, by omega⟩

/-- The cells of a row in consecutive pieces. -/
def pieceCells (piece : ℕ) : List (ℕ × ℕ) := List.range 64 ×ˢ List.range piece

lemma pieceCells_perm (piece : ℕ) :
    ((pieceCells piece).map fun c => c.1 * piece + c.2).Perm (List.range (piece * 64)) := by
  refine (perm_ext_iff_of_nodup ?_ nodup_range).mpr fun d => ?_
  · refine Nodup.map_on ?_ (nodup_range.product nodup_range)
    rintro ⟨l, t⟩ hc ⟨_, _⟩ hc' heq
    simp only [pieceCells, List.mem_product, List.mem_range] at hc hc' heq
    obtain rfl := LaneLaunch.rows_apart hc.2 hc'.2 heq
    rw [Prod.mk.injEq]
    exact ⟨rfl, add_left_cancel heq⟩
  · simp only [pieceCells, List.mem_map, Prod.exists, List.mem_product, List.mem_range]
    constructor
    · rintro ⟨l, t, ⟨hl, ht⟩, rfl⟩
      have hlast := Blocks.block_le (show l < 64 by omega) piece
      omega
    · intro hd
      have hpiece : 0 < piece := by
        apply pos_of_ne_zero
        rintro rfl
        omega
      refine ⟨d / piece, d % piece, ⟨?_, Nat.mod_lt _ hpiece⟩, ?_⟩
      · exact Nat.div_lt_of_lt_mul (by omega)
      · rw [mul_comm]
        exact Nat.div_add_mod d piece

/-- `for (i = tid; i < n; i += threads)`. -/
def threadLoop (n threads tid : ℕ) : List ℕ := (List.range ((n - tid + threads - 1) / threads)).map fun k => tid + k * threads

lemma mem_threadLoop {n threads tid i : ℕ} (htid : tid < threads) :
    i ∈ threadLoop n threads tid ↔ i < n ∧ i % threads = tid := by
  have hthreads : 0 < threads := by omega
  simp only [threadLoop, List.mem_map, List.mem_range]
  constructor
  · rintro ⟨k, hk, rfl⟩
    have hroom : (k + 1) * threads ≤ n - tid + threads - 1 := (Nat.le_div_iff_mul_le hthreads).mp hk
    rw [add_one_mul] at hroom
    exact ⟨by omega, by rw [Nat.add_mul_mod_self_right, Nat.mod_eq_of_lt htid]⟩
  · rintro ⟨hi, hmod⟩
    have hdiv := Nat.div_add_mod i threads
    rw [hmod, mul_comm] at hdiv
    refine ⟨i / threads, (Nat.le_div_iff_mul_le hthreads).mpr ?_, by omega⟩
    rw [Nat.add_one_mul]
    omega

lemma rows_stores {W W' C V : Type} {waves : List W} {rows : List W'} {of : W → W'} (hwaves : (waves.map of).Perm rows)
    {cells : List C} {idx : C → ℕ} {n : ℕ} (hcells : (cells.map idx).Perm (List.range n)) (addr : W' → ℕ)
    (value : W → C → V) (spec : W' → ℕ → V) (h : ∀ w ∈ waves, ∀ c ∈ cells, value w c = spec (of w) (idx c)) :
    (waves.flatMap fun w => cells.map fun c => (addr (of w) + idx c, value w c)).Perm
      (rows.flatMap fun r => (List.range n).map fun d => (addr r + d, spec r d)) := by
  have hvalues : (waves.flatMap fun w => cells.map fun c => (addr (of w) + idx c, value w c)) =
      (waves.map of).flatMap fun r => (cells.map idx).map fun d => (addr r + d, spec r d) := by
    rw [flatMap_map]
    refine flatMap_congr fun w hw => ?_
    rw [List.map_map]
    refine map_congr_left fun c hc => ?_
    rw [h w hw c hc]
    rfl
  rw [hvalues]
  exact (hwaves.flatMap_right _).trans (Perm.flatMap_left _ fun r _ => hcells.map _)

end VKernels.Wavefront
