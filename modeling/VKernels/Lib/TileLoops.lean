import Mathlib.Algebra.BigOperators.Fin

/-!
# Loops over tiles

A buffer of rows and columns that nested loops visit tile by tile, and the sums that such loops
accumulate.

* `writeTile` — every cell of one tile rewritten; `foldl_writeTile` — a loop along a row of tiles.
* `foldl_once` — a loop that touches what is read once; `foldl_add` — one that adds to it.
* `foldl_tiles` — a loop over tiles and the indices of each is one over all indices.
* `sum_blocks` — a sum block by block; `sum_consecutive` — over consecutive ranges that cover an
  interval; `sum_getD` — over the positions of a list; `sum_map_once` — over the entries of a list.
-/

namespace VKernels.TileLoops

open Finset
open List hiding mem_range min range range_zero sum_range_succ

/-! ## Reading a cell after a loop -/

section

variable {S X : Type}

variable {body : S → ℕ → S}

lemma foldl_once (read : S → X) (g : X → X) {k : ℕ}
    (hbody : ∀ s i, read (body s i) = if i = k then g (read s) else read s) (n : ℕ) (s : S) :
    read ((List.range n).foldl body s) = if k < n then g (read s) else read s := by
  induction n with
  | zero => simp
  | succ n ih =>
    rw [range_succ, foldl_concat, hbody, ih]
    by_cases hk : k < n
    · rw [if_neg (by omega), if_pos hk, if_pos (by omega)]
    · rw [if_neg hk]
      by_cases hn : n = k
      · rw [if_pos hn, if_pos (by omega)]
      · rw [if_neg hn, if_neg (by omega)]

lemma foldl_add {M : Type} [AddCommMonoid M] (read : S → M) {δ : ℕ → M}
    (hbody : ∀ s i, read (body s i) = read s + δ i) (n : ℕ) (s : S) :
    read ((List.range n).foldl body s) = read s + ∑ i ∈ range n, δ i := by
  induction n with
  | zero => simp
  | succ n ih =>
    rw [range_succ, foldl_concat, hbody, ih, sum_range_succ, add_assoc]

lemma foldl_frame (read : S → X) (hbody : ∀ s i, read (body s i) = read s) (n : ℕ) (s : S) :
    read ((List.range n).foldl body s) = read s := by
  induction n with
  | zero => simp
  | succ n ih =>
    rw [range_succ, foldl_concat, hbody, ih]

lemma foldl_tiles_upto (body : S → ℕ → S) (n k tiles : ℕ) (s : S) : (List.range tiles).foldl
        (fun s tile => (List.range (min (n - tile * k) k)).foldl (fun s j => body s (tile * k + j)) s) s =
      (List.range (min (tiles * k) n)).foldl body s := by
  induction tiles with
  | zero => simp
  | succ tiles ih =>
    have hnext : min ((tiles + 1) * k) n = min (tiles * k) n + min (n - tiles * k) k := by
      rw [add_one_mul]
      omega
    rw [range_succ, foldl_concat, ih, hnext, List.range_add, foldl_append, foldl_map]
    by_cases hin : tiles * k ≤ n
    · rw [min_eq_left hin]
    · have hnone : min (n - tiles * k) k = 0 := by omega
      rw [hnone]
      rfl

lemma foldl_tiles (body : S → ℕ → S) (n : ℕ) {k tiles : ℕ} (h : n ≤ tiles * k) (s : S) : (List.range tiles).foldl
        (fun s tile => (List.range (min (n - tile * k) k)).foldl (fun s j => body s (tile * k + j)) s) s =
      (List.range n).foldl body s := by
  rw [foldl_tiles_upto, min_eq_right h]

end

section

variable {α : Type}

/-- The cells of tile `i`, `j` rewritten, each from its place in the tile and its old value. -/
def writeTile (h w i j : ℕ) (f : ℕ → ℕ → α → α) (buf : ℕ → ℕ → α) : ℕ → ℕ → α := fun r c =>
  if r / h = i ∧ c / w = j then f (r % h) (c % w) (buf r c) else buf r c

lemma foldl_writeTile (h w i n : ℕ) (f : ℕ → ℕ → ℕ → α → α) (buf : ℕ → ℕ → α) (r c : ℕ) :
    (List.range n).foldl (fun buf j => writeTile h w i j (f j) buf) buf r c =
      if r / h = i ∧ c / w < n then f (c / w) (r % h) (c % w) (buf r c) else buf r c := by
  have hcell : ∀ (buf : ℕ → ℕ → α) (j : ℕ), writeTile h w i j (f j) buf r c = if j = c / w then
      (if r / h = i then f (c / w) (r % h) (c % w) (buf r c) else buf r c) else buf r c := by
    intro buf j
    unfold writeTile
    by_cases hj : j = c / w
    · subst hj
      simp
    · rw [if_neg fun hin => hj hin.2.symm, if_neg hj]
  rw [foldl_once (fun buf : ℕ → ℕ → α => buf r c)
    (fun x => if r / h = i then f (c / w) (r % h) (c % w) x else x) hcell n buf]
  by_cases hi : r / h = i <;> simp [hi]

end

/-! ## Sums -/

section

variable {M : Type} [AddCommMonoid M]

lemma sum_blocks (f : ℕ → M) (n h : ℕ) : ∑ i ∈ range n, ∑ m ∈ range h, f (i * h + m) = ∑ r ∈ range (n * h), f r := by
  induction n with
  | zero => simp
  | succ n ih => rw [sum_range_succ, ih, add_one_mul, sum_range_add]

lemma sum_consecutive {bound : ℕ → ℕ} (hmono : Monotone bound) (x : ℕ) (a : M) (n : ℕ) :
    ∑ k ∈ range n, (if bound k ≤ x ∧ x < bound (k + 1) then a else 0) = if bound 0 ≤ x ∧ x < bound n then a else 0 := by
  induction n with
  | zero =>
    rw [range_zero, sum_empty, if_neg (by omega)]
  | succ n ih =>
    have hlo : bound 0 ≤ bound n := hmono (Nat.zero_le n)
    have hhi : bound n ≤ bound (n + 1) := hmono (Nat.le_succ n)
    rw [sum_range_succ, ih]
    by_cases hx : x < bound n
    · rw [if_neg (show ¬(bound n ≤ x ∧ x < bound (n + 1)) by omega), add_zero]
      by_cases h0 : bound 0 ≤ x
      · rw [if_pos ⟨h0, hx⟩, if_pos ⟨h0, by omega⟩]
      · rw [if_neg fun h => h0 h.1, if_neg fun h => h0 h.1]
    · rw [if_neg fun h => hx h.2, zero_add]
      by_cases hx' : x < bound (n + 1)
      · rw [if_pos ⟨by omega, hx'⟩, if_pos ⟨by omega, hx'⟩]
      · rw [if_neg fun h => hx' h.2, if_neg fun h => hx' h.2]

lemma sum_getD {α : Type} (l : List α) (d : α) (f : α → M) :
    ∑ k ∈ range l.length, f (l.getD k d) = (l.map f).sum := by
  rw [sum_range, ← Fin.sum_univ_fun_getElem]
  apply sum_congr rfl
  intro k _
  rw [getD_eq_getElem?_getD, getElem?_eq_getElem, Option.getD_some]

lemma sum_map_once {l : List ℕ} {n : ℕ} {p : ℕ → Prop} [DecidablePred p] {f : ℕ → M}
    (hmem : ∀ i ∈ l, i = n ∨ (i < n ∧ p i)) (honce : ∀ i < n, p i → l.count i = 1) (hpad : f n = 0) :
    (l.map f).sum = ∑ i ∈ range n, if p i then f i else 0 := by
  have hsub : l.toFinset ⊆ range (n + 1) := by
    intro i hi
    rw [mem_range]
    rcases hmem i (mem_toFinset.mp hi) with rfl | h <;> omega
  rw [sum_list_map_count, sum_subset hsub, sum_range_succ, hpad, nsmul_zero, add_zero]
  · apply sum_congr rfl
    intro i hi
    have hlt : i < n := mem_range.mp hi
    by_cases hp : p i
    · rw [if_pos hp, honce i hlt hp, one_nsmul]
    · have hnot : i ∉ l := by
        intro hin
        rcases hmem i hin with rfl | h
        · exact lt_irrefl _ hlt
        · exact hp h.2
      rw [if_neg hp, count_eq_zero_of_not_mem hnot, zero_nsmul]
  · intro i _ hi
    rw [count_eq_zero_of_not_mem fun h => hi (mem_toFinset.mpr h), zero_nsmul]

end

end VKernels.TileLoops
