import Mathlib.Data.List.Flatten
import Mathlib.Data.List.Perm.Subperm
import Mathlib.Order.Basic

/-!
# Groups laid out in blocks

Elements grouped by a key, each group filled up to whole blocks, and a table with the key of every
block.

* `blocksFor`, `fillUp` — the blocks of one group; `layout`, `table` — all groups.
* `layout_length`, `layout_length_le` — a whole number of blocks, at most one block of padding for
  each group that is not empty.
* `table_spec` — the table names the group of every element in the layout.
* `filter_layout` — without the padding the groups follow one another.
* `groups_pairwise`, `mem_groups` — grouping by key is a stable sort.
-/

namespace VKernels.Grouping

open List
open Prod (snd)

variable {α K : Type}

/-- The blocks that `n` elements fill, the last one perhaps in part. -/
def blocksFor (size n : ℕ) : ℕ := (n + size - 1) / size

def fillUp (size : ℕ) (pad : α) (g : List α) : List α :=
  g ++ List.replicate (blocksFor size g.length * size - g.length) pad

/-- The groups one after another, each in blocks of its own. -/
def layout (size : ℕ) (pad : α) (gs : List (K × List α)) : List α :=
  gs.flatMap fun g => fillUp size pad g.2

/-- The key of every block. -/
def table (size : ℕ) (gs : List (K × List α)) : List K :=
  gs.flatMap fun g => List.replicate (blocksFor size g.2.length) g.1

section

variable {size : ℕ} (hsize : 0 < size)
include hsize

lemma le_blocksFor (n : ℕ) : n ≤ blocksFor size n * size := by
  have := Nat.div_add_mod (n + size - 1) size
  have := Nat.mod_lt (n + size - 1) hsize
  rw [blocksFor, Nat.mul_comm]
  omega

lemma blocksFor_lt (n : ℕ) : blocksFor size n * size < n + size := by
  have := Nat.div_mul_le_self (n + size - 1) size
  unfold blocksFor
  omega

lemma blocksFor_zero : blocksFor size 0 = 0 := Nat.div_eq_of_lt (by omega)

lemma block_start_lt {n b : ℕ} (hb : b < blocksFor size n) : b * size < n := by
  have hle : (b + 1) * size ≤ blocksFor size n * size := Nat.mul_le_mul_right size hb
  have := blocksFor_lt hsize n
  rw [Nat.add_one_mul] at hle
  omega

lemma fillUp_length (pad : α) (g : List α) : (fillUp size pad g).length = blocksFor size g.length * size := by
  have := le_blocksFor hsize g.length
  simp only [fillUp, length_append, length_replicate]
  omega

lemma layout_length (pad : α) (gs : List (K × List α)) :
    (layout size pad gs).length = (table size gs).length * size := by
  induction gs with
  | nil => simp [layout, table]
  | cons g gs ih =>
    simp only [layout, table, flatMap_cons, length_append, length_replicate] at ih ⊢
    rw [ih, fillUp_length hsize, Nat.add_mul]

lemma layout_length_le (pad : α) (gs : List (K × List α)) :
    (layout size pad gs).length ≤ (gs.flatMap snd).length + (gs.filter fun g => g.2 ≠ []).length * size := by
  induction gs with
  | nil => simp [layout]
  | cons g gs ih =>
    simp only [layout, flatMap_cons, length_append] at ih ⊢
    rw [fillUp_length hsize]
    by_cases hg : g.2 = []
    · rw [filter_cons_of_neg (by simpa using hg), hg, length_nil, blocksFor_zero hsize]
      omega
    · have := blocksFor_lt hsize g.2.length
      rw [filter_cons_of_pos (by simpa using hg), length_cons, Nat.add_one_mul]
      omega

lemma table_spec {pad : α} {gs : List (K × List α)} {i : ℕ} {x : α}
    (hx : (layout size pad gs)[i]? = some x) (hpad : x ≠ pad) :
    ∃ g ∈ gs, x ∈ g.2 ∧ (table size gs)[i / size]? = some g.1 := by
  induction gs generalizing i with
  | nil => simp [layout] at hx
  | cons g gs ih =>
    simp only [layout, table, flatMap_cons] at hx ih ⊢
    by_cases hi : i < (fillUp size pad g.2).length
    · -- the element is in the first group
      rw [getElem?_append_left hi] at hx
      refine ⟨g, mem_cons_self, ?_, ?_⟩
      · have hmem := mem_of_getElem? hx
        rw [fillUp, mem_append] at hmem
        rcases hmem with h | h
        · exact h
        · exact absurd (eq_of_mem_replicate h) hpad
      · rw [fillUp_length hsize] at hi
        have hdiv : i / size < blocksFor size g.2.length := Nat.div_lt_of_lt_mul (by rwa [Nat.mul_comm])
        rw [getElem?_append_left (by simpa using hdiv), getElem?_replicate, if_pos hdiv]
    · rw [getElem?_append_right (by omega)] at hx
      obtain ⟨h, hh, hmem, htable⟩ := ih hx
      refine ⟨h, mem_cons_of_mem _ hh, hmem, ?_⟩
      rw [fillUp_length hsize] at hi htable
      have hle : blocksFor size g.2.length ≤ i / size := by
        rw [Nat.le_div_iff_mul_le hsize]
        omega
      rw [Nat.mul_comm, Nat.sub_mul_div] at htable
      rw [getElem?_append_right (by simpa using hle), length_replicate]
      exact htable

end

variable {gs : List (K × List α)}

lemma filter_layout [DecidableEq α] (size : ℕ) {pad : α} (hpad : ∀ g ∈ gs, pad ∉ g.2) :
    (layout size pad gs).filter (· ≠ pad) = gs.flatMap snd := by
  induction gs with
  | nil => rfl
  | cons g gs ih =>
    have hfirst : (fillUp size pad g.2).filter (· ≠ pad) = g.2 := by
      have hkeep : g.2.filter (· ≠ pad) = g.2 := by
        apply filter_eq_self.mpr
        intro x hx
        have hne : x ≠ pad := fun h => hpad g mem_cons_self (h ▸ hx)
        simpa using hne
      rw [fillUp, filter_append, hkeep, filter_replicate_of_neg (by simp)]
      exact append_nil g.2
    simp only [layout, flatMap_cons, filter_append] at ih ⊢
    rw [hfirst, ih fun h hh => hpad h (mem_cons_of_mem _ hh)]

lemma blocksFor_of_pos {size n : ℕ} (hsize : 0 < size) (hn : 0 < n) : blocksFor size n = 1 + (n - 1) / size := by
  have hsum : n + size - 1 = n - 1 + size := by omega
  rw [blocksFor, hsum, Nat.add_div_right _ hsize, Nat.add_comm]

lemma table_filter {size : ℕ} (hsize : 0 < size) (gs : List (K × List α)) :
    table size (gs.filter fun g => g.2 ≠ []) = table size gs := by
  induction gs with
  | nil => rfl
  | cons g gs ih =>
    simp only [table, flatMap_cons] at ih ⊢
    by_cases hg : g.2 = []
    · rw [filter_cons_of_neg (by simpa using hg), ih, hg, length_nil, blocksFor_zero hsize]
      rfl
    · rw [filter_cons_of_pos (by simpa using hg), flatMap_cons, ih]

lemma layout_filter {size : ℕ} (hsize : 0 < size) (pad : α) (gs : List (K × List α)) :
    layout size pad (gs.filter fun g => g.2 ≠ []) = layout size pad gs := by
  induction gs with
  | nil => rfl
  | cons g gs ih =>
    simp only [layout, flatMap_cons] at ih ⊢
    by_cases hg : g.2 = []
    · rw [filter_cons_of_neg (by simpa using hg), ih, hg, fillUp, length_nil, blocksFor_zero hsize, Nat.zero_mul]
      rfl
    · rw [filter_cons_of_pos (by simpa using hg), flatMap_cons, ih]

lemma table_length_le_of_nonempty {size : ℕ} (hsize : 0 < size) (hgs : ∀ g ∈ gs, g.2 ≠ []) :
    gs.length ≤ (gs.flatMap snd).length ∧
      (table size gs).length ≤ gs.length + ((gs.flatMap snd).length - gs.length) / size := by
  induction gs with
  | nil => simp [table]
  | cons g gs ih =>
    obtain ⟨hle, htable⟩ := ih fun h hh => hgs h (mem_cons_of_mem g hh)
    have hpos : 0 < g.2.length := length_pos_iff.mpr (hgs g mem_cons_self)
    have hblocks := blocksFor_of_pos hsize hpos
    have hsplit : (g.2.length - 1) / size + ((gs.flatMap snd).length - gs.length) / size ≤
        (g.2.length - 1 + ((gs.flatMap snd).length - gs.length)) / size := Nat.div_add_div_le_add_div
    have hrest : g.2.length - 1 + ((gs.flatMap snd).length - gs.length) =
        g.2.length + (gs.flatMap snd).length - (gs.length + 1) := by omega
    simp only [table, flatMap_cons, length_append, length_replicate, length_cons] at htable ⊢
    rw [hrest] at hsplit
    constructor
    · omega
    · omega

lemma set_flatMap_range {f f' : ℕ → List α} {n e r : ℕ} {x : α} (he : e < n) (hr : r < (f e).length)
    (hself : f' e = (f e).set r x) (hother : ∀ e' ≠ e, f' e' = f e') :
    ((range n).flatMap f).set (((range e).flatMap f).length + r) x = (range n).flatMap f' := by
  induction n with
  | zero => exact absurd he (Nat.not_lt_zero e)
  | succ n ih =>
    have hsucc : ∀ f : ℕ → List α, (range (n + 1)).flatMap f = (range n).flatMap f ++ f n := by
      intro f
      rw [range_succ, flatMap_append, flatMap_singleton]
    rw [hsucc, hsucc]
    rcases Nat.lt_succ_iff_lt_or_eq.mp he with hlt | rfl
    · have hprefix : ((range e).flatMap f).length + (f e).length ≤ ((range n).flatMap f).length := by
        have hsub : (range (e + 1)).Sublist (range n) := range_sublist.mpr hlt
        have hle := (hsub.flatMap f).length_le
        rwa [range_succ, flatMap_append, flatMap_singleton, length_append] at hle
      rw [set_append_left _ _ (by omega), ih hlt, hother n (Nat.ne_of_gt hlt)]
    · have hbefore : (range e).flatMap f' = (range e).flatMap f :=
        flatMap_congr fun e' he' => hother e' (Nat.ne_of_lt (mem_range.mp he'))
      rw [set_append_right _ _ (Nat.le_add_right _ r), Nat.add_sub_cancel_left, hbefore, hself]

lemma fillTo_set {p x : α} {g : List α} {cap : ℕ} (h : g.length < cap) :
    (g ++ replicate (cap - g.length) p).set g.length x = (g ++ [x]) ++ replicate (cap - (g ++ [x]).length) p := by
  have hcap : cap - g.length = (cap - (g ++ [x]).length) + 1 := by
    rw [length_append, length_singleton]
    omega
  rw [set_append_right _ _ (Nat.le_refl _), Nat.sub_self, hcap, replicate_succ, set_cons_zero, append_assoc,
    singleton_append]

/-! ## Grouping by key -/

section

variable [DecidableEq K] (key : α → K) (l : List α) (ks : List K)

/-- The elements with each key, in the order of `l`. -/
def groups : List (K × List α) := ks.map fun k => (k, l.filter fun x => key x = k)

variable {key l ks}

lemma mem_groups {g : K × List α} (hg : g ∈ groups key l ks) {x : α} (hx : x ∈ g.2) :
    x ∈ l ∧ key x = g.1 ∧ g.1 ∈ ks := by
  obtain ⟨k, hk, rfl⟩ := mem_map.mp hg
  rw [mem_filter] at hx
  exact ⟨hx.1, by simpa using hx.2, hk⟩

lemma mem_flatMap_groups {x : α} : x ∈ (groups key l ks).flatMap snd ↔ x ∈ l ∧ key x ∈ ks := by
  simp only [groups, flatMap_map, mem_flatMap, mem_filter, decide_eq_true_eq]
  constructor
  · rintro ⟨k, hk, hx, rfl⟩
    exact ⟨hx, hk⟩
  · rintro ⟨hx, hk⟩
    exact ⟨key x, hk, hx, rfl⟩

lemma groups_pairwise {lt : K → K → Prop} {R : α → α → Prop} (hks : ks.Pairwise lt) (hl : l.Pairwise R) :
    ((groups key l ks).flatMap snd).Pairwise fun x y => lt (key x) (key y) ∨ key x = key y ∧ R x y := by
  rw [groups, flatMap_map, pairwise_flatMap]
  constructor
  · intro k _
    apply (hl.filter _).imp_of_mem
    intro x y hx hy hR
    have hx := (mem_filter.mp hx).2
    have hy := (mem_filter.mp hy).2
    simp only [decide_eq_true_eq] at hx hy
    exact .inr ⟨hx.trans hy.symm, hR⟩
  · apply hks.imp
    intro k _ hlt x hx y hy
    have hx := (mem_filter.mp hx).2
    have hy := (mem_filter.mp hy).2
    simp only [decide_eq_true_eq] at hx hy
    rw [hx, hy]
    exact .inl hlt

lemma groups_nodup (hks : ks.Nodup) (hl : l.Nodup) : ((groups key l ks).flatMap snd).Nodup := by
  apply (groups_pairwise hks hl).imp
  rintro x y (h | ⟨_, h⟩)
  · exact fun hxy => h (congrArg key hxy)
  · exact h

lemma groups_length_le (hks : ks.Nodup) (hl : l.Nodup) : ((groups key l ks).flatMap snd).length ≤ l.length := by
  apply List.Subperm.length_le
  apply subperm_of_subset (groups_nodup hks hl)
  intro x hx
  exact (mem_flatMap_groups.mp hx).1

end

end VKernels.Grouping
