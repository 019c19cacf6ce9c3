import Mathlib.Data.List.Basic

/-!
# Lists cut into equal blocks

* `block_overwrite_self`, `block_overwrite_other` — a block that is overwritten, and the rest.
* `block_le`, `block_lt`, `block_div`, `block_mod`, `place_inj` — the numbers of a block.
* `ext_blocks` — a list is its blocks; `getElem?_flatMap_range` — equal blocks laid out in a row.
* `range_blocks`, `flatMap_blocks`, `map_blocks` — loops over blocks and over the numbers in them; `map_rows` — over rows
  of places.
-/

namespace VKernels.Blocks

open List

variable {α : Type}

/-- Block `c` of a list cut into blocks of `size` elements. -/
def block (size : ℕ) (l : List α) (c : ℕ) : List α := (l.drop (c * size)).take size

/-- `l` with `v` in place of the elements from `start` on. -/
def overwrite (l : List α) (start : ℕ) (v : List α) : List α :=
  l.take start ++ v ++ l.drop (start + v.length)

variable {size : ℕ} {l l' v : List α} {c c' n start : ℕ}

lemma block_length (h : (c + 1) * size ≤ l.length) : (block size l c).length = size := by
  rw [Nat.add_one_mul] at h
  simp only [block, length_take, length_drop]
  omega

lemma getElem?_block (size : ℕ) (l : List α) (c i : ℕ) :
    (block size l c)[i]? = if i < size then l[c * size + i]? else none := by
  simp [block, getElem?_take, getElem?_drop]

lemma overwrite_length (h : start + v.length ≤ l.length) : (overwrite l start v).length = l.length := by
  simp only [overwrite, length_append, length_take, length_drop]
  omega

lemma overwrite_all (h : v.length = l.length) : overwrite l 0 v = v := by
  simp [overwrite, h]

lemma getElem?_overwrite (h : start + v.length ≤ l.length) (j : ℕ) : (overwrite l start v)[j]? =
      if start ≤ j ∧ j < start + v.length then v[j - start]? else l[j]? := by
  have hstart : (l.take start).length = start := by
    rw [length_take]
    omega
  unfold overwrite
  rw [append_assoc, getElem?_append, hstart]
  by_cases hlo : j < start
  · rw [if_pos hlo, if_neg (by omega), getElem?_take, if_pos hlo]
  · rw [if_neg hlo, getElem?_append]
    by_cases hhi : j - start < v.length
    · rw [if_pos hhi, if_pos (by omega)]
    · rw [if_neg hhi, if_neg (by omega), getElem?_drop]
      congr 1
      omega

lemma block_le {q : ℕ} (hq : q < n) (size : ℕ) : q * size + size ≤ n * size := by
  rw [← Nat.add_one_mul]
  exact Nat.mul_le_mul_right size hq

lemma block_lt {q r : ℕ} (hq : q < n) (hr : r < size) : q * size + r < n * size :=
  Nat.lt_of_lt_of_le (Nat.add_lt_add_left hr _) (block_le hq size)

lemma block_div (b : ℕ) {i : ℕ} (hi : i < size) : (b * size + i) / size = b := by
  rw [Nat.mul_comm, Nat.mul_add_div (Nat.zero_lt_of_lt hi), Nat.div_eq_of_lt hi, Nat.add_zero]

lemma block_mod (b : ℕ) {i : ℕ} (hi : i < size) : (b * size + i) % size = i := by
  rw [Nat.mul_comm, Nat.mul_add_mod, Nat.mod_eq_of_lt hi]

lemma place_inj {b b' r r' : ℕ} (hr : r < size) (hr' : r' < size) (h : b * size + r = b' * size + r') :
    b = b' ∧ r = r' := by
  have hb := congrArg (· / size) h
  have hi := congrArg (· % size) h
  simp only [block_div _ hr, block_div _ hr', block_mod _ hr, block_mod _ hr'] at hb hi
  exact ⟨hb, hi⟩

lemma div_lt_blocks {i : ℕ} (hsize : 0 < size) (hi : i < n) : i / size < (n + size - 1) / size := by
  rw [Nat.lt_iff_add_one_le, Nat.le_div_iff_mul_le hsize, Nat.add_one_mul]
  have hle := Nat.div_mul_le_self i size
  omega

lemma block_bounds_ne (hne : c ≠ c') (size : ℕ) : (c + 1) * size ≤ c' * size ∨ (c' + 1) * size ≤ c * size := by
  rcases Nat.lt_or_gt_of_ne hne with h | h
  · exact .inl (Nat.mul_le_mul_right size h)
  · exact .inr (Nat.mul_le_mul_right size h)

lemma block_overwrite_self (h : (c + 1) * size ≤ l.length) (hv : v.length = size) :
    block size (overwrite l (c * size) v) c = v := by
  rw [Nat.add_one_mul] at h
  refine ext_getElem? fun i => ?_
  rw [getElem?_block, getElem?_overwrite (by omega)]
  by_cases hi : i < size
  · rw [if_pos hi, if_pos (by omega), Nat.add_sub_cancel_left]
  · rw [if_neg hi, getElem?_eq_none (by omega)]

lemma block_overwrite_other (h : (c + 1) * size ≤ l.length) (hv : v.length = size)
    (hne : c' ≠ c) : block size (overwrite l (c * size) v) c' = block size l c' := by
  have hapart := block_bounds_ne hne size
  simp only [Nat.add_one_mul] at h hapart
  refine ext_getElem? fun i => ?_
  rw [getElem?_block, getElem?_block, getElem?_overwrite (by omega)]
  by_cases hi : i < size
  · rw [if_pos hi, if_pos hi, if_neg (by omega)]
  · rw [if_neg hi, if_neg hi]

lemma block_of_lt {j : ℕ} (hj : j < n * size) : j / size < n ∧ j % size < size ∧ j / size * size + j % size = j := by
  have hsize : 0 < size := Nat.pos_of_ne_zero fun h => by simp [h] at hj
  exact ⟨Nat.div_lt_of_lt_mul (by rwa [Nat.mul_comm] at hj), Nat.mod_lt j hsize, Nat.div_add_mod' j size⟩

lemma ext_blocks (hl : l.length = n * size) (hl' : l'.length = n * size)
    (h : ∀ c < n, block size l c = block size l' c) : l = l' := by
  refine ext_getElem? fun j => ?_
  by_cases hj : j < n * size
  · obtain ⟨hc, hi, hji⟩ := block_of_lt hj
    have hblock := congrArg (fun b => b[j % size]?) (h _ hc)
    simp only [getElem?_block, if_pos hi, hji] at hblock
    exact hblock
  · rw [getElem?_eq_none (by omega), getElem?_eq_none (by omega)]

/-- A loop that does nothing from `n` on. -/
lemma flatMap_bounded {m : ℕ} (h : n ≤ m) {f : ℕ → List α} (hout : ∀ i, n ≤ i → f i = []) :
    (range m).flatMap f = (range n).flatMap f := by
  obtain ⟨k, rfl⟩ := Nat.exists_eq_add_of_le h
  have hrest : ((range k).map fun i => n + i).flatMap f = [] := by
    rw [flatMap_eq_nil_iff]
    intro i hi
    obtain ⟨j, -, rfl⟩ := mem_map.mp hi
    exact hout _ (Nat.le_add_right n j)
  rw [range_add, flatMap_append, hrest, append_nil]

lemma filter_range_of_le {mask : ℕ → Bool} {k n : ℕ} (hk : ∀ j, mask j = true → j < k) (hn : k ≤ n) :
    (range n).filter mask = (range k).filter mask := by
  obtain ⟨d, rfl⟩ := Nat.exists_eq_add_of_le hn
  rw [range_add, filter_append, append_right_eq_self, filter_eq_nil_iff]
  intro j hj hm
  obtain ⟨i, -, rfl⟩ := mem_map.mp hj
  exact absurd (hk _ hm) (by omega)

lemma length_flatMap_range {f : ℕ → List α} (hf : ∀ b < n, (f b).length = size) :
    ((range n).flatMap f).length = n * size := by
  induction n with
  | zero => simp
  | succ n ih =>
    rw [range_succ, flatMap_append, length_append, ih fun b hb => hf b (by omega),
      flatMap_singleton, hf n (Nat.lt_succ_self n), Nat.add_one_mul]

lemma getElem?_flatMap_range {f : ℕ → List α} (hf : ∀ b < n, (f b).length = size) {b i : ℕ} (hb : b < n)
    (hi : i < size) : ((range n).flatMap f)[b * size + i]? = (f b)[i]? := by
  induction n with
  | zero => exact absurd hb (Nat.not_lt_zero b)
  | succ n ih =>
    have hprev : ∀ b < n, (f b).length = size := fun b hb => hf b (by omega)
    have hlen := length_flatMap_range hprev
    rw [range_succ, flatMap_append, flatMap_singleton]
    rcases Nat.lt_succ_iff_lt_or_eq.mp hb with hlt | rfl
    · have hle := Nat.mul_le_mul_right size (Nat.succ_le_of_lt hlt)
      rw [Nat.succ_mul] at hle
      rw [getElem?_append_left (by omega)]
      exact ih hprev hlt
    · rw [getElem?_append_right (by omega), hlen, Nat.add_sub_cancel_left]

/-! ## Ranges of blocks -/

/-- `n` blocks of `w` numbers one after another. -/
lemma range_blocks (w : ℕ) : ∀ n : ℕ, ((range n).flatMap fun b => (range w).map fun r => b * w + r) = range (n * w)
  | 0 => by rw [Nat.zero_mul]; rfl
  | n + 1 => by
    rw [range_succ, flatMap_append, range_blocks w n, Nat.add_one_mul, range_add,
      flatMap_singleton]

lemma flatMap_blocks (n w : ℕ) (f : ℕ → List α) :
    ((range n).flatMap fun b => (range w).flatMap fun i => f (b * w + i)) = (range (n * w)).flatMap f := by
  rw [← range_blocks, flatMap_assoc]
  refine flatMap_congr fun b _ => ?_
  rw [flatMap_map]

lemma map_blocks (n w : ℕ) (f : ℕ → α) :
    ((range n).flatMap fun b => (range w).map fun i => f (b * w + i)) = (range (n * w)).map f := by
  rw [← range_blocks, map_flatMap]
  refine flatMap_congr fun b _ => ?_
  rw [map_map]
  rfl

/-- Rows of `w` places each, one row for every member of a list. -/
lemma map_rows {β : Type} (l : List β) (d : β) (w : ℕ) (f : β → ℕ → α) :
    (range (l.length * w)).map (fun c => f (l.getD (c / w) d) (c % w)) = l.flatMap fun g => (range w).map (f g) := by
  rw [← map_blocks]
  have hlist : l = (range l.length).map fun b => l.getD b d := by
    refine ext_getElem (by simp) fun b hb _ => ?_
    simp [getD_eq_getElem?_getD, hb]
  conv_rhs => rw [hlist, flatMap_map]
  refine flatMap_congr fun b _ => map_congr_left fun i hi => ?_
  rw [block_div b (mem_range.mp hi), block_mod b (mem_range.mp hi)]

end VKernels.Blocks
