import VKernels.Lib.Blocks
import Mathlib.Data.BitVec
import Mathlib.Tactic.Linarith

/-!
# Lane programs

Programs that work on a vector of lanes at a time, over memory with integer addresses.

* `Holds` — a list laid out in memory; `holds_compact` — ordered compaction by a running count,
  appended to what is there.
-/

namespace VKernels.VectorLanes

open List
open Function (Injective update update_of_ne update_self)

/-- Memory read and written at integer addresses. -/
abbrev Buffer (α : Type) := ℤ → α

variable {α : Type}

/-- A masked store of the lanes below `n`. -/
def storeLanes (buf : Buffer α) (n : ℕ) (mask : ℕ → Bool) (addr : ℕ → ℤ) (val : ℕ → α) : Buffer α :=
  (List.range n).foldl (fun b l => if mask l then update b (addr l) (val l) else b) buf

/-- A masked atomic or of the lanes below `n`. -/
def orLanes {w : ℕ} (buf : Buffer (BitVec w)) (n : ℕ) (mask : ℕ → Bool) (addr : ℕ → ℤ)
    (val : ℕ → BitVec w) : Buffer (BitVec w) :=
  (List.range n).foldl (fun b l => if mask l then update b (addr l) (b (addr l) ||| val l) else b) buf

/-- The running count of a mask, the lane itself included. -/
def cumsum (mask : ℕ → Bool) (l : ℕ) : ℕ := (List.range (l + 1)).countP mask

/-- The least value of the lanes below `n`. -/
def vecMin [LinearOrder α] (f : ℕ → α) (n : ℕ) : α :=
  (List.range n).foldl (fun m h => min m (f h)) (f 0)

def Holds (buf : Buffer α) (base : ℤ) (L : List α) : Prop :=
  ∀ i (h : i < L.length), buf (base + i) = L[i]

/-! ## Stores -/

section

variable (buf : Buffer α) (mask : ℕ → Bool) (addr : ℕ → ℤ) (val : ℕ → α)

lemma storeLanes_succ (n : ℕ) : storeLanes buf (n + 1) mask addr val =
      if mask n then update (storeLanes buf n mask addr val) (addr n) (val n)
      else storeLanes buf n mask addr val := by
  rw [storeLanes, range_succ, foldl_concat]
  rfl

lemma storeLanes_frame {n : ℕ} {a : ℤ} (h : ∀ l < n, mask l = true → addr l ≠ a) :
    storeLanes buf n mask addr val a = buf a := by
  induction n with
  | zero => rfl
  | succ n ih =>
    have ih := ih fun l hl => h l (Nat.lt_succ_of_lt hl)
    rw [storeLanes_succ]
    split
    · rename_i hm
      rw [update_of_ne (h n (Nat.lt_succ_self n) hm).symm, ih]
    · exact ih

lemma storeLanes_own {n l : ℕ} (hl : l < n) (hm : mask l = true)
    (hinj : ∀ k < n, mask k = true → addr k = addr l → k = l) : storeLanes buf n mask addr val (addr l) = val l := by
  induction n with
  | zero => omega
  | succ n ih =>
    rw [storeLanes_succ]
    by_cases hln : l = n
    · subst hln
      rw [if_pos hm, update_self]
    · have ih := ih (by omega) fun k hk => hinj k (Nat.lt_succ_of_lt hk)
      split
      · rename_i hmn
        rw [update_of_ne, ih]
        intro heq
        exact hln (hinj n (Nat.lt_succ_self n) hmn heq.symm).symm
      · exact ih

/-- A chunk of positions from `n` on stored each at its own place, read at the place of `j`. -/
lemma storeLanes_place {place : ℕ → ℤ} (hplace : Injective place) (n m j : ℕ) :
    storeLanes buf m mask (fun l => place (n + l)) val (place j) =
      if n ≤ j ∧ j < n + m ∧ mask (j - n) = true then val (j - n) else buf (place j) := by
  by_cases h : n ≤ j ∧ j < n + m ∧ mask (j - n) = true
  · obtain ⟨hlo, hhi, hm⟩ := h
    rw [if_pos ⟨hlo, hhi, hm⟩]
    have hown := storeLanes_own buf mask (fun l => place (n + l)) val (n := m)
      (show j - n < m by omega) hm fun k _ _ hk => by
        have hk := hplace hk
        omega
    rwa [show n + (j - n) = j by omega] at hown
  · rw [if_neg h]
    refine storeLanes_frame buf mask _ val fun l hl hm heq => h ?_
    have hlj : n + l = j := hplace heq
    exact ⟨by omega, by omega, by rwa [show j - n = l by omega]⟩

lemma storeLanes_at (base : ℤ) (n m j : ℕ) : storeLanes buf m mask (fun l => base + n + l) val (base + j) =
      if n ≤ j ∧ j < n + m ∧ mask (j - n) = true then val (j - n) else buf (base + j) := by
  have hplace : Injective fun j : ℕ => base + (j : ℤ) := fun a b h => by
    have h : base + (a : ℤ) = base + (b : ℤ) := h
    omega
  have h := storeLanes_place buf mask val hplace n m j
  simp only [Nat.cast_add, ← add_assoc] at h
  exact h

lemma storeLanes_off (base : ℤ) (n m : ℕ) {a : ℤ} (h : ∀ j < n + m, a ≠ base + (j : ℕ)) :
    storeLanes buf m mask (fun l => base + n + l) val a = buf a := by
  refine storeLanes_frame buf mask _ val fun l hl _ heq => h (n + l) (by omega) ?_
  omega

end

/-! ## Ordered compaction -/

section

variable {buf : Buffer α}

lemma Holds.append {base : ℤ} {L M : List α} (h : Holds buf base L) (h' : Holds buf (base + L.length) M) :
    Holds buf base (L ++ M) := by
  intro i hi
  by_cases hL : i < L.length
  · rw [getElem_append_left hL]
    exact h i hL
  · rw [getElem_append_right (by omega), ← h']
    congr 1
    omega

lemma cumsum_eq_succ {mask : ℕ → Bool} {l : ℕ} (h : mask l = true) : cumsum mask l = (range l).countP mask + 1 := by
  simp [cumsum, range_succ, countP_append, h]

lemma filter_range_chunk (mask : ℕ → Bool) (n m : ℕ) : (range (n + m)).filter mask =
      (range n).filter mask ++ ((range m).filter fun l => mask (n + l)).map (n + ·) := by
  rw [range_add, filter_append, filter_map]
  rfl

lemma storeLanes_compact (buf : Buffer α) (mask : ℕ → Bool) (base : ℤ) (val : ℕ → α) (n : ℕ) :
    Holds (storeLanes buf n mask (fun l => base + cumsum mask l - 1) val) base (((range n).filter mask).map val) := by
  induction n with
  | zero =>
    intro i hi
    simp at hi
  | succ n ih =>
    rw [storeLanes_succ]
    by_cases hm : mask n = true
    · rw [if_pos hm, range_succ, filter_append, map_append]
      refine Holds.append ?_ ?_
      · intro i hi
        rw [update_of_ne]
        · exact ih i hi
        · rw [cumsum_eq_succ hm, countP_eq_length_filter]
          rw [length_map] at hi
          omega
      · intro i hi
        simp only [filter_cons, hm, filter_nil, if_true, map_cons, map_nil, length_singleton] at hi
        have hi0 : i = 0 := by omega
        subst hi0
        have haddr : base + (((range n).filter mask).map val).length + ((0 : ℕ) : ℤ) = base + cumsum mask n - 1 := by
          rw [cumsum_eq_succ hm, countP_eq_length_filter, length_map]
          omega
        rw [haddr, update_self]
        simp [hm]
    · rw [if_neg hm, range_succ, filter_append]
      simpa [hm] using ih

lemma holds_compact {base : ℤ} {L : List α} (h : Holds buf base L) (mask : ℕ → Bool) (val : ℕ → α) (n : ℕ) :
    Holds (storeLanes buf n mask (fun l => base + L.length + cumsum mask l - 1) val) base
      (L ++ ((range n).filter mask).map val) := by
  refine Holds.append ?_ (storeLanes_compact buf mask (base + L.length) val n)
  intro i hi
  rw [storeLanes_frame, h]
  intro l hl hm
  rw [cumsum_eq_succ hm]
  omega

lemma Holds.foldl {S : Type} {base : ℤ} {L : List α} (h : Holds buf base L) (f : S → α → S) (s : S) :
    (range L.length).foldl (fun s (i : ℕ) => f s (buf (base + i))) s = L.foldl f s := by
  induction L using reverseRecOn generalizing s with
  | nil => rfl
  | append_singleton L x ih =>
    have hL : Holds buf base L := by
      intro i hi
      have hlast := h i (by rw [length_append]; omega)
      rwa [getElem_append_left hi] at hlast
    have hx : buf (base + (L.length : ℕ)) = x := by
      have hlast := h L.length (by simp)
      simpa using hlast
    rw [length_append, length_singleton, range_succ, foldl_append, ih hL, foldl_concat, foldl_cons, foldl_nil, hx]

end

/-! ## Reductions -/

section

variable [LinearOrder α]

lemma vecMin_succ (f : ℕ → α) (n : ℕ) : vecMin f (n + 1) = min (vecMin f n) (f n) := by
  rw [vecMin, range_succ, foldl_append]
  rfl

variable {n : ℕ}

lemma vecMin_le (f : ℕ → α) {h : ℕ} (hh : h < n) : vecMin f n ≤ f h := by
  induction n with
  | zero => omega
  | succ n ih =>
    rw [vecMin_succ]
    by_cases hn : h = n
    · subst hn
      exact min_le_right _ _
    · exact (min_le_left _ _).trans (ih (by omega))

lemma vecMin_mem (f : ℕ → α) (hn : 0 < n) : ∃ h < n, vecMin f n = f h := by
  induction n with
  | zero => omega
  | succ n ih =>
    rw [vecMin_succ]
    rcases eq_zero_or_pos n with rfl | hpos
    · exact ⟨0, one_pos, by simp [vecMin]⟩
    · obtain ⟨h, hh, heq⟩ := ih hpos
      rcases min_choice (vecMin f n) (f n) with hm | hm
      · exact ⟨h, by omega, by rw [hm, heq]⟩
      · exact ⟨n, by omega, hm⟩

lemma vecMin_eq {f : ℕ → α} {x : α} (hle : ∀ h < n, x ≤ f h) (hmem : ∃ h < n, f h = x) : vecMin f n = x := by
  obtain ⟨h, hh, rfl⟩ := hmem
  obtain ⟨k, hk, heq⟩ := vecMin_mem f (Nat.zero_lt_of_lt hh)
  exact le_antisymm (vecMin_le f hh) (heq ▸ hle k hk)

lemma vecMin_pad {f : ℕ → α} {m : ℕ} {x : α} (hm : 0 < m) (hmn : m ≤ n) (hx : ∀ h < m, f h ≤ x) :
    vecMin (fun h => if h < m then f h else x) n = vecMin f m := by
  obtain ⟨k, hk, heq⟩ := vecMin_mem f hm
  refine vecMin_eq (fun h _ => ?_) ⟨k, by omega, by rw [if_pos hk, heq]⟩
  split
  · exact vecMin_le f ‹_›
  · exact heq ▸ hx k hk

/-- The least lane under a test, over any number of lanes that covers the test; that number itself
when there is none. -/
lemma vecMin_first {p : ℕ → Bool} {m : ℕ} (hn : 0 < n) (hmn : m ≤ n) (hp : ∀ h, p h = true → h < m) :
    vecMin (fun h => if p h then h else n) n = ((range m).find? p).getD n := by
  cases hfind : (range m).find? p with
  | none =>
    rw [find?_range_eq_none] at hfind
    refine vecMin_eq (fun h hh => ?_) ⟨0, hn, ?_⟩
    · have hnot : ¬ p h = true := fun hph => by simpa [hph] using hfind h (hp h hph)
      rw [if_neg hnot]
      rfl
    · have hnot : ¬ p 0 = true := fun hph => by simpa [hph] using hfind 0 (hp 0 hph)
      rw [if_neg hnot]
      rfl
  | some i =>
    rw [find?_range_eq_some] at hfind
    obtain ⟨hpi, him, hfirst⟩ := hfind
    have him : i < m := mem_range.mp him
    refine vecMin_eq (fun h hh => ?_) ⟨i, by omega, by rw [if_pos hpi]; rfl⟩
    show i ≤ _
    split
    · rename_i hph
      by_contra hlt
      simpa [hph] using hfirst h (by omega)
    · omega

end

/-! ## Bit sets -/

section

variable {w : ℕ} (buf : Buffer (BitVec w)) (mask : ℕ → Bool) (addr : ℕ → ℤ) (val : ℕ → BitVec w)

lemma orLanes_succ (n : ℕ) : orLanes buf (n + 1) mask addr val = if mask n then
        update (orLanes buf n mask addr val) (addr n) (orLanes buf n mask addr val (addr n) ||| val n)
      else orLanes buf n mask addr val := by
  rw [orLanes, range_succ, foldl_concat]
  rfl

lemma orLanes_bit (n : ℕ) (a : ℤ) (i : ℕ) : (orLanes buf n mask addr val a).getLsbD i = true ↔
      (buf a).getLsbD i = true ∨ ∃ l < n, mask l = true ∧ addr l = a ∧ (val l).getLsbD i = true := by
  induction n with
  | zero => simp [orLanes]
  | succ n ih =>
    rw [orLanes_succ]
    by_cases hm : mask n = true
    · rw [if_pos hm]
      by_cases ha : a = addr n
      · subst ha
        rw [update_self, BitVec.getLsbD_or, Bool.or_eq_true, ih]
        constructor
        · rintro ((h | ⟨l, hl, h⟩) | h)
          · exact .inl h
          · exact .inr ⟨l, Nat.lt_succ_of_lt hl, h⟩
          · exact .inr ⟨n, Nat.lt_succ_self n, hm, rfl, h⟩
        · rintro (h | ⟨l, hl, h⟩)
          · exact .inl (.inl h)
          · by_cases hln : l = n
            · subst hln
              exact .inr h.2.2
            · exact .inl (.inr ⟨l, by omega, h⟩)
      · rw [update_of_ne ha, ih]
        refine or_congr_right ⟨fun ⟨l, hl, h⟩ => ⟨l, Nat.lt_succ_of_lt hl, h⟩, fun ⟨l, hl, h⟩ => ⟨l, ?_, h⟩⟩
        have hln : l ≠ n := fun hln => ha (by rw [← h.2.1, hln])
        omega
    · rw [if_neg hm, ih]
      refine or_congr_right ⟨fun ⟨l, hl, h⟩ => ⟨l, Nat.lt_succ_of_lt hl, h⟩, fun ⟨l, hl, h⟩ => ⟨l, ?_, h⟩⟩
      have hln : l ≠ n := fun hln => hm (hln ▸ h.1)
      omega

/-- Shifted down and masked, a word shows one of its bits. -/
lemma testBit_word (x : BitVec 32) {i : ℕ} (hi : i < 32) :
    (x.sshiftRight i &&& 1#32 ≠ 0#32) ↔ x.getLsbD i = true := by
  have hbit : ∀ k < 32, (x.sshiftRight i &&& 1#32).getLsbD k = (decide (k = 0) && x.getLsbD i) := by
    intro k hk
    rw [BitVec.getLsbD_and, BitVec.getLsbD_sshiftRight]
    cases k with
    | zero => simp [hi]
    | succ k => simp
  constructor
  · intro hne
    by_contra hx
    apply hne
    refine BitVec.eq_of_getLsbD_eq fun k hk => ?_
    rw [hbit k hk, Bool.eq_false_of_not_eq_true hx]
    simp
  · intro hx hzero
    have h0 := hbit 0 (by omega)
    rw [hzero, hx] at h0
    simp at h0

end

end VKernels.VectorLanes
