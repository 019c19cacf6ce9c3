import Mathlib.Algebra.Order.Ring.Nat
import VKernels.Lib.TileLoops

/-!
# Segments of a sorted list

Consecutive segments given by their lengths, and the segments that the keys of a sorted list form.

* `segmentOf_spec`, `segmentOf_eq` — it contains the position, and no other does.
* `argsort` — indices by key, equal keys by index; `sum_argsort` — a sum over the sorted indices.
-/

namespace VKernels.Segments

open List hiding not_lt

/-- The exclusive prefix sum. -/
def start (lens : List ℕ) (e : ℕ) : ℕ := (lens.take e).sum

/-- How many segments end at or before the position. -/
def segmentOf (lens : List ℕ) (x : ℕ) : ℕ :=
  (range lens.length).countP fun e => decide (start lens (e + 1) ≤ x)

section

variable (lens : List ℕ)

@[simp] lemma start_zero : start lens 0 = 0 := rfl

lemma start_length : start lens lens.length = lens.sum := by rw [start, take_length]

lemma start_succ (e : ℕ) : start lens (e + 1) = start lens e + lens.getD e 0 := by
  rw [start, take_add_one, sum_append, start, getD_eq_getElem?_getD]
  cases lens[e]? <;> simp

lemma start_mono : Monotone (start lens) :=
  monotone_nat_of_le_succ fun e => by rw [start_succ]; exact Nat.le_add_right _ _

lemma start_le_sum (e : ℕ) : start lens e ≤ lens.sum := by
  rcases le_total e lens.length with h | h
  · rw [← start_length]
    exact start_mono lens h
  · rw [start, take_of_length_le h]

variable {lens}

variable {x : ℕ}

lemma exists_segment (hx : x < lens.sum) : ∃ e < lens.length, start lens e ≤ x ∧ x < start lens (e + 1) := by
  have hex : ∃ e, x < start lens e := ⟨lens.length, by rwa [start_length]⟩
  have hfind := Nat.find_spec hex
  cases hn : Nat.find hex with
  | zero =>
    rw [hn] at hfind
    exact absurd hfind (Nat.not_lt_zero x)
  | succ e =>
    rw [hn] at hfind
    have hle : start lens e ≤ x := by
      by_contra h
      have := Nat.find_min' hex (Nat.lt_of_not_le h)
      omega
    refine ⟨e, ?_, hle, hfind⟩
    by_contra h
    rw [start_succ, getD_eq_getElem?_getD, getElem?_eq_none (Nat.le_of_not_lt h)] at hfind
    simp only [Option.getD_none] at hfind
    omega

lemma countP_range_le {p : ℕ → Bool} {n e : ℕ} (he : e ≤ n) (hp : ∀ i < n, p i = true ↔ i < e) :
    (range n).countP p = e := by
  induction n generalizing e with
  | zero => simp [Nat.le_zero.mp he]
  | succ n ih =>
    rw [range_succ, countP_append, countP_singleton]
    by_cases h : e = n + 1
    · have hn := (hp n (Nat.lt_succ_self n)).mpr (by omega)
      rw [ih le_rfl fun i hi => ⟨fun _ => hi, fun _ => (hp i (by omega)).mpr (by omega)⟩, if_pos hn, h]
    · have hn : ¬ p n = true := fun hpn => absurd ((hp n (Nat.lt_succ_self n)).mp hpn) (by omega)
      rw [ih (by omega) fun i hi => hp i (by omega), if_neg hn, add_zero]

lemma segmentOf_eq {e : ℕ} (he : e < lens.length) (hlo : start lens e ≤ x) (hhi : x < start lens (e + 1)) :
    segmentOf lens x = e := by
  apply countP_range_le (le_of_lt he)
  intro i _
  rw [decide_eq_true_eq]
  constructor
  · intro hi
    by_contra h
    have := start_mono lens (show e + 1 ≤ i + 1 by omega)
    omega
  · intro hi
    exact (start_mono lens (show i + 1 ≤ e from hi)).trans hlo

lemma segmentOf_spec (hx : x < lens.sum) :
    segmentOf lens x < lens.length ∧ start lens (segmentOf lens x) ≤ x ∧ x < start lens (segmentOf lens x + 1) := by
  obtain ⟨e, he, hlo, hhi⟩ := exists_segment hx
  rw [segmentOf_eq he hlo hhi]
  exact ⟨he, hlo, hhi⟩

lemma lt_segmentOf_iff {e : ℕ} (he : e < lens.length) : e < segmentOf lens x ↔ start lens (e + 1) ≤ x := by
  rcases lt_or_ge x lens.sum with hx | hx
  · obtain ⟨-, hlo, hhi⟩ := segmentOf_spec hx
    constructor
    · exact fun h => (start_mono lens h).trans hlo
    · intro h
      by_contra hle
      have := start_mono lens (show segmentOf lens x + 1 ≤ e + 1 by omega)
      omega
  · have hend (i : ℕ) : start lens (i + 1) ≤ x := (start_le_sum lens (i + 1)).trans hx
    have hall : segmentOf lens x = lens.length :=
      countP_range_le le_rfl fun i hi => iff_of_true (decide_eq_true (hend i)) hi
    rw [hall]
    exact iff_of_true he (hend e)

end

section

variable {α : Type} {key : α → ℤ} {l : List α}

lemma getElem_lt_iff (hl : l.Pairwise fun a b => key a ≤ key b) {p : ℕ} (hp : p < l.length) (x : ℤ) :
    key l[p] < x ↔ p < l.countP fun a => decide (key a < x) := by
  induction l generalizing p with
  | nil => exact absurd hp (Nat.not_lt_zero p)
  | cons a l ih =>
    obtain ⟨hle, htail⟩ := pairwise_cons.mp hl
    by_cases ha : key a < x
    · rw [countP_cons_of_pos (by simpa using ha)]
      cases p with
      | zero => simpa using ha
      | succ p =>
        rw [getElem_cons_succ, ih htail]
        omega
    · have hnone : l.countP (fun a => decide (key a < x)) = 0 := by
        rw [countP_eq_zero]
        intro b hb hlt
        have := hle b hb
        rw [decide_eq_true_eq] at hlt
        omega
      rw [countP_cons_of_neg (by simpa using ha), hnone]
      simp only [Nat.not_lt_zero, iff_false, not_lt]
      cases p with
      | zero =>
        exact not_lt.mp ha
      | succ p =>
        exact (not_lt.mp ha).trans (hle _ (getElem_mem _))

end

/-! ## Sorting indices -/

section

/-- By key, and by index where the keys are equal. -/
def before (key : ℕ → ℤ) (a b : ℕ) : Prop := key a < key b ∨ key a = key b ∧ a ≤ b

instance (key : ℕ → ℤ) : DecidableRel (before key) := fun _ _ => inferInstanceAs (Decidable (_ ∨ _))

instance (key : ℕ → ℤ) : Std.Total (before key) := ⟨fun a b => by unfold before; omega⟩

instance (key : ℕ → ℤ) : IsTrans ℕ (before key) := ⟨fun a b c => by unfold before; omega⟩

/-- `torch.argsort(key, stable=True)` of `n` keys. -/
def argsort (key : ℕ → ℤ) (n : ℕ) : List ℕ := (range n).insertionSort (before key)

variable (key : ℕ → ℤ) (n : ℕ)

lemma argsort_perm : (argsort key n).Perm (range n) := perm_insertionSort _ _

@[simp] lemma argsort_length : (argsort key n).length = n := by
  rw [(argsort_perm key n).length_eq, length_range]

lemma mem_argsort {s : ℕ} : s ∈ argsort key n ↔ s < n := by rw [(argsort_perm key n).mem_iff, mem_range]

lemma argsort_sorted : (argsort key n).Pairwise fun a b => key a ≤ key b := by
  apply (pairwise_insertionSort _ _).imp
  rintro a b (h | ⟨h, -⟩) <;> omega

lemma sum_argsort {M : Type} [AddCommMonoid M] (f : ℕ → M) :
    ∑ p ∈ Finset.range n, f ((argsort key n).getD p 0) = ∑ s ∈ Finset.range n, f s := by
  have hlist := TileLoops.sum_getD (argsort key n) 0 f
  rw [argsort_length, ((argsort_perm key n).map f).sum_eq] at hlist
  exact hlist

end

end VKernels.Segments
