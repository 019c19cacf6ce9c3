import VKernels.Lib.TopK

/-!
# Partial selection

`std::nth_element` by its contract: a permutation after which nothing behind a place comes before anything in front
of it.

* `StrictWeak` — the comparators it takes; `beats_strictWeak`.
* `bestLanes` — the `k` best of `n` lanes by a partial selection, all of them where there are no more; `bestLanes_spec`.
-/

namespace VKernels.Selection

open TopK
open List

/-- A strict weak order. -/
structure StrictWeak {A : Type} (before : A → A → Bool) : Prop where
  asymm : ∀ a b, before a b = true → before b a = false
  split : ∀ a b c, before a c = true → before a b = true ∨ before b c = true

/-- An implementation of `nth_element(first, first + k, last, before)`. -/
structure NthElement (A : Type) where
  run : (A → A → Bool) → ℕ → List A → List A
  perm : ∀ before k l, StrictWeak before → (run before k l).Perm l
  parted : ∀ before k l, StrictWeak before →
    ∀ x ∈ (run before k l).take k, ∀ y ∈ (run before k l).drop k, before y x = false

/-- By a sort of the whole list. -/
def NthElement.bySort (A : Type) : NthElement A where
  run before _ l := l.mergeSort fun a b => !before b a
  perm before _ l _ := mergeSort_perm l _
  parted before k l h x hx y hy := by
    have htrans (a b c : A) (hab : (!before b a) = true) (hbc : (!before c b) = true) : (!before c a) = true := by
      simp only [Bool.not_eq_true'] at *
      by_contra hca
      obtain hcb | hba := h.split c b a (by simpa using hca)
      · exact absurd hcb (by simp [hbc])
      · exact absurd hba (by simp [hab])
    have htotal (a b : A) : ((!before b a) || (!before a b)) = true := by
      cases hab : before a b with
      | false => simp
      | true => simp [h.asymm a b hab]
    have hsorted := pairwise_mergeSort htrans htotal l
    rw [← take_append_drop k (l.mergeSort fun a b => !before b a), pairwise_append] at hsorted
    simpa using hsorted.2.2 x hx y hy

section

variable {V : Type} [LinearOrder V] {n k : ℕ} {f : ℕ → V}

lemma beats_strictWeak (f : ℕ → V) : StrictWeak fun a b => decide (Beats f a b) where
  asymm a b h := decide_eq_false (of_decide_eq_true h).asymm
  split a b c h := by
    have hac : Beats f a c := of_decide_eq_true h
    by_cases hab : Beats f a b
    · exact .inl (decide_eq_true hab)
    · refine .inr (decide_eq_true ?_)
      by_cases heq : a = b
      · exact heq ▸ hac
      · exact (beats_of_not (Ne.symm heq) hab).trans hac

/-- **What a partial selection puts in front**: the lanes that fewer than `k` lanes beat. -/
theorem mem_take_iff {l : List ℕ} (hperm : l.Perm (range n)) (hk : k ≤ n)
    (hparted : ∀ x ∈ l.take k, ∀ y ∈ l.drop k, ¬Beats f y x) {e : ℕ} (he : e < n) : e ∈ l.take k ↔ Chosen n f k e := by
  have hnodup : l.Nodup := hperm.nodup_iff.mpr nodup_range
  have hmem {u : ℕ} : u < n ↔ u ∈ l.take k ∨ u ∈ l.drop k := by
    rw [← mem_append, take_append_drop, hperm.mem_iff, mem_range]
  have hcard : (l.take k).toFinset.card = k := by
    rw [toFinset_card_of_nodup (hnodup.sublist (take_sublist k l)), length_take, hperm.length_eq,
      length_range, min_eq_left hk]
  rw [← mem_toFinset]
  refine mem_iff_chosen hcard (fun u hu => ?_) (fun x hx u hu hbeats => ?_) he
  · exact hmem.mpr (.inl (mem_toFinset.mp hu))
  · -- whatever beats it is in front with it
    obtain hfront | hback := hmem.mp hu
    · exact mem_toFinset.mpr hfront
    · exact absurd hbeats (hparted x (mem_toFinset.mp hx) u hback)

/-- The `k` best of `n` lanes, in some order. -/
def bestLanes (nth : NthElement ℕ) (k n : ℕ) (f : ℕ → V) : List ℕ :=
  if k < n then (nth.run (fun a b => decide (Beats f a b)) k (range n)).take k else range n

lemma bestLanes_spec (nth : NthElement ℕ) (k n : ℕ) (f : ℕ → V) :
    (bestLanes nth k n f).Nodup ∧ (bestLanes nth k n f).length = min n k ∧
      ∀ e, e ∈ bestLanes nth k n f ↔ e < n ∧ Chosen n f k e := by
  unfold bestLanes
  split
  · rename_i hk
    have hperm := nth.perm (fun a b => decide _) k (range n) (beats_strictWeak f)
    have hparted := nth.parted (fun a b => decide _) k (range n) (beats_strictWeak f)
    simp only [decide_eq_false_iff_not] at hparted
    refine ⟨(hperm.nodup_iff.mpr nodup_range).sublist (take_sublist k _), ?_, fun e => ?_⟩
    · rw [length_take, hperm.length_eq, length_range, min_comm]
    · constructor
      · intro he
        have hlt : e < n := mem_range.mp (hperm.mem_iff.mp (mem_of_mem_take he))
        exact ⟨hlt, (mem_take_iff hperm hk.le hparted hlt).mp he⟩
      · rintro ⟨hlt, hchosen⟩
        exact (mem_take_iff hperm hk.le hparted hlt).mpr hchosen
  · rename_i hk
    refine ⟨nodup_range, by rw [length_range]; omega, fun e => ?_⟩
    rw [mem_range]
    refine ⟨fun he => ⟨he, ?_⟩, fun h => h.1⟩
    have hsub : ((Finset.range n).filter fun u => Beats f u e) ⊂ Finset.range n :=
      (Finset.ssubset_iff_of_subset (Finset.filter_subset _ _)).mpr
        ⟨e, Finset.mem_range.mpr he, fun h => (Finset.mem_filter.mp h).2.ne rfl⟩
    have hlt := Finset.card_lt_card hsub
    rw [Finset.card_range] at hlt
    exact lt_of_lt_of_le hlt (Nat.not_lt.mp hk)

end

end VKernels.Selection
