import Mathlib.Algebra.BigOperators.Group.Finset.Basic

/-!
# Atomic additions

Additions to memory in any order.

* `addAll` — one after another; `addAll_apply`: the sum of what goes to the location.
-/

namespace VKernels.AtomicAdds

variable {L V : Type} [DecidableEq L] [AddCommMonoid V]

/-- The additions of a list, one after another. -/
def addAll (adds : List (L × V)) (m : L → V) : L → V :=
  adds.foldl (fun m a => Function.update m a.1 (m a.1 + a.2)) m

/-- What goes to a location. -/
def added (adds : List (L × V)) (l : L) : V := (adds.map fun a => if a.1 = l then a.2 else 0).sum

@[simp] lemma added_nil (l : L) : added ([] : List (L × V)) l = 0 := rfl

lemma added_cons (a : L × V) (adds : List (L × V)) (l : L) :
    added (a :: adds) l = (if a.1 = l then a.2 else 0) + added adds l := rfl

lemma added_append (adds adds' : List (L × V)) (l : L) : added (adds ++ adds') l = added adds l + added adds' l := by
  simp [added]

lemma added_flatMap {T : Type} (ts : List T) (f : T → List (L × V)) (l : L) :
    added (ts.flatMap f) l = (ts.map fun t => added (f t) l).sum := by
  induction ts with
  | nil => rfl
  | cons t ts ih => rw [List.flatMap_cons, added_append, ih, List.map_cons, List.sum_cons]

lemma added_range (n : ℕ) (f : ℕ → List (L × V)) (l : L) :
    added ((List.range n).flatMap f) l = ∑ i ∈ Finset.range n, added (f i) l := added_flatMap _ f l

def addIf (mask : Prop) [Decidable mask] (loc : L) (v : V) : List (L × V) := if mask then [(loc, v)] else []

lemma added_addIf (mask : Prop) [Decidable mask] (loc : L) (v : V) (l : L) :
    added (addIf mask loc v) l = if mask then (if loc = l then v else 0) else 0 := by
  unfold addIf
  split
  · rw [added_cons, added_nil, add_zero]
  · rfl

lemma addAll_apply (adds : List (L × V)) (m : L → V) (l : L) : addAll adds m l = m l + added adds l := by
  induction adds generalizing m with
  | nil => exact (add_zero _).symm
  | cons a adds ih =>
    show addAll adds (Function.update m a.1 (m a.1 + a.2)) l = _
    rw [ih, added_cons, ← add_assoc]
    congr 1
    by_cases h : a.1 = l
    · subst h
      rw [Function.update_self, if_pos rfl]
    · rw [Function.update_of_ne fun hl => h hl.symm, if_neg h, add_zero]

def AddedInAnyOrder (adds : List (L × V)) (m m' : L → V) : Prop :=
  ∃ order : List (L × V), order.Perm adds ∧ m' = addAll order m

lemma AddedInAnyOrder.at {adds : List (L × V)} {m m' : L → V} (h : AddedInAnyOrder adds m m') (l : L) :
    m' l = m l + added adds l := by
  obtain ⟨_, horder, rfl⟩ := h
  rw [addAll_apply, added, added, (horder.map _).sum_eq]

end VKernels.AtomicAdds
