import Mathlib

/-!
# Actions with a footprint

An action reads a memory and returns assignments.  What it may read and write is its footprint;
actions whose footprints do not meet commute, and an action can be carried out in another memory
into which its locations are placed.

* `Action`, `Action.run`, `runAll` — actions on memories `L → V`.
* `Within I R W a` — on memories with `I`, `a` depends on `R`, assigns in `W` and keeps `I`.
* `Apart` — neither writes what the other reads or writes.
* `Action.place` — the action through a placement of its locations.

## Results

* `run_comm` — apart actions commute.
* `runAll_eq_of_perm` — two orders of the same actions that agree on every conflicting pair leave
  the same memory.
* `place_run_agree`, `place_run_frame` — what a placed action does inside and outside an
  injectively placed set; `place_runAll_agree`, `place_runAll_frame` for runs.
-/

namespace LocalActions

open List
open Function (update update_of_ne update_self)
open Prod (fst)

variable {L C V T : Type}

/-- An action reads the memory once and returns assignments. -/
abbrev Action (L V : Type) := (L → V) → List (L × V)

section

variable [DecidableEq L]

def assign : List (L × V) → (L → V) → L → V
  | [], m => m
  | p :: as, m => assign as (update m p.1 p.2)

def Action.run (a : Action L V) (m : L → V) : L → V := assign (a m) m

def runAll (as : List (Action L V)) (m : L → V) : L → V := as.foldl (fun m a => a.run m) m

@[simp] lemma runAll_nil (m : L → V) : runAll [] m = m := rfl

@[simp] lemma runAll_cons (a : Action L V) (as : List (Action L V)) (m : L → V) :
    runAll (a :: as) m = runAll as (a.run m) := rfl

lemma runAll_append (as bs : List (Action L V)) (m : L → V) :
    runAll (as ++ bs) m = runAll bs (runAll as m) := foldl_append

lemma assign_frame {as : List (L × V)} {l : L} (h : l ∉ as.map fst) (m : L → V) : assign as m l = m l := by
  induction as generalizing m with
  | nil => rfl
  | cons p as ih =>
    simp only [map_cons, mem_cons, not_or] at h
    show assign as (update m p.1 p.2) l = m l
    rw [ih h.2, update_of_ne h.1]

lemma assign_written {as : List (L × V)} {l : L} (h : l ∈ as.map fst) (m m' : L → V) :
    assign as m l = assign as m' l := by
  induction as generalizing m m' with
  | nil => cases h
  | cons p as ih =>
    show assign as (update m p.1 p.2) l = assign as (update m' p.1 p.2) l
    by_cases hl : l ∈ as.map fst
    · exact ih hl _ _
    · obtain rfl : l = p.1 := by
        rcases mem_cons.mp h with h | h
        · exact h
        · exact absurd h hl
      rw [assign_frame hl, assign_frame hl, update_self, update_self]

end

/-! ## Footprints -/

/-- On memories with `I`, the action depends on `R`, assigns in `W` and keeps `I`. -/
structure Within [DecidableEq L] (I : (L → V) → Prop) (R W : Set L) (a : Action L V) : Prop where
  reads : ∀ m m', I m → I m' → (∀ l ∈ R, m l = m' l) → a m = a m'
  writes : ∀ m, I m → ∀ p ∈ a m, p.1 ∈ W
  keeps : ∀ m, I m → I (a.run m)

structure Apart (R W R' W' : Set L) : Prop where
  left : ∀ l ∈ W, l ∉ R'
  right : ∀ l ∈ W', l ∉ R
  both : ∀ l ∈ W, l ∉ W'

section

variable [DecidableEq L] {I : (L → V) → Prop} {R W R' W' : Set L} {a b : Action L V} {m : L → V}

variable {l : L}

lemma Within.notMem_keys (h : Within I R W a) (hm : I m) (hl : l ∉ W) : l ∉ (a m).map fst := by
  intro hmem
  obtain ⟨p, hp, rfl⟩ := mem_map.mp hmem
  exact hl (h.writes m hm p hp)

lemma Within.run_frame (h : Within I R W a) (hm : I m) (hl : l ∉ W) :
    a.run m l = m l := assign_frame (h.notMem_keys hm hl) m

lemma run_comm (ha : Within I R W a) (hb : Within I R' W' b) (hapart : Apart R W R' W')
    (hm : I m) : b.run (a.run m) = a.run (b.run m) := by
  have hab : b (a.run m) = b m :=
    hb.reads _ _ (ha.keeps m hm) hm fun l hl => ha.run_frame hm fun hw => hapart.left l hw hl
  have hba : a (b.run m) = a m :=
    ha.reads _ _ (hb.keeps m hm) hm fun l hl => hb.run_frame hm fun hw => hapart.right l hw hl
  funext l
  unfold Action.run at hab hba ⊢
  rw [hab, hba]
  by_cases hl : l ∈ (a m).map fst
  · have hnot : l ∉ (b m).map fst := by
      obtain ⟨p, hp, rfl⟩ := mem_map.mp hl
      exact hb.notMem_keys hm (hapart.both _ (ha.writes m hm p hp))
    rw [assign_frame hnot]
    exact assign_written hl _ _
  · rw [assign_frame hl]
    by_cases hl' : l ∈ (b m).map fst
    · exact assign_written hl' _ _
    · rw [assign_frame hl', assign_frame hl', assign_frame hl]

/-- A location none of the actions may write. -/
lemma runAll_frame {as : List (Action L V)}
    (h : ∀ a ∈ as, ∃ R W, Within I R W a ∧ l ∉ W) (hm : I m) : runAll as m l = m l := by
  induction as generalizing m with
  | nil => rfl
  | cons a as ih =>
    obtain ⟨R, W, hw, hl⟩ := h a (by simp)
    rw [runAll_cons, ih (fun b hb => h b (by simp [hb])) (hw.keeps m hm), hw.run_frame hm hl]

end

/-! ## Orders of the same actions -/

section

variable [DecidableEq L] {I : (L → V) → Prop} {act : T → Action L V} {R W : T → Set L}

lemma runAll_move {xs : List T} {a : T} (ha : Within I (R a) (W a) (act a))
    (hxs : ∀ x ∈ xs, Within I (R x) (W x) (act x))
    (hapart : ∀ x ∈ xs, Apart (R a) (W a) (R x) (W x)) {m : L → V} (hm : I m) :
    (act a).run (runAll (xs.map act) m) = runAll (xs.map act) ((act a).run m) := by
  induction xs generalizing m with
  | nil => rfl
  | cons x xs ih =>
    have hx := hxs x (by simp)
    rw [map_cons, runAll_cons, runAll_cons,
      ih (fun y hy => hxs y (by simp [hy])) (fun y hy => hapart y (by simp [hy])) (hx.keeps m hm),
      run_comm ha hx (hapart x (by simp)) hm]

lemma runAll_eq_of_perm {l l' : List T} (hperm : l.Perm l') (hwithin : ∀ t ∈ l, Within I (R t) (W t) (act t))
    (horder : ∀ s t, [s, t].Sublist l → [t, s].Sublist l' → Apart (R s) (W s) (R t) (W t))
    {m : L → V} (hm : I m) : runAll (l.map act) m = runAll (l'.map act) m := by
  induction l generalizing l' m with
  | nil => rw [nil_perm.mp hperm]
  | cons a l ih =>
    obtain ⟨xs, ys, rfl⟩ := append_of_mem (hperm.subset (by simp : a ∈ a :: l))
    have hperm' : l.Perm (xs ++ ys) := (hperm.trans perm_middle).cons_inv
    have ha := hwithin a (by simp)
    have hl : ∀ x ∈ xs, x ∈ l := fun x hx => hperm'.symm.subset (by simp [hx])
    have hxs : ∀ x ∈ xs, Within I (R x) (W x) (act x) := fun x hx => hwithin x (by simp [hl x hx])
    -- what stands before `a` in `l'` stands behind it in `l`
    have hapart : ∀ x ∈ xs, Apart (R a) (W a) (R x) (W x) := by
      intro x hx
      refine horder a x ((singleton_sublist.mpr (hl x hx)).cons_cons a) ?_
      have hxa : ([x] ++ [a]).Sublist (xs ++ a :: ys) :=
        (singleton_sublist.mpr hx).append (singleton_sublist.mpr (by simp))
      exact hxa
    have hsub : (xs ++ ys).Sublist (xs ++ a :: ys) := (List.Sublist.refl xs).append (sublist_cons_self a ys)
    have hrest := ih hperm' (fun t ht => hwithin t (by simp [ht]))
      (fun s t hst hts => horder s t (hst.cons a) (hts.trans hsub)) (ha.keeps m hm)
    calc runAll ((a :: l).map act) m
        = runAll ((xs ++ ys).map act) ((act a).run m) := hrest
      _ = runAll (ys.map act) (runAll (xs.map act) ((act a).run m)) := by
          rw [map_append, runAll_append]
      _ = runAll (ys.map act) ((act a).run (runAll (xs.map act) m)) := by
          rw [runAll_move ha hxs hapart hm]
      _ = runAll ((xs ++ a :: ys).map act) m := by
          rw [map_append, runAll_append, map_cons, runAll_cons]

end

lemma mem_left_of_sublist {a b : List T} {s t : T} (hnodup : (a ++ t :: b).Nodup)
    (h : [s, t].Sublist (a ++ t :: b)) : s ∈ a := by
  obtain ⟨l₁, _, hsplit, h₁, h₂⟩ := sublist_append_iff.mp h
  cases l₁ with
  | nil =>
    have htb : t ∈ b := by
      cases (hsplit ▸ h₂ : [s, t].Sublist (t :: b)) with
      | cons _ h => exact h.subset (by simp)
      | cons_cons _ h => exact h.subset (by simp)
    exact absurd htb (nodup_cons.mp (nodup_append.mp hnodup).2.1).1
  | cons x l₁ => exact (cons.inj hsplit).1 ▸ h₁.subset (by simp)

/-- What stands before an element of a duplicate-free list does not stand behind it. -/
lemma not_sublist_of_before {a b : List T} {s t : T} (hnodup : (a ++ t :: b).Nodup)
    (hs : s ∈ a) : ¬ [t, s].Sublist (a ++ t :: b) := by
  intro hsub
  obtain ⟨a₁, a₂, rfl⟩ := append_of_mem hs
  have hta : t ∉ a₁ ++ s :: a₂ := fun h => (nodup_append.mp hnodup).2.2 t h t (by simp) rfl
  rw [append_assoc, cons_append] at hsub hnodup
  exact hta (mem_append_left _ (mem_left_of_sublist hnodup hsub))

/-! ## Placement -/

def Action.place (f : L → C) (a : Action L V) : Action C V :=
  fun m => (a (m ∘ f)).map fun p => (f p.1, p.2)

lemma Action.place_id (a : Action L V) : a.place (id : L → L) = a := by
  funext m
  unfold Action.place
  simp

section

variable [DecidableEq L] [DecidableEq C] {I : (L → V) → Prop} {R W A D : Set L} {a : Action L V}
  {f : L → C} {m : L → V} {m' : C → V}

lemma assign_place {as : List (L × V)} (hinj : Set.InjOn f A) (has : ∀ p ∈ as, p.1 ∈ A) {l : L}
    (hl : l ∈ A) (hagree : l ∉ as.map fst → m' (f l) = m l) :
    assign (as.map fun p => (f p.1, p.2)) m' (f l) = assign as m l := by
  induction as generalizing m m' with
  | nil => exact hagree (by simp)
  | cons p as ih =>
    refine ih (fun q hq => has q (by simp [hq])) fun hnot => ?_
    by_cases hp : l = p.1
    · rw [hp, update_self, update_self]
    · have hfp : f l ≠ f p.1 := fun h => hp (hinj hl (has p (by simp)) h)
      rw [update_of_ne hp, update_of_ne hfp]
      exact hagree (by simp [hp, hnot])

/-- **A placed action** computes what the action computes: if the memories agree on a set `D` that
    holds all it reads, they agree afterwards on `D` and on what it assigns. -/
theorem place_run_agree (ha : Within (fun _ => True) R W a) (hinj : Set.InjOn f A) (hR : R ⊆ D)
    (hW : W ⊆ A) (hD : D ⊆ A) (hagree : ∀ l ∈ D, m' (f l) = m l) :
    ∀ l, l ∈ D ∨ l ∈ (a m).map fst → (a.place f).run m' (f l) = a.run m l := by
  have hsame : a (m' ∘ f) = a m := ha.reads _ _ trivial trivial fun l hl => hagree l (hR hl)
  have hkeys : ∀ p ∈ a m, p.1 ∈ A := fun p hp => hW (ha.writes m trivial p hp)
  intro l hl
  unfold Action.run Action.place
  rw [hsame]
  refine assign_place hinj hkeys ?_ fun hnot => hagree l (hl.resolve_right hnot)
  rcases hl with hl | hl
  · exact hD hl
  · obtain ⟨p, hp, rfl⟩ := mem_map.mp hl
    exact hkeys p hp

/-- A placed action changes places of `W` only. -/
lemma place_run_frame (ha : Within (fun _ => True) R W a) {c : C} (hc : ∀ l ∈ W, f l ≠ c) :
    (a.place f).run m' c = m' c := by
  refine assign_frame (fun hmem => ?_) m'
  unfold Action.place at hmem
  rw [map_map] at hmem
  obtain ⟨p, hp, rfl⟩ := mem_map.mp hmem
  exact hc p.1 (ha.writes _ trivial p hp) rfl

end

/-! ## Placed runs -/

section

variable [DecidableEq L] [DecidableEq C] {act : T → Action L V} {R W : T → Set L} {A D : Set L}
  {f : L → C} {m : L → V} {m' : C → V}

/-- The locations assigned along a run. -/
def written : List (Action L V) → (L → V) → Set L
  | [], _ => ∅
  | a :: as, m => {l | l ∈ (a m).map fst} ∪ written as (a.run m)

/-- Along the run every task reads in `D` or what was assigned before it. -/
def ReadsWritten (R : T → Set L) (act : T → Action L V) : Set L → List T → (L → V) → Prop
  | _, [], _ => True
  | D, t :: ts, m => R t ⊆ D ∧
      ReadsWritten R act (D ∪ {l | l ∈ (act t m).map fst}) ts ((act t).run m)

variable {ts : List T}

lemma ReadsWritten.of_subset (h : ∀ t ∈ ts, R t ⊆ D) : ReadsWritten R act D ts m := by
  induction ts generalizing D m with
  | nil => trivial
  | cons t ts ih =>
    refine ⟨h t (by simp), ih fun u hu => ?_⟩
    exact (h u (by simp [hu])).trans Set.subset_union_left

lemma ReadsWritten.inter (hR : ∀ t ∈ ts, R t ⊆ A)
    (hwithin : ∀ t ∈ ts, Within (fun _ => True) (R t) (W t) (act t)) (hW : ∀ t ∈ ts, W t ⊆ A)
    (h : ReadsWritten R act D ts m) : ReadsWritten R act (D ∩ A) ts m := by
  induction ts generalizing D m with
  | nil => trivial
  | cons t ts ih =>
    obtain ⟨hread, hrest⟩ := h
    refine ⟨Set.subset_inter hread (hR t (by simp)), ?_⟩
    have hkeys : {l | l ∈ (act t m).map fst} ⊆ A := by
      intro l hl
      obtain ⟨p, hp, rfl⟩ := mem_map.mp hl
      exact hW t (by simp) ((hwithin t (by simp)).writes m trivial p hp)
    have hnext := ih (fun u hu => hR u (by simp [hu])) (fun u hu => hwithin u (by simp [hu]))
      (fun u hu => hW u (by simp [hu])) hrest
    rw [Set.union_inter_distrib_right, Set.inter_eq_left.mpr hkeys] at hnext
    exact hnext

lemma readsWritten_append {us : List T} : ReadsWritten R act D (ts ++ us) m ↔ ReadsWritten R act D ts m ∧
      ReadsWritten R act (D ∪ written (ts.map act) m) us (runAll (ts.map act) m) := by
  induction ts generalizing D m with
  | nil => simp [ReadsWritten, written]
  | cons t ts ih =>
    simp only [cons_append, ReadsWritten, map_cons, written, runAll_cons]
    rw [ih, and_assoc, Set.union_assoc]

lemma written_append (as bs : List (Action L V)) (m : L → V) :
    written (as ++ bs) m = written as m ∪ written bs (runAll as m) := by
  induction as generalizing m with
  | nil => simp [written]
  | cons a as ih =>
    simp only [cons_append, written, runAll_cons]
    rw [ih, Set.union_assoc]

lemma written_subset (hW : ∀ t ∈ ts, W t ⊆ A)
    (hwithin : ∀ t ∈ ts, Within (fun _ => True) (R t) (W t) (act t)) : written (ts.map act) m ⊆ A := by
  induction ts generalizing m with
  | nil => exact Set.empty_subset A
  | cons t ts ih =>
    refine Set.union_subset (fun l hl => ?_) (ih (fun u hu => hW u (by simp [hu])) fun u hu => hwithin u (by simp [hu]))
    obtain ⟨p, hp, rfl⟩ := mem_map.mp hl
    exact hW t (by simp) ((hwithin t (by simp)).writes m trivial p hp)

/-- **A placed run** leaves at the places of `D` and of all it assigned what the run leaves. -/
theorem place_runAll_agree (hwithin : ∀ t ∈ ts, Within (fun _ => True) (R t) (W t) (act t)) (hinj : Set.InjOn f A)
    (hW : ∀ t ∈ ts, W t ⊆ A) (hD : D ⊆ A) (hreads : ReadsWritten R act D ts m) (hagree : ∀ l ∈ D, m' (f l) = m l) :
    ∀ l ∈ D ∪ written (ts.map act) m, runAll (ts.map fun t => (act t).place f) m' (f l) = runAll (ts.map act) m l := by
  induction ts generalizing D m m' with
  | nil =>
    intro l hl
    exact hagree l (hl.resolve_right (Set.notMem_empty l))
  | cons t ts ih =>
    obtain ⟨hread, hrest⟩ := hreads
    have ht := hwithin t (by simp)
    have hstep := place_run_agree ht hinj hread (hW t (by simp)) hD hagree
    have hkeys : {l | l ∈ (act t m).map fst} ⊆ A := by
      intro l hl
      obtain ⟨p, hp, rfl⟩ := mem_map.mp hl
      exact hW t (by simp) (ht.writes m trivial p hp)
    have hnext := ih (fun u hu => hwithin u (by simp [hu])) (fun u hu => hW u (by simp [hu]))
      (Set.union_subset hD hkeys) hrest hstep
    rw [Set.union_assoc] at hnext
    exact hnext

lemma place_runAll_frame (hwithin : ∀ t ∈ ts, Within (fun _ => True) (R t) (W t) (act t)) {c : C}
    (hc : ∀ t ∈ ts, ∀ l ∈ W t, f l ≠ c) : runAll (ts.map fun t => (act t).place f) m' c = m' c := by
  induction ts generalizing m' with
  | nil => rfl
  | cons t ts ih =>
    rw [map_cons, runAll_cons, ih (fun u hu => hwithin u (by simp [hu])) fun u hu => hc u (by simp [hu])]
    exact place_run_frame (hwithin t (by simp)) (hc t (by simp))

end

end LocalActions
