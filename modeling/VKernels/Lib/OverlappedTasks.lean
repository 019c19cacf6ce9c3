import VKernels.Lib.CountedReady
import VKernels.Lib.LocalActions

/-!
# Tasks whose steps overlap

A runtime starts and completes the tasks of a dependency graph.  In between a task makes its steps, one at a time and
each on the memory it finds, while other tasks make theirs.

* `Runtime` — what a runtime can do, and which tasks it has started and completed.
* `Step` — a move of the runtime, or the next step of a task that has started.
* `Inv` — the invariant of every interleaving; `Inv.step`, `Inv.reachable`.

## Results

* `runAll_eq_of_extends` — two orders that keep what must come before what, with everything else apart, leave the
  same memory.
* `Inv.mem_eq` — when all tasks have completed, the memory is that of the whole tasks in any topological order.
-/

namespace OverlappedTasks

open CountedReady LocalActions List

variable {T K S L V : Type}

/-! ## Whole tasks -/

section

variable (steps : K → List (Action L V))

def stepOf (x : K × ℕ) : Action L V := (steps x.1).getD x.2 fun _ => []

/-- The steps of the tasks one after another. -/
def wholeSteps (order : List K) : List (K × ℕ) := order.flatMap fun k => (range (steps k).length).map fun i => (k, i)

variable {steps}

lemma mem_wholeSteps {order : List K} {k : K} {i : ℕ} :
    (k, i) ∈ wholeSteps steps order ↔ k ∈ order ∧ i < (steps k).length := by
  unfold wholeSteps
  simp only [mem_flatMap, mem_map, mem_range, Prod.mk.injEq]
  constructor
  · rintro ⟨_, hk, _, hi, rfl, rfl⟩
    exact ⟨hk, hi⟩
  · rintro ⟨hk, hi⟩
    exact ⟨k, hk, i, hi, rfl, rfl⟩

lemma map_wholeSteps (order : List K) : (wholeSteps steps order).map (stepOf steps) = order.flatMap steps := by
  unfold wholeSteps
  rw [map_flatMap]
  refine congrArg flatten (map_congr_left fun k _ => ?_)
  rw [map_map]
  refine ext_getElem (by simp) fun i _ hi => ?_
  simp [stepOf, hi]

lemma wholeSteps_nodup {order : List K} (hnodup : order.Nodup) : (wholeSteps steps order).Nodup := by
  refine nodup_flatMap.mpr ⟨fun k _ => nodup_range.map fun _ _ h => (Prod.mk.inj h).2, hnodup.imp fun hne x hx hy => ?_⟩
  obtain ⟨_, _, rfl⟩ := mem_map.mp hx
  obtain ⟨_, _, heq⟩ := mem_map.mp hy
  exact hne (Prod.mk.inj heq).1.symm

end

/-! ## Orders -/

variable [DecidableEq L]

/-- What must come before an element of the list stands before it. -/
def Extends (before : T → T → Prop) (l : List T) : Prop := ∀ a t b, l = a ++ t :: b → ∀ s, before s t → s ∈ a

lemma Extends.concat {before : T → T → Prop} {l : List T} {t : T} (h : Extends before l)
    (ht : ∀ s, before s t → s ∈ l) : Extends before (l ++ [t]) := by
  intro a u b heq
  rcases b.eq_nil_or_concat with rfl | ⟨b, x, rfl⟩
  · obtain ⟨rfl, hu⟩ := append_inj' heq rfl
    cases hu
    exact ht
  · rw [concat_eq_append, show a ++ u :: (b ++ [x]) = (a ++ u :: b) ++ [x] by simp] at heq
    exact h a u b (append_inj' heq rfl).1

lemma Extends.not_sublist {before : T → T → Prop} {l : List T} {s t : T} (h : Extends before l) (hnodup : l.Nodup)
    (ht : t ∈ l) (hst : before s t) : ¬ [t, s].Sublist l := by
  obtain ⟨a, b, rfl⟩ := append_of_mem ht
  exact not_sublist_of_before hnodup (h a t b rfl s hst)

lemma runAll_eq_of_extends {before : T → T → Prop} {act : T → Action L V} {R W : T → Set L} {I : (L → V) → Prop}
    {l l' : List T} (hl : Extends before l) (hl' : Extends before l') (hperm : l.Perm l') (hnodup : l.Nodup)
    (hwithin : ∀ t ∈ l, Within I (R t) (W t) (act t))
    (hapart : ∀ s ∈ l, ∀ t ∈ l, s ≠ t → ¬ before s t → ¬ before t s → Apart (R s) (W s) (R t) (W t))
    {m : L → V} (hm : I m) : runAll (l.map act) m = runAll (l'.map act) m := by
  refine runAll_eq_of_perm hperm hwithin (fun s t hst hts => ?_) hm
  have hs : s ∈ l := hst.subset (by simp)
  have ht : t ∈ l := hst.subset (by simp)
  refine hapart s hs t ht ?_ (fun hbefore => ?_) fun hbefore => ?_
  · rintro rfl
    have := hnodup.sublist hst
    simp at this
  · exact hl'.not_sublist (hperm.nodup_iff.mp hnodup) (hperm.subset ht) hbefore hts
  · exact hl.not_sublist hnodup hs hbefore hst

/-! ## Runtimes -/

/-- What a runtime can do, and which tasks it has started and completed. -/
structure Runtime (K S : Type) where
  step : S → S → Prop
  started : S → List K
  completed : S → List K

/-- The runtime, the memory, and the history: which task made which of its steps. -/
structure State (K S L V : Type) where
  runtime : S
  mem : L → V
  made : List (K × ℕ)

variable [DecidableEq K]

/-- The number of steps that a task has made. -/
def State.next (s : State K S L V) (k : K) : ℕ := s.made.countP (·.1 = k)

variable (rt : Runtime K S) (steps : K → List (Action L V))

/-- A move of the runtime, which completes a task only after its last step, or a step of a started task. -/
inductive Step : State K S L V → State K S L V → Prop
  | runtime {s : State K S L V} {r : S} (hmove : rt.step s.runtime r)
      (hdone : ∀ k ∈ rt.completed r, k ∈ rt.completed s.runtime ∨ s.next k = (steps k).length) :
      Step s { s with runtime := r }
  | work {s : State K S L V} {k : K} {a : Action L V} (hstarted : k ∈ rt.started s.runtime)
      (ha : (steps k)[s.next k]? = some a) :
      Step s { s with mem := a.run s.mem, made := s.made ++ [(k, s.next k)] }

def Reachable (r₀ : S) (m : L → V) (s : State K S L V) : Prop := Relation.ReflTransGen (Step rt steps) ⟨r₀, m, []⟩ s

variable (G : DepGraph K)

/-- A task's earlier steps, and all steps of the tasks it waits for, come before. -/
def Needs (x y : K × ℕ) : Prop := x.2 < (steps x.1).length ∧ (x.1 ∈ G.preds y.1 ∨ x.1 = y.1 ∧ x.2 < y.2)

/-- A started task is a task of the graph and all it waits for has completed. -/
def Waits (r₀ : S) : Prop :=
  ∀ r, Relation.ReflTransGen rt.step r₀ r → ∀ k ∈ rt.started r, k ∈ G.nodes ∧ ∀ p ∈ G.preds k, p ∈ rt.completed r

structure Inv (r₀ : S) (m : L → V) (s : State K S L V) : Prop where
  reach : Relation.ReflTransGen rt.step r₀ s.runtime
  mem : s.mem = runAll (s.made.map (stepOf steps)) m
  made : ∀ k i, (k, i) ∈ s.made ↔ i < s.next k
  bound : ∀ k, s.next k ≤ (steps k).length
  nodup : s.made.Nodup
  ordered : Extends (Needs steps G) s.made
  completed : ∀ k ∈ rt.completed s.runtime, s.next k = (steps k).length
  nodes : ∀ x ∈ s.made, x.1 ∈ G.nodes

namespace Inv

variable {rt steps G} {r₀ : S} {m : L → V} {s s' : State K S L V}

lemma init (hnone : rt.completed r₀ = []) : Inv rt steps G r₀ m ⟨r₀, m, []⟩ where
  reach := .refl
  mem := rfl
  made k i := by simp [State.next]
  bound k := Nat.zero_le _
  nodup := nodup_nil
  ordered a t b h := by simp at h
  completed k hk := by simp [hnone] at hk
  nodes x hx := absurd hx not_mem_nil

lemma step (hwaits : Waits rt G r₀) (h : Inv rt steps G r₀ m s) (hs : Step rt steps s s') :
    Inv rt steps G r₀ m s' := by
  cases hs with
  | runtime hmove hdone =>
    exact ⟨h.reach.tail hmove, h.mem, h.made, h.bound, h.nodup, h.ordered,
      fun k hk => (hdone k hk).elim (h.completed k) id, h.nodes⟩
  | @work k a hstarted ha =>
    obtain ⟨hnode, hpreds⟩ := hwaits s.runtime h.reach k hstarted
    obtain ⟨hlt, hget⟩ := List.getElem?_eq_some_iff.mp ha
    set now : State K S L V := { s with mem := a.run s.mem, made := s.made ++ [(k, s.next k)] }
    have hnext : ∀ j, now.next j = s.next j + if k = j then 1 else 0 := fun j => by
      simp [now, State.next, countP_append, countP_cons]
    have hother : ∀ j i, (j, i) = (k, s.next k) ↔ k = j ∧ i = s.next j := by
      intro j i
      constructor
      · rintro heq
        obtain ⟨rfl, rfl⟩ := Prod.mk.inj heq
        exact ⟨rfl, rfl⟩
      · rintro ⟨rfl, rfl⟩
        rfl
    refine ⟨h.reach, ?_, fun j i => ?_, fun j => ?_, ?_, ?_, fun j hj => ?_, fun x hx => ?_⟩
    · have hstep : stepOf steps (k, s.next k) = a := by
        unfold stepOf
        rw [getD_eq_getElem?_getD, ha]
        rfl
      show a.run s.mem = runAll ((s.made ++ [(k, s.next k)]).map (stepOf steps)) m
      rw [map_append, runAll_append, ← h.mem, map_singleton, hstep]
      rfl
    · rw [hnext j]
      show (j, i) ∈ s.made ++ [(k, s.next k)] ↔ _
      rw [mem_append, mem_singleton, h.made, hother]
      split <;> grind
    · rw [hnext j]
      split
      · grind
      · exact h.bound j
    · refine nodup_append.mpr ⟨h.nodup, by simp, ?_⟩
      rintro x hx y hy rfl
      obtain rfl := mem_singleton.mp hy
      exact absurd ((h.made _ _).mp hx) (lt_irrefl _)
    · -- what the step needs has been made: the runtime waited for the predecessors
      refine h.ordered.concat ?_
      rintro ⟨j, i⟩ ⟨hi, hpred | ⟨rfl, hi'⟩⟩
      · exact (h.made j i).mpr (h.completed j (hpreds j hpred) ▸ hi)
      · exact (h.made j i).mpr hi'
    · rw [hnext j]
      have := h.completed j hj
      split
      · grind
      · exact this
    · rcases mem_append.mp hx with hx | hx
      · exact h.nodes x hx
      · exact mem_singleton.mp hx ▸ hnode

lemma reachable (hnone : rt.completed r₀ = []) (hwaits : Waits rt G r₀) (hs : Reachable rt steps r₀ m s) :
    Inv rt steps G r₀ m s := by
  induction hs with
  | refl => exact init hnone
  | tail _ hs ih => exact ih.step hwaits hs

/-- A move of the runtime can be made, or a task that it completes has a step to make. -/
lemma progress (h : Inv rt steps G r₀ m s) {r : S} (hmove : rt.step s.runtime r)
    (hnew : ∀ k ∈ rt.completed r, k ∈ rt.completed s.runtime ∨ k ∈ rt.started s.runtime) :
    ∃ s', Step rt steps s s' := by
  by_cases hdone : ∀ k ∈ rt.completed r, k ∈ rt.completed s.runtime ∨ s.next k = (steps k).length
  · exact ⟨_, .runtime hmove hdone⟩
  · push Not at hdone
    obtain ⟨k, hk, hnot, hne⟩ := hdone
    have hlt := lt_of_le_of_ne (h.bound k) hne
    exact ⟨_, .work ((hnew k hk).resolve_left hnot) (List.getElem?_eq_getElem hlt)⟩

end Inv

/-! ## When all tasks have completed -/

variable {rt steps G}

omit [DecidableEq L] in
lemma wholeSteps_extends {order : List K} (htopo : G.Topo order) :
    Extends (Needs steps G) (wholeSteps steps order) := by
  induction order using reverseRecOn with
  | nil =>
    intro a t b h
    simp [wholeSteps] at h
  | append_singleton order k ih =>
    have hprefix := ih fun a j b h => htopo a j (b ++ [k]) (by simp [h])
    have hpreds := htopo order k [] rfl
    have hstep : ∀ n ≤ (steps k).length,
        Extends (Needs steps G) (wholeSteps steps order ++ (range n).map fun i => (k, i)) := by
      intro n hn
      induction n with
      | zero => simpa using hprefix
      | succ n ihn =>
        rw [range_succ, map_append, ← append_assoc]
        refine (ihn (Nat.le_of_succ_le hn)).concat fun ⟨j, i⟩ ⟨hi, hneeds⟩ => ?_
        rcases hneeds with hpred | ⟨rfl, hi'⟩
        · exact mem_append_left _ (mem_wholeSteps.mpr ⟨hpreds j hpred, hi⟩)
        · exact mem_append_right _ (mem_map.mpr ⟨i, mem_range.mpr hi', rfl⟩)
    have hall := hstep _ le_rfl
    unfold wholeSteps at hall ⊢
    rw [flatMap_append, flatMap_singleton]
    exact hall

/-- **The memory of the whole tasks.** -/
theorem Inv.mem_eq {I : (L → V) → Prop} {R W : K → Set L} {r₀ : S} {m : L → V} {s : State K S L V}
    (h : Inv rt steps G r₀ m s) (hall : ∀ k ∈ G.nodes, k ∈ rt.completed s.runtime) {order : List K}
    (hperm : order.Perm G.nodes) (htopo : G.Topo order)
    (hwithin : ∀ k ∈ G.nodes, ∀ a ∈ steps k, Within I (R k) (W k) a)
    (hapart : ∀ j ∈ G.nodes, ∀ k ∈ G.nodes, j ≠ k → j ∉ G.preds k → k ∉ G.preds j → Apart (R j) (W j) (R k) (W k))
    (hm : I m) : s.mem = runAll (order.flatMap steps) m := by
  have hmem : ∀ k i, (k, i) ∈ s.made ↔ k ∈ G.nodes ∧ i < (steps k).length := by
    intro k i
    constructor
    · intro hk
      exact ⟨h.nodes _ hk, ((h.made k i).mp hk).trans_le (h.bound k)⟩
    · rintro ⟨hk, hi⟩
      exact (h.made k i).mpr (h.completed k (hall k hk) ▸ hi)
  have hsame : s.made.Perm (wholeSteps steps order) := by
    refine (perm_ext_iff_of_nodup h.nodup (wholeSteps_nodup (hperm.nodup_iff.mpr G.nodup))).mpr fun ⟨k, i⟩ => ?_
    rw [hmem, mem_wholeSteps, hperm.mem_iff]
  rw [h.mem, ← map_wholeSteps]
  refine runAll_eq_of_extends (R := fun x => R x.1) (W := fun x => W x.1) h.ordered (wholeSteps_extends htopo) hsame
    h.nodup (fun ⟨k, i⟩ hx => ?_) (fun ⟨j, i⟩ hx ⟨k, i'⟩ hy hne hxy hyx => ?_) hm
  · obtain ⟨hk, hi⟩ := (hmem k i).mp hx
    refine hwithin k hk _ ?_
    simp [stepOf, hi]
  · obtain ⟨hj, hi⟩ := (hmem j i).mp hx
    obtain ⟨hk, hi'⟩ := (hmem k i').mp hy
    refine hapart j hj k hk ?_ (fun hpred => hxy ⟨hi, .inl hpred⟩) fun hpred => hyx ⟨hi', .inl hpred⟩
    rintro rfl
    -- two steps of one task come in their order
    rcases Nat.lt_or_gt_of_ne fun heq : i = i' => hne (by rw [heq]) with hlt | hlt
    · exact hxy ⟨hi, .inr ⟨rfl, hlt⟩⟩
    · exact hyx ⟨hi', .inr ⟨rfl, hlt⟩⟩

end OverlappedTasks
