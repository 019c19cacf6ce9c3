import VKernels.Lib.OwnedTasks

/-!
# Phases between barriers

A launch as phases of tasks: between two barriers the tasks of all workers run in any order.

* `Call`, `Phase` — a loop of the workers over tasks, and the calls between two barriers.
* `InAnyOrder`, `IsTrace` — what a phase may leave, and the memories between the phases of a launch.
* `RaceFree` — no task loads what another one stores; `StoresApart` — nor stores it.

## Results

* `raceFree_of_within` — calls that load inside one set and store inside another.
* `InAnyOrder.value` — a stored location holds what its task, run alone, stores there.
* `InAnyOrder.frame`, `IsTrace.frame` — what no task stores is left alone, in a phase and over several.
* `IsTrace.left`, `IsTrace.right` — the parts of a launch.
* `exists_trace` — every launch has a trace.
-/

namespace VKernels.BarrierPhases

open LocalActions
open WorkerTasks (workerTasks workerTasks_perm)
open List

variable {C V : Type}

/-- A task: the locations it loads, and its stores, which depend on nothing else. -/
structure Task (C V : Type) where
  loads : Set C
  stores : (C → V) → List (C × V)
  reads_only : ∀ m m', (∀ c ∈ loads, m c = m' c) → stores m = stores m'

/-- The locations it may store to. -/
def Task.writes (t : Task C V) : Set C := {c | ∃ m v, (c, v) ∈ t.stores m}

lemma Task.mem_writes {t : Task C V} {m : C → V} {st : C × V} (h : st ∈ t.stores m) : st.1 ∈ t.writes :=
  ⟨m, st.2, h⟩

/-- `task = worker; while task < count: …; task += P`. -/
structure Call (C V : Type) where
  count : ℕ
  task : ℕ → Task C V

structure Phase (C V : Type) where
  calls : List (Call C V)
  barrier : Option ℤ

namespace Phase

variable (ph : Phase C V)

/-- The tasks of the phase: number `t` of call `i`. -/
def ids (P : ℕ) : List (ℕ × ℕ) :=
  (List.range ph.calls.length).flatMap fun i =>
    match ph.calls[i]? with
    | some c => (workerTasks P c.count).map fun t => (i, t)
    | none => []

def taskAt (id : ℕ × ℕ) : Task C V :=
  match ph.calls[id.1]? with
  | some c => c.task id.2
  | none => ⟨∅, fun _ => [], fun _ _ _ => rfl⟩

def writes : Set C := {c | ∃ call ∈ ph.calls, ∃ t < call.count, c ∈ (call.task t).writes}

variable {ph}

variable {P : ℕ}

lemma mem_ids (hP : 0 < P) {id : ℕ × ℕ} : id ∈ ph.ids P ↔ ∃ c, ph.calls[id.1]? = some c ∧ id.2 < c.count := by
  have hmem (c : Call C V) (t : ℕ) : t ∈ workerTasks P c.count ↔ t < c.count := by
    rw [(workerTasks_perm hP).mem_iff, mem_range]
  unfold ids
  rw [mem_flatMap]
  constructor
  · rintro ⟨i, -, hid⟩
    cases hcall : ph.calls[i]? with
    | none => simp [hcall] at hid
    | some c =>
      simp only [hcall, mem_map] at hid
      obtain ⟨t, ht, rfl⟩ := hid
      exact ⟨c, hcall, (hmem c t).mp ht⟩
  · rintro ⟨c, hcall, hlt⟩
    refine ⟨id.1, mem_range.mpr (List.getElem?_eq_some_iff.mp hcall).1, ?_⟩
    simp only [hcall, mem_map]
    exact ⟨id.2, (hmem c id.2).mpr hlt, rfl⟩

lemma ids_nodup (hP : 0 < P) : (ph.ids P).Nodup := by
  refine nodup_flatMap.mpr ⟨fun i _ => ?_, ?_⟩
  · cases ph.calls[i]? with
    | none => exact nodup_nil
    | some c =>
      refine List.Nodup.map (fun t u h => (Prod.ext_iff.mp h).2) ?_
      exact (workerTasks_perm hP).nodup_iff.mpr nodup_range
  · refine nodup_range.imp fun {i j} hij id hi hj => hij ?_
    have hfst {i : ℕ} (h : id ∈ (match ph.calls[i]? with
        | some c => (workerTasks P c.count).map fun t => (i, t)
        | none => [])) : id.1 = i := by
      cases hcall : ph.calls[i]? with
      | none => simp [hcall] at h
      | some c =>
        simp only [hcall, mem_map] at h
        obtain ⟨t, -, rfl⟩ := h
        rfl
    exact (hfst hi).symm.trans (hfst hj)

lemma taskAt_eq {i t : ℕ} {c : Call C V} (h : ph.calls[i]? = some c) : ph.taskAt (i, t) = c.task t := by
  simp [taskAt, h]

lemma taskAt_writes (hP : 0 < P) {id : ℕ × ℕ} (hid : id ∈ ph.ids P) : (ph.taskAt id).writes ⊆ ph.writes := by
  obtain ⟨c, hcall, hlt⟩ := (mem_ids hP).mp hid
  intro _ hloc
  have heq : ph.taskAt id = c.task id.2 := taskAt_eq hcall
  rw [heq] at hloc
  exact ⟨c, mem_of_getElem? hcall, id.2, hlt, hloc⟩

end Phase

/-! ## Races -/

section

variable {P : ℕ} {ph : Phase C V}

def RaceFree (P : ℕ) (ph : Phase C V) : Prop :=
  ∀ a ∈ ph.ids P, ∀ b ∈ ph.ids P, a ≠ b → Disjoint (ph.taskAt a).loads (ph.taskAt b).writes

/-- No two tasks of the phase store to one location. -/
def StoresApart (P : ℕ) (ph : Phase C V) : Prop :=
  ∀ a ∈ ph.ids P, ∀ b ∈ ph.ids P, a ≠ b → Disjoint (ph.taskAt a).writes (ph.taskAt b).writes

/-- The tasks of a call load in `R` and store in `W`. -/
structure Call.Within (R W : Set C) (c : Call C V) : Prop where
  loads : ∀ t < c.count, (c.task t).loads ⊆ R
  writes : ∀ t < c.count, (c.task t).writes ⊆ W

lemma raceFree_of_within {R W : Set C} (hP : 0 < P) (h : ∀ c ∈ ph.calls, c.Within R W) (hRW : Disjoint R W) :
    RaceFree P ph := by
  intro a ha b hb _
  obtain ⟨c, hcall, hlt⟩ := (Phase.mem_ids hP).mp ha
  obtain ⟨c', hcall', hlt'⟩ := (Phase.mem_ids hP).mp hb
  have ha' : ph.taskAt a = c.task a.2 := Phase.taskAt_eq hcall
  have hb' : ph.taskAt b = c'.task b.2 := Phase.taskAt_eq hcall'
  rw [ha', hb']
  exact hRW.mono ((h c (mem_of_getElem? hcall)).loads _ hlt) ((h c' (mem_of_getElem? hcall')).writes _ hlt')

lemma writes_of_within {R W : Set C} (h : ∀ c ∈ ph.calls, c.Within R W) : ph.writes ⊆ W := by
  rintro _ ⟨c, hc, t, ht, hloc⟩
  exact (h c hc).writes t ht hloc

variable {c : Call C V} {barrier : Option ℤ}

lemma mem_ids_single (hP : 0 < P) {id : ℕ × ℕ} : id ∈ Phase.ids ⟨[c], barrier⟩ P ↔ id.1 = 0 ∧ id.2 < c.count := by
  rw [Phase.mem_ids hP]
  constructor
  · rintro ⟨c', hcall, hlt⟩
    obtain ⟨hi, rfl⟩ : id.1 = 0 ∧ c = c' := by
      cases hid : id.1 with
      | zero => simpa [hid] using hcall
      | succ i => simp [hid] at hcall
    exact ⟨hi, hlt⟩
  · rintro ⟨hi, hlt⟩
    exact ⟨c, by simp [hi], hlt⟩

lemma raceFree_single (hP : 0 < P)
    (h : ∀ t < c.count, ∀ u < c.count, t ≠ u → Disjoint (c.task t).loads (c.task u).writes) :
    RaceFree P ⟨[c], barrier⟩ := by
  rintro ⟨i, t⟩ ha ⟨j, u⟩ hb hne
  obtain ⟨rfl, ht⟩ := (mem_ids_single hP).mp ha
  obtain ⟨rfl, hu⟩ := (mem_ids_single hP).mp hb
  exact h t ht u hu fun heq => hne (by rw [heq])

lemma storesApart_single (hP : 0 < P)
    (h : ∀ t < c.count, ∀ u < c.count, t ≠ u → Disjoint (c.task t).writes (c.task u).writes) :
    StoresApart P ⟨[c], barrier⟩ := by
  rintro ⟨i, t⟩ ha ⟨j, u⟩ hb hne
  obtain ⟨rfl, ht⟩ := (mem_ids_single hP).mp ha
  obtain ⟨rfl, hu⟩ := (mem_ids_single hP).mp hb
  exact h t ht u hu fun heq => hne (by rw [heq])

end

/-! ## Runs -/

section

variable [DecidableEq C] {P : ℕ} {ph : Phase C V} {m m' : C → V}

/-- The tasks of the phase one at a time, in some order. -/
def InAnyOrder (P : ℕ) (ph : Phase C V) (m m' : C → V) : Prop :=
  ∃ order : List (ℕ × ℕ), order.Perm (ph.ids P) ∧ m' = runAll (order.map fun id => (ph.taskAt id).stores) m

variable {c : C} {xs ys : List (Phase C V)}

lemma runAll_frame {order : List (ℕ × ℕ)} (h : ∀ id ∈ order, c ∉ (ph.taskAt id).writes) (m : C → V) :
    runAll (order.map fun id => (ph.taskAt id).stores) m c = m c := by
  induction order generalizing m with
  | nil => rfl
  | cons id order ih =>
    rw [map_cons, runAll_cons, ih fun id' hid' => h id' (mem_cons_of_mem _ hid')]
    refine assign_frame (fun hmem => ?_) m
    obtain ⟨_, hst, rfl⟩ := mem_map.mp hmem
    exact h id mem_cons_self (Task.mem_writes hst)

lemma InAnyOrder.frame (h : InAnyOrder P ph m m') (hP : 0 < P) (hc : c ∉ ph.writes) : m' c = m c := by
  obtain ⟨_, horder, rfl⟩ := h
  exact runAll_frame (fun id hid hmem => hc (Phase.taskAt_writes hP (horder.mem_iff.mp hid) hmem)) m

lemma InAnyOrder.value (h : InAnyOrder P ph m m') (hP : 0 < P) (hrace : RaceFree P ph) (happart : StoresApart P ph)
    {id : ℕ × ℕ} (hid : id ∈ ph.ids P) {v : V} (hmem : (c, v) ∈ (ph.taskAt id).stores m)
    (hsame : ∀ v', (c, v') ∈ (ph.taskAt id).stores m → v' = v) : m' c = v := by
  obtain ⟨_, horder, rfl⟩ := h
  obtain ⟨xs, ys, rfl⟩ := append_of_mem (horder.mem_iff.mpr hid)
  have hnodup := horder.nodup_iff.mpr (Phase.ids_nodup hP)
  obtain ⟨hxs, hys⟩ : id ∉ xs ∧ id ∉ ys := by
    obtain ⟨hnot, -⟩ := nodup_cons.mp (nodup_middle.mp hnodup)
    exact ⟨fun hx => hnot (mem_append_left ys hx), fun hy => hnot (mem_append_right xs hy)⟩
  have hin (id' : ℕ × ℕ) (hmem : id' ∈ xs ++ id :: ys) : id' ∈ ph.ids P := horder.mem_iff.mp hmem
  -- what comes before leaves its loads alone
  have hstores : (ph.taskAt id).stores (runAll (xs.map fun id => (ph.taskAt id).stores) m) = (ph.taskAt id).stores m := by
    refine (ph.taskAt id).reads_only _ _ fun l hl => runAll_frame (fun id' hid' hw => ?_) m
    have hne : id ≠ id' := fun heq => hxs (heq ▸ hid')
    exact Set.disjoint_left.mp (hrace id hid id' (hin id' (mem_append_left _ hid')) hne) hl hw
  rw [map_append, map_cons, runAll_append, runAll_cons, runAll_frame fun id' hid' hw => ?_]
  · unfold Action.run
    rw [hstores]
    exact WorkerTasks.assign_value hmem hsame _
  · have hne : id ≠ id' := fun heq => hys (heq ▸ hid')
    have hid'' := hin id' (mem_append_right _ (mem_cons_of_mem _ hid'))
    exact Set.disjoint_left.mp (happart id hid id' hid'' hne) (Task.mem_writes hmem) hw

lemma InAnyOrder.single {call : Call C V} {barrier : Option ℤ} (h : InAnyOrder P ⟨[call], barrier⟩ m m') (hP : 0 < P)
    (hrace : RaceFree P ⟨[call], barrier⟩)
    (happart : ∀ t < call.count, ∀ u < call.count, t ≠ u → Disjoint (call.task t).writes (call.task u).writes)
    {t : ℕ} (ht : t < call.count) {v : V} (hmem : (c, v) ∈ (call.task t).stores m)
    (hsame : ∀ v', (c, v') ∈ (call.task t).stores m → v' = v) : m' c = v := by
  have hid : (0, t) ∈ Phase.ids ⟨[call], barrier⟩ P := (mem_ids_single hP).mpr ⟨rfl, ht⟩
  exact h.value hP hrace (storesApart_single hP happart) hid hmem hsame

def IsTrace (P : ℕ) (phases : List (Phase C V)) (s : ℕ → C → V) : Prop :=
  ∀ (i : ℕ) (hi : i < phases.length), InAnyOrder P phases[i] (s i) (s (i + 1))

variable {phases : List (Phase C V)} {s : ℕ → C → V}

/-- What none of the phases `i`, …, `j - 1` stores. -/
lemma IsTrace.frame (h : IsTrace P phases s) (hP : 0 < P) {i j : ℕ} (hij : i ≤ j) (hj : j ≤ phases.length)
    (hc : ∀ (k : ℕ) (hk : k < phases.length), i ≤ k → k < j → c ∉ (phases[k]).writes) : s j c = s i c := by
  induction j, hij using Nat.le_induction with
  | base => rfl
  | succ j hij ih =>
    rw [(h j hj).frame hP (hc j hj hij (Nat.lt_succ_self j))]
    exact ih (by omega) fun k hk hik hkj => hc k hk hik (by omega)

lemma IsTrace.unchanged (h : IsTrace P phases s) (hP : 0 < P) (hc : ∀ ph ∈ phases, c ∉ ph.writes) :
    s phases.length c = s 0 c :=
  h.frame hP (Nat.zero_le _) le_rfl fun _ hk _ _ => hc _ (getElem_mem hk)

lemma IsTrace.left (h : IsTrace P (xs ++ ys) s) : IsTrace P xs s := by
  intro i hi
  have hstep := h i (by rw [length_append]; omega)
  rwa [getElem_append_left hi] at hstep

lemma IsTrace.right (h : IsTrace P (xs ++ ys) s) : IsTrace P ys fun j => s (xs.length + j) := by
  intro i hi
  have hstep := h (xs.length + i) (by rw [length_append]; omega)
  rw [getElem_append_right (by omega)] at hstep
  simp only [Nat.add_sub_cancel_left] at hstep
  exact hstep

lemma exists_trace (P : ℕ) (phases : List (Phase C V)) (m : C → V) : ∃ s, IsTrace P phases s ∧ s 0 = m := by
  let s : ℕ → C → V := fun n => Nat.rec m (fun i m =>
    match phases[i]? with
    | some ph => runAll ((ph.ids P).map fun id => (ph.taskAt id).stores) m
    | none => m) n
  refine ⟨s, fun i hi => ⟨(phases[i]).ids P, List.Perm.refl _, ?_⟩, rfl⟩
  show (match phases[i]? with
    | some ph => runAll ((ph.ids P).map fun id => (ph.taskAt id).stores) (s i)
    | none => s i) = _
  rw [getElem?_eq_getElem hi]

end

end VKernels.BarrierPhases
