import VKernels.Compiler.MemoryPlan
import VKernels.Lib.LocalActions

/-!
# The reference executor

After `compiler/reference_exec.py` and the placement of `CompiledModel.run`.  Memory is a function
on cells; `arr b i` is where element `i` of a buffer's storage lies.

* `executeTask`, `runPhase` — the tasks of one phase, worker after worker.
* `canaryCheck` — the check and the re-poisoning behind each barrier.

## Results

* `runPhase_ok` — a phase runs its tasks, in the order `phaseTasks`.
* `canaryCheck_ok` — when the check passes, and what it leaves.
-/

namespace VKernels.Compiler

open LocalActions
open List

/-- A storage element. -/
abbrev Loc := ℕ × ℕ

/-- The quiet value, and `np.isnan`. -/
structure NanValue (V : Type) where
  nan : V
  isNaN : V → Bool
  isNaN_nan : isNaN nan = true

/-! ## Tasks -/

/-- The family of a linear task id, and its coordinates there. -/
def localTask (phase : PhasePlan) (taskId : ℕ) : Except String (TaskFamily × List ℕ) := do
  let (family, loc) ← PhasePlan.locate phase.families taskId
  let coords ← family.domain.coords loc
  return (family, coords)

section

variable {V C : Type} [DecidableEq C] (body : TaskFamily → List ℕ → Action Loc V) (place : Loc → C)

def executeTask (phase : PhasePlan) (m : C → V) (taskId : ℕ) : Except String (C → V) := do
  let (family, coords) ← localTask phase taskId
  return ((body family coords).place place).run m

/-- Worker after worker, each over its stride. -/
def runPhase (workers : ℕ) (m : C → V) (phase : PhasePlan) : Except String (C → V) :=
  (executionOrder phase.taskCount workers).foldlM (executeTask body place phase) m

variable (nv : NanValue V) (plan : WorkspacePlan)

/-- `arr.fill(nan)`. -/
def fillBuffer (m : C → V) (b : BufferPlan) : C → V :=
  assign ((range b.numel).map fun i => (place (b.storageId, i), nv.nan)) m

/-- A buffer that is alive in the phase shares elements with `b`. -/
def hasLiveCooccupant (b : BufferPlan) (phaseIndex : ℕ) : Bool :=
  plan.buffers.any fun other => other ≠ b ∧
    (other.firstPhase ≤ phaseIndex ∧ phaseIndex ≤ other.lastPhase) ∧
    b.offset < other.offset + other.numel ∧ other.offset < b.offset + b.numel

def canaryStep (phaseIndex : ℕ) (m : C → V) (b : BufferPlan) : Except String (C → V) :=
  if phaseIndex < b.firstPhase then
    if hasLiveCooccupant plan b phaseIndex then .ok m
    else if ∀ i < b.numel, nv.isNaN (m (place (b.storageId, i))) then .ok m
    else .error "phase wrote into buffer before its lifetime starts"
  else if b.lastPhase = phaseIndex ∧ ¬ b.liveAtEnd then .ok (fillBuffer place nv m b)
  else .ok m

def canaryCheck (phaseIndex : ℕ) (m : C → V) : Except String (C → V) :=
  plan.buffers.foldlM (canaryStep place nv plan phaseIndex) m

/-- One phase and what follows its barrier. -/
def executePhase (canary : Bool) (workers : ℕ) (m : C → V) (phase : PhasePlan) :
    Except String (C → V) := do
  let m ← runPhase body place workers m phase
  if canary then canaryCheck place nv plan phase.index m else return m

/-- One invocation; a new one re-arms every canary. -/
def execute (canary : Bool) (sched : PhaseSchedule) (m : C → V) : Except String (C → V) :=
  sched.phases.foldlM (executePhase body place nv plan canary sched.workers)
    (if canary then plan.buffers.foldl (fillBuffer place nv) m else m)

end

/-- Where an element lies when the planned storages share a workspace. -/
inductive Cell where
  | external (storageId : ℕ) (element : ℕ)
  | workspace (element : ℕ)
  deriving DecidableEq, Repr

/-- `workspace[buf.offset : buf.offset + buf.numel]`, or the caller's array. -/
def placeAt (plan : WorkspacePlan) (l : Loc) : Cell :=
  match plan.buffers.find? fun b => b.storageId = l.1 with
  | some b => .workspace (b.offset + l.2)
  | none => .external l.1 l.2

/-! ## The tasks of a phase, in order -/

def phaseTasks (workers : ℕ) (phase : PhasePlan) : List (TaskFamily × List ℕ) :=
  (executionOrder phase.taskCount workers).filterMap fun t => (localTask phase t).toOption

/-- The tasks of a schedule in the order in which they run. -/
def programTasks (sched : PhaseSchedule) : List (TaskFamily × List ℕ) :=
  sched.phases.flatMap (phaseTasks sched.workers)

lemma localTask_ok {phase : PhasePlan} {taskId : ℕ} (h : taskId < phase.taskCount) :
    ∃ f ∈ phase.families, ∃ coords, localTask phase taskId = .ok (f, coords) := by
  obtain ⟨f, hf, loc, hloc, hlocate⟩ := PhasePlan.locate_ok h
  refine ⟨f, hf, (TileDomain.coordsFrom f.domain.taskGrid loc).1, ?_⟩
  unfold localTask
  rw [hlocate]
  show (f.domain.coords loc >>= fun coords => _) = _
  rw [TileDomain.coords_ok hloc]
  rfl

lemma mem_phaseTasks {workers : ℕ} (hw : 0 < workers) {phase : PhasePlan}
    {task : TaskFamily × List ℕ} (h : task ∈ phaseTasks workers phase) : task.1 ∈ phase.families := by
  obtain ⟨t, ht, hsome⟩ := mem_filterMap.mp h
  have hlt := mem_range.mp ((executionOrder_perm hw).subset ht)
  obtain ⟨f, hf, _, hok⟩ := localTask_ok hlt
  rw [hok] at hsome
  cases hsome
  exact hf

section

variable {V C : Type} [DecidableEq C] {body : TaskFamily → List ℕ → Action Loc V} {place : Loc → C}

def placed (body : TaskFamily → List ℕ → Action Loc V) (place : Loc → C)
    (task : TaskFamily × List ℕ) : Action C V := (body task.1 task.2).place place

lemma runPhase_ok {workers : ℕ} (hw : 0 < workers) (phase : PhasePlan) (m : C → V) :
    runPhase body place workers m phase = .ok (runAll ((phaseTasks workers phase).map (placed body place)) m) := by
  have hlt : ∀ t ∈ executionOrder phase.taskCount workers, t < phase.taskCount :=
    fun t ht => mem_range.mp ((executionOrder_perm hw).subset ht)
  unfold runPhase phaseTasks
  generalize executionOrder phase.taskCount workers = ids at hlt
  induction ids generalizing m with
  | nil => rfl
  | cons t ts ih =>
    obtain ⟨f, _, coords, hok⟩ := localTask_ok (hlt t (by simp))
    have hstep : executeTask body place phase m t = .ok ((placed body place (f, coords)).run m) := by
      unfold executeTask
      rw [hok]
      rfl
    have hsome : (localTask phase t).toOption = some (f, coords) := by
      rw [hok]
      rfl
    have hcons := filterMap_cons_some (f := fun t => (localTask phase t).toOption) (l := ts) hsome
    rw [foldlM_cons, hstep, hcons, map_cons, runAll_cons]
    exact ih _ fun u hu => hlt u (by simp [hu])

/-! ## The canary -/

variable {nv : NanValue V} {plan : WorkspacePlan} {phaseIndex : ℕ} {m : C → V}

def Covered (place : Loc → C) (buffers : List BufferPlan) (c : C) : Prop :=
  ∃ b ∈ buffers, ∃ i < b.numel, place (b.storageId, i) = c

/-- The buffers that are freed behind the phase. -/
def BufferPlan.dies (phaseIndex : ℕ) (b : BufferPlan) : Bool :=
  b.firstPhase ≤ phaseIndex ∧ b.lastPhase = phaseIndex ∧ ¬ b.liveAtEnd

lemma fillBuffer_in {b : BufferPlan} {c : C} {i : ℕ} (hi : i < b.numel)
    (hc : place (b.storageId, i) = c) : fillBuffer place nv m b c = nv.nan := by
  have hall : ∀ (as : List (C × V)) (m : C → V), (∀ p ∈ as, p.2 = nv.nan) →
      c ∈ as.map Prod.fst → assign as m c = nv.nan := by
    intro as
    induction as with
    | nil => intro m _ h; cases h
    | cons p as ih =>
      intro m hnan hmem
      by_cases hin : c ∈ as.map Prod.fst
      · exact ih _ (fun q hq => hnan q (by simp [hq])) hin
      · show assign as (Function.update m p.1 p.2) c = nv.nan
        have hcp : c = p.1 := by
          rcases mem_cons.mp hmem with h | h
          · exact h
          · exact absurd h hin
        rw [assign_frame hin, hcp, Function.update_self]
        exact hnan p (by simp)
  refine hall _ _ (by simp) ?_
  rw [map_map]
  exact mem_map.mpr ⟨i, mem_range.mpr hi, hc⟩

lemma fillBuffer_out {b : BufferPlan} {c : C}
    (hc : ∀ i < b.numel, place (b.storageId, i) ≠ c) : fillBuffer place nv m b c = m c := by
  refine assign_frame (fun hmem => ?_) m
  rw [map_map] at hmem
  obtain ⟨i, hi, heq⟩ := mem_map.mp hmem
  exact hc i (mem_range.mp hi) heq

lemma foldl_fillBuffer (buffers : List BufferPlan) (m : C → V) (c : C) :
    (Covered place buffers c → buffers.foldl (fillBuffer place nv) m c = nv.nan) ∧
      (¬ Covered place buffers c → buffers.foldl (fillBuffer place nv) m c = m c) := by
  induction buffers generalizing m with
  | nil => exact ⟨fun ⟨b, hb, _⟩ => absurd hb (by simp), fun _ => rfl⟩
  | cons b buffers ih =>
    obtain ⟨hin, hout⟩ := ih _
    rw [foldl_cons]
    by_cases hcov : Covered place buffers c
    · refine ⟨fun _ => hin hcov, fun hnot => absurd ?_ hnot⟩
      obtain ⟨b', hb', hrest⟩ := hcov
      exact ⟨b', by simp [hb'], hrest⟩
    · rw [hout hcov]
      constructor
      · rintro ⟨b', hb', i, hi, hc⟩
        rcases mem_cons.mp hb' with rfl | hb'
        · exact fillBuffer_in hi hc
        · exact absurd ⟨b', hb', i, hi, hc⟩ hcov
      · intro hnot
        exact fillBuffer_out fun i hi hc => hnot ⟨b, by simp, i, hi, hc⟩

/-- **The canary check** passes when the unborn buffers without a live co-occupant are poisoned,
    and poisons the buffers that died. -/
theorem canaryCheck_ok (hborn : ∀ b ∈ plan.buffers, phaseIndex < b.firstPhase →
      hasLiveCooccupant plan b phaseIndex = false → ∀ i < b.numel, m (place (b.storageId, i)) = nv.nan) :
    canaryCheck place nv plan phaseIndex m =
      .ok ((plan.buffers.filter (BufferPlan.dies phaseIndex)).foldl (fillBuffer place nv) m) := by
  have hfold : ∀ (buffers : List BufferPlan) (m : C → V),
      (∀ b ∈ buffers, phaseIndex < b.firstPhase → hasLiveCooccupant plan b phaseIndex = false →
        ∀ i < b.numel, m (place (b.storageId, i)) = nv.nan) → buffers.foldlM (canaryStep place nv plan phaseIndex) m =
        .ok ((buffers.filter (BufferPlan.dies phaseIndex)).foldl (fillBuffer place nv) m) := by
    intro buffers
    induction buffers with
    | nil => exact fun m _ => rfl
    | cons b buffers ih =>
      intro m hborn
      rw [foldlM_cons]
      by_cases hfirst : phaseIndex < b.firstPhase
      · have hstep : canaryStep place nv plan phaseIndex m b = .ok m := by
          unfold canaryStep
          rw [if_pos hfirst]
          by_cases hco : hasLiveCooccupant plan b phaseIndex = true
          · rw [if_pos hco]
          · rw [if_neg hco, if_pos]
            intro i hi
            rw [hborn b (by simp) hfirst (by simpa using hco) i hi]
            exact nv.isNaN_nan
        have hdies : b.dies phaseIndex = false := by
          unfold BufferPlan.dies
          simp
          omega
        rw [hstep, filter_cons_of_neg (by simp [hdies])]
        exact ih m fun b' hb' => hborn b' (by simp [hb'])
      · by_cases hdies : b.lastPhase = phaseIndex ∧ ¬ b.liveAtEnd
        · have hstep : canaryStep place nv plan phaseIndex m b = .ok (fillBuffer place nv m b) := by
            unfold canaryStep
            rw [if_neg hfirst, if_pos hdies]
          have hdies' : b.dies phaseIndex = true := by
            unfold BufferPlan.dies
            simpa using ⟨by omega, by simpa using hdies⟩
          rw [hstep, filter_cons_of_pos hdies']
          refine ih _ fun b' hb' hf hco i hi => ?_
          have hold := hborn b' (by simp [hb']) hf hco i hi
          by_cases hin : ∃ j < b.numel, place (b.storageId, j) = place (b'.storageId, i)
          · obtain ⟨j, hj, hc⟩ := hin
            exact fillBuffer_in hj hc
          · rw [fillBuffer_out fun j hj hc => hin ⟨j, hj, hc⟩]
            exact hold
        · have hstep : canaryStep place nv plan phaseIndex m b = .ok m := by
            unfold canaryStep
            rw [if_neg hfirst, if_neg hdies]
          have hdies' : b.dies phaseIndex = false := by
            unfold BufferPlan.dies
            simp only [decide_eq_false_iff_not]
            exact fun h => hdies ⟨h.2.1, by simpa using h.2.2⟩
          rw [hstep, filter_cons_of_neg (by simp [hdies'])]
          exact ih m fun b' hb' => hborn b' (by simp [hb'])
  exact hfold plan.buffers m hborn

end

end VKernels.Compiler
