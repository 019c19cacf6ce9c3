import VKernels.Compiler.OperatorIR
import Mathlib.Data.Nat.ModEq
import Mathlib.Data.List.Nodup

/-!
# Task families and the phase schedule

After `compiler/task_ir.py` and `compiler/schedule_phase.py`.

* `TaskFamily` — the tasks of one operator, with the regions each task declares.
* `PhasePlan`, `PhaseSchedule` — one phase an operator; `workerTaskIds` is the stride assignment.
* `PhaseSchedule.fromFamilies` — grouping by operator, then `checkInvariants`.

## Results

* `executionOrder_perm` — for every worker count the workers' ids together are the task ids, each
  once.
* `PhaseSchedule.checkInvariants_ok` — the check accepts every schedule with a worker.
-/

namespace VKernels.Compiler

open List

/-- Per dimension, extent and tile size. -/
structure TileDomain where
  dims : List (ℕ × ℕ)
  deriving DecidableEq, Repr

namespace TileDomain

variable (d : TileDomain)

def taskGrid : List ℕ := d.dims.map fun p => (p.1 + p.2 - 1) / p.2

def taskCount : ℕ := d.taskGrid.prod

/-- The loop of `coords`, last dimension first; also what is left of the id. -/
def coordsFrom : List ℕ → ℕ → List ℕ × ℕ
  | [], rem => ([], rem)
  | g :: grid, rem =>
    let (out, rem) := coordsFrom grid rem
    (rem % g :: out, rem / g)

/-- Tile indices of a task id, row-major over the grid. -/
def coords (taskId : ℕ) : Except String (List ℕ) :=
  let (out, rem) := coordsFrom d.taskGrid taskId
  if rem ≠ 0 then .error "task id outside domain" else .ok out

end TileDomain

structure TaskFamily where
  familyId : String
  op : Operator
  domain : TileDomain
  scratchBytes : ℕ
  /-- Regions by tile coordinates. -/
  readRegions : List ℕ → List Region
  writeRegions : List ℕ → List Region

namespace TaskFamily

variable (fam : TaskFamily)

def taskCount : ℕ := fam.domain.taskCount

def reads (taskId : ℕ) : Except String (List Region) := fam.readRegions <$> fam.domain.coords taskId

def writes (taskId : ℕ) : Except String (List Region) :=
  fam.writeRegions <$> fam.domain.coords taskId

end TaskFamily

/-! ## Phases -/

structure PhasePlan where
  index : ℕ
  families : List TaskFamily

namespace PhasePlan

def taskCount (phase : PhasePlan) : ℕ := (phase.families.map TaskFamily.taskCount).sum

/-- `family_of` and `local_id`: the family of a linear task id, and the id inside it. -/
def locate : List TaskFamily → ℕ → Except String (TaskFamily × ℕ)
  | [], _ => .error "task id outside phase"
  | f :: families, taskId =>
    if taskId < f.taskCount then .ok (f, taskId) else locate families (taskId - f.taskCount)

end PhasePlan

/-- `range(worker, n, workers)`. -/
def strideIds (n worker workers : ℕ) : List ℕ :=
  List.range' worker ((n - worker + workers - 1) / workers) workers

def workerTaskIds (phase : PhasePlan) (worker workers : ℕ) : List ℕ :=
  strideIds phase.taskCount worker workers

/-- The ids in the order in which the workers are simulated. -/
def executionOrder (n workers : ℕ) : List ℕ :=
  (List.range workers).flatMap fun w => strideIds n w workers

structure PhaseSchedule where
  phases : List PhasePlan
  workers : ℕ

namespace PhaseSchedule

/-- One `assigned.add`, refused for an id that is there already. -/
def claimTask (assigned : List ℕ) (taskId : ℕ) : Except String (List ℕ) :=
  if taskId ∈ assigned then .error "task assigned to more than one worker"
  else .ok (taskId :: assigned)

/-- Coverage and ownership of one phase. -/
def checkPhase (workers : ℕ) (phase : PhasePlan) : Except String Unit := do
  let assigned ← (List.range workers).foldlM
    (fun assigned w => (workerTaskIds phase w workers).foldlM claimTask assigned) []
  if ∃ t ∈ List.range phase.taskCount, t ∉ assigned then .error "tasks never assigned"

variable (sched : PhaseSchedule)

def numPhases : ℕ := sched.phases.length

def checkInvariants : Except String Unit := do
  if sched.workers < 1 then .error "worker count must be >= 1"
  sched.phases.forM (checkPhase sched.workers)
  if ∃ _w ∈ List.range sched.workers, sched.phases.foldl (fun barriers _ => barriers + 1) 0 ≠
      sched.numPhases then .error "worker sees too few barriers"

/-- The opids in order of first appearance. -/
def opOrder (families : List TaskFamily) : List ℕ := (families.map fun f => f.op.opid).eraseDups

def groupPhases (families : List TaskFamily) : List PhasePlan :=
  (opOrder families).mapIdx fun i opid => ⟨i, families.filter fun f => f.op.opid = opid⟩

def fromFamilies (families : List TaskFamily) (workers : ℕ) : Except String PhaseSchedule := do
  let sched : PhaseSchedule := ⟨groupPhases families, workers⟩
  sched.checkInvariants
  return sched

end PhaseSchedule

/-! ## Coverage -/

lemma mem_strideIds {n worker workers t : ℕ} (hw : 0 < workers) :
    t ∈ strideIds n worker workers ↔ t < n ∧ worker ≤ t ∧ t % workers = worker % workers := by
  unfold strideIds
  rw [mem_range']
  constructor
  · rintro ⟨i, hi, rfl⟩
    have hmul : (i + 1) * workers ≤ n - worker + workers - 1 :=
      (Nat.mul_le_mul_right _ hi).trans (Nat.div_mul_le_self _ _)
    rw [add_one_mul] at hmul
    rw [mul_comm]
    exact ⟨by omega, by omega, by rw [Nat.add_mul_mod_self_right]⟩
  · rintro ⟨hlt, hle, hmod⟩
    obtain ⟨k, hk⟩ := (Nat.modEq_iff_dvd' hle).mp hmod.symm
    refine ⟨k, ?_, by omega⟩
    rw [Nat.lt_div_iff_mul_lt hw]
    rw [mul_comm] at hk
    omega

lemma executionOrder_perm {n workers : ℕ} (hw : 0 < workers) : (executionOrder n workers).Perm (range n) := by
  have hmem : ∀ t, t ∈ executionOrder n workers ↔ t ∈ range n := by
    intro t
    unfold executionOrder
    simp only [mem_flatMap, mem_range, mem_strideIds hw]
    constructor
    · rintro ⟨w, _, ht, _⟩
      exact ht
    · intro ht
      exact ⟨t % workers, Nat.mod_lt _ hw, ht, Nat.mod_le _ _, (Nat.mod_mod _ _).symm⟩
  have hnodup : (executionOrder n workers).Nodup := by
    refine nodup_flatMap.mpr ⟨fun w _ => ?_, ?_⟩
    · exact nodup_range' workers hw
    refine pairwise_lt_range.imp_of_mem fun {w v} hwm hvm hwv t ht ht' => ?_
    have hwm := mem_range.mp hwm
    have hvm := mem_range.mp hvm
    have := ((mem_strideIds hw).mp ht).2.2
    have := ((mem_strideIds hw).mp ht').2.2
    rw [Nat.mod_eq_of_lt hwm] at *
    rw [Nat.mod_eq_of_lt hvm] at *
    omega
  exact (perm_ext_iff_of_nodup hnodup nodup_range).mpr hmem

namespace PhaseSchedule

lemma foldlM_claimTask {l assigned : List ℕ} (hnodup : l.Nodup) (hfresh : ∀ t ∈ l, t ∉ assigned) :
    l.foldlM claimTask assigned = .ok (l.reverse ++ assigned) := by
  induction l generalizing assigned with
  | nil => rfl
  | cons t l ih =>
    obtain ⟨ht, hnodup⟩ := nodup_cons.mp hnodup
    have hstep : claimTask assigned t = .ok (t :: assigned) := if_neg (hfresh t (by simp))
    rw [foldlM_cons, hstep]
    have hrest := @ih (t :: assigned) hnodup fun u hu => by
      simp only [mem_cons, not_or]
      exact ⟨fun h => ht (h ▸ hu), hfresh u (by simp [hu])⟩
    rw [reverse_cons, append_assoc]
    exact hrest

lemma checkPhase_ok {workers : ℕ} (hw : 0 < workers) (phase : PhasePlan) : checkPhase workers phase = .ok () := by
  have hperm := executionOrder_perm (n := phase.taskCount) hw
  have hfold : (range workers).foldlM (fun assigned w => (workerTaskIds phase w workers).foldlM claimTask assigned) [] =
      (executionOrder phase.taskCount workers).foldlM claimTask [] := by
    unfold executionOrder workerTaskIds
    generalize ([] : List ℕ) = assigned
    induction range workers generalizing assigned with
    | nil => rfl
    | cons w ws ih =>
      rw [foldlM_cons, flatMap_cons, foldlM_append]
      congr 1
      funext assigned
      exact ih assigned
  unfold checkPhase
  rw [hfold, foldlM_claimTask (hperm.nodup_iff.mpr nodup_range) (by simp)]
  have hall : ¬ ∃ t ∈ range phase.taskCount, t ∉ (executionOrder phase.taskCount workers).reverse ++ [] := by
    rintro ⟨t, ht, hnot⟩
    simp only [append_nil, mem_reverse] at hnot
    exact hnot (hperm.mem_iff.mpr ht)
  show (if _ then _ else _) = _
  rw [if_neg hall]
  rfl

lemma checkInvariants_ok {sched : PhaseSchedule} (hw : 0 < sched.workers) : sched.checkInvariants = .ok () := by
  have hphases : sched.phases.forM (checkPhase sched.workers) = .ok () := by
    induction sched.phases with
    | nil => rfl
    | cons phase phases ih =>
      show (checkPhase sched.workers phase >>= fun _ => phases.forM _) = _
      rw [checkPhase_ok hw]
      exact ih
  have hcount : sched.phases.foldl (fun barriers _ => barriers + 1) 0 = sched.numPhases := by
    unfold numPhases
    simp
  unfold checkInvariants
  rw [if_neg (by omega), hphases]
  simp [hcount]

lemma fromFamilies_ok {families : List TaskFamily} {workers : ℕ} (hw : 0 < workers) :
    fromFamilies families workers = .ok ⟨groupPhases families, workers⟩ := by
  unfold fromFamilies
  have hcheck : checkInvariants ⟨groupPhases families, workers⟩ = .ok () := checkInvariants_ok hw
  dsimp only
  rw [hcheck]
  rfl

end PhaseSchedule

/-! ## Tasks of a phase -/

namespace TileDomain

variable {d : TileDomain}

lemma coordsFrom_snd (grid : List ℕ) (rem : ℕ) : (coordsFrom grid rem).2 = rem / grid.prod := by
  induction grid with
  | nil => simp [coordsFrom]
  | cons g grid ih =>
    show (coordsFrom grid rem).2 / g = _
    rw [ih, prod_cons, Nat.div_div_eq_div_mul, mul_comm]

lemma coords_ok {taskId : ℕ} (h : taskId < d.taskCount) : d.coords taskId = .ok (coordsFrom d.taskGrid taskId).1 := by
  unfold coords
  have hrem : (coordsFrom d.taskGrid taskId).2 = 0 := by
    rw [coordsFrom_snd]
    exact Nat.div_eq_of_lt h
  simp [hrem]

end TileDomain

lemma PhasePlan.locate_ok {families : List TaskFamily} {taskId : ℕ}
    (h : taskId < (families.map TaskFamily.taskCount).sum) :
    ∃ f ∈ families, ∃ loc < f.taskCount, PhasePlan.locate families taskId = .ok (f, loc) := by
  induction families generalizing taskId with
  | nil => simp at h
  | cons f families ih =>
    unfold locate
    by_cases hlt : taskId < f.taskCount
    · exact ⟨f, by simp, taskId, hlt, if_pos hlt⟩
    · rw [map_cons, sum_cons] at h
      obtain ⟨f', hf', loc, hloc, hlocate⟩ := @ih (taskId - f.taskCount) (by omega)
      exact ⟨f', by simp [hf'], loc, hloc, by rw [if_neg hlt, hlocate]⟩

namespace PhaseSchedule

lemma nodup_eraseDups (l : List ℕ) : l.eraseDups.Nodup := by
  induction hn : l.length using Nat.strong_induction_on generalizing l with
  | _ n ih =>
    cases l with
    | nil => simp
    | cons a l =>
      rw [eraseDups_cons, nodup_cons]
      refine ⟨by simp [mem_eraseDups], ih _ ?_ _ rfl⟩
      have := length_filter_le (fun b => !b == a) l
      simp only [length_cons] at hn
      omega

variable {families : List TaskFamily}

lemma mem_groupPhases {phase : PhasePlan}
    (h : phase ∈ groupPhases families) : ∃ (i : ℕ) (hi : i < (opOrder families).length),
      phase = ⟨i, families.filter fun f => f.op.opid = (opOrder families)[i]⟩ := by
  obtain ⟨i, hi, rfl⟩ := mem_mapIdx.mp h
  exact ⟨i, hi, rfl⟩

lemma groupPhases_length (families : List TaskFamily) :
    (groupPhases families).length = (opOrder families).length := by
  unfold groupPhases
  rw [length_mapIdx]

lemma groupPhases_index {i : ℕ} (hi : i < (groupPhases families).length) :
    ((groupPhases families)[i]).index = i ∧ (∀ f ∈ ((groupPhases families)[i]).families, f ∈ families) ∧
      ∀ f ∈ ((groupPhases families)[i]).families, ∀ phase ∈ groupPhases families,
        (∃ f' ∈ phase.families, f'.op.opid = f.op.opid) → phase.index = i := by
  have hlen := groupPhases_length families
  have hget : (groupPhases families)[i] =
      ⟨i, families.filter fun f => f.op.opid = (opOrder families).get ⟨i, hlen ▸ hi⟩⟩ := getElem_mapIdx
  rw [hget]
  refine ⟨rfl, fun f hf => (mem_filter.mp hf).1, ?_⟩
  rintro f hf _ hphase ⟨_, hf', hop⟩
  obtain ⟨j, hj, rfl⟩ := mem_groupPhases hphase
  have h1 := (mem_filter.mp hf).2
  have h2 := (mem_filter.mp hf').2
  simp only [decide_eq_true_eq] at h1 h2
  rw [hop, h1] at h2
  have hij : i = j := (nodup_eraseDups _).getElem_inj_iff.mp h2
  exact hij.symm

lemma exists_phase {f : TaskFamily} (hf : f ∈ families) : ∃ phase ∈ groupPhases families, f ∈ phase.families := by
  have hmem : f.op.opid ∈ opOrder families := mem_eraseDups.mpr (mem_map_of_mem hf)
  obtain ⟨i, hi, hget⟩ := getElem_of_mem hmem
  refine ⟨⟨i, families.filter fun g => g.op.opid = (opOrder families)[i]⟩, ?_, ?_⟩
  · exact mem_mapIdx.mpr ⟨i, hi, rfl⟩
  · exact mem_filter.mpr ⟨hf, by simp [hget]⟩

end PhaseSchedule

end VKernels.Compiler
