import VKernels.Lib.InOrderWorkers
import VKernels.Lib.LocalActions

/-!
# Static per-worker schedules

Model of the static half of `compiler/schedule_static.py`: the task dependency graph, its cycle
check, and the round-robin assignment of a topological order to workers.

* `StaticWorkerSchedule` — order, assignment, `workerSequence`, and `checkAugmentedAcyclic`, which
  adds the same-worker sequence edges and looks for a cycle.

## Results

* `checkAcyclic_eq` — the check decides acyclicity.
* `augmented_acyclic` — sequence edges of a topological order never close a cycle, so the
  augmented check passes for every worker count.
* `static_schedule_sound` — the schedule exists, partitions the tasks, and every interleaving of
  its workers executes each task once, after its predecessors, without deadlock.
-/

namespace VKernels.StaticSchedule

open CountedReady
open List
open DepGraph.Topo (acyclic concat nil)
open InOrderWorkers (Plan Reachable State Step stopped_perm)

variable {K : Type} [LinearOrder K]

/-- Per-task predecessor sets and phase index.  A predecessor that is not a key makes the
    successor tables raise `KeyError`, so the sets name keys only. -/
structure TaskDependencyGraph (K : Type) [LinearOrder K] extends DepGraph K where
  phase : K → ℕ

/-- What the functions of this file raise; `outOfFuel` is of the model only. -/
inductive ScheduleError where
  | cyclic (message : String)
  | zeroDivision
  | outOfFuel
  deriving DecidableEq, Repr

variable (it : SetOrder K)

namespace TaskDependencyGraph

variable (deps : TaskDependencyGraph K)

def indeg (k : K) : ℤ := (deps.preds k).card

def roots : List K := deps.nodes.filter (fun k => decide (deps.indeg k = 0))

def succ (k : K) : List K := it.list (deps.succs k)

/-- `check_acyclic`: the number of tasks Kahn's loop visits is the number of tasks. -/
def checkAcyclic : Except ScheduleError Unit :=
  match kahn (deps.succ it) deps.nodes.length ⟨deps.indeg, deps.roots⟩ [] with
  | none => .error .outOfFuel
  | some seen =>
      if seen.length ≠ deps.nodes.length then
        .error (.cyclic "tile dependency graph contains a cycle")
      else .ok ()

end TaskDependencyGraph

/-- Fixed per-worker task sequences with producer waits. -/
structure StaticWorkerSchedule (K : Type) [LinearOrder K] where
  workers : ℕ
  order : List K
  assignment : K → ℕ
  deps : TaskDependencyGraph K

namespace StaticWorkerSchedule

variable (sched : StaticWorkerSchedule K)

def workerSequence (w : ℕ) : List K :=
  sched.order.filter (fun k => decide (sched.assignment k = w))

/-- The pairs `(a, b)` of `zip(seq, seq[1:])` over all workers. -/
def sequencePairs : List (K × K) :=
  (List.range sched.workers).flatMap fun w =>
    (sched.workerSequence w).zip (sched.workerSequence w).tail

/-- The combined edge set: dependencies plus same-worker sequence edges. -/
def edges (k : K) : Finset K :=
  sched.deps.succs k ∪
    ((sched.sequencePairs.filter (fun e => decide (e.1 = k))).map Prod.snd).toFinset

/-- `for o in outs: indeg[o] += 1`, over all keys. -/
def augmentedIndeg (o : K) : ℤ := (sched.order.flatMap fun k => it.list (sched.edges k)).count o

/-- `check_augmented_acyclic`. -/
def checkAugmentedAcyclic : Except ScheduleError Unit :=
  let q := sched.order.filter (fun k => decide (sched.augmentedIndeg it k = 0))
  match kahn (fun k => it.list (sched.edges k)) sched.order.length
      ⟨sched.augmentedIndeg it, q⟩ [] with
  | none => .error .outOfFuel
  | some seen =>
      if seen.length ≠ sched.order.length then
        .error (.cyclic
          "static schedule infeasible: fixed worker order introduced a wait cycle (§10.4)")
      else .ok ()

end StaticWorkerSchedule

/-- `lambda k: (deps.tasks[k], k)`, compared lexicographically. -/
def rootKeyLe (deps : TaskDependencyGraph K) (a b : K) : Bool :=
  decide (deps.phase a < deps.phase b ∨ deps.phase a = deps.phase b ∧ a ≤ b)

/-- Round-robin topological assignment. -/
def buildStaticWorkerSchedule (deps : TaskDependencyGraph K) (workers : ℕ) :
    Except ScheduleError (StaticWorkerSchedule K) := do
  deps.checkAcyclic it
  let q := deps.roots.mergeSort (rootKeyLe deps)
  match kahn (deps.succ it) deps.nodes.length ⟨deps.indeg, q⟩ [] with
  | none => .error .outOfFuel
  | some order =>
      if order.length ≠ deps.nodes.length then
        .error (.cyclic "dependency cycle during topological sort")
      else if workers = 0 ∧ order ≠ [] then .error .zeroDivision
      else
        let sched : StaticWorkerSchedule K :=
          { workers := workers, order := order
            assignment := fun k => order.idxOf k % workers, deps := deps }
        sched.checkAugmentedAcyclic it
        return sched

/-! ## The cycle checks -/

section

variable {deps : TaskDependencyGraph K}

lemma mem_succ (k s : K) : s ∈ deps.succ it k ↔ s ∈ deps.nodes ∧ k ∈ deps.preds s := by
  simp [TaskDependencyGraph.succ]

lemma count_init {q : List K} (hq : q.Perm deps.roots) : CountInv deps.toDepGraph [] [] ⟨deps.indeg, q⟩ := by
  refine CountInv.init (fun _ _ => rfl) (hq.trans ?_)
  simp [TaskDependencyGraph.roots, TaskDependencyGraph.indeg]

lemma kahn_order {q : List K} (hq : q.Perm deps.roots) :
    ∃ order, kahn (deps.succ it) deps.nodes.length ⟨deps.indeg, q⟩ [] = some order ∧
      order.Nodup ∧ deps.Topo order ∧ (∀ k ∈ order, k ∈ deps.nodes) ∧
      (order.length = deps.nodes.length ↔ deps.Acyclic) :=
  kahn_spec (fun k => it.nodup _) (mem_succ it) (count_init hq)

lemma checkAcyclic_eq [Decidable deps.Acyclic] : deps.checkAcyclic it = if deps.Acyclic then .ok ()
      else .error (.cyclic "tile dependency graph contains a cycle") := by
  obtain ⟨_, hrun, _, _, _, hac⟩ := kahn_order it (List.Perm.refl deps.roots)
  simp [TaskDependencyGraph.checkAcyclic, hrun, ne_eq, ite_not, hac]

/-! ## Sequence edges -/

omit [LinearOrder K] in
lemma pair_sublist_of_mem_zip_tail {p k : K} : ∀ {l : List K}, (p, k) ∈ l.zip l.tail → List.Sublist [p, k] l
  | [], h => by simp at h
  | [a], h => by simp at h
  | a :: b :: l, h => by
    simp only [tail_cons, zip_cons_cons, mem_cons, Prod.mk.injEq] at h
    rcases h with ⟨rfl, rfl⟩ | h
    · exact ((nil_sublist l).cons_cons k).cons_cons p
    · exact (pair_sublist_of_mem_zip_tail (l := b :: l) h).cons a

namespace StaticWorkerSchedule

variable {it} {sched : StaticWorkerSchedule K}

lemma mem_edges {k s : K} : s ∈ sched.edges k ↔ s ∈ sched.deps.succs k ∨ (k, s) ∈ sched.sequencePairs := by
  simp only [edges, Finset.mem_union, mem_toFinset, mem_map, mem_filter, decide_eq_true_eq]
  refine or_congr_right ⟨?_, fun h => ⟨(k, s), ⟨h, rfl⟩, rfl⟩⟩
  rintro ⟨⟨a, b⟩, ⟨h, rfl⟩, rfl⟩
  exact h

lemma sequencePairs_sublist {p k : K} (h : (p, k) ∈ sched.sequencePairs) : List.Sublist [p, k] sched.order := by
  obtain ⟨w, _, hw⟩ := mem_flatMap.mp h
  exact (pair_sublist_of_mem_zip_tail hw).trans filter_sublist

/-- An order that lists all the tasks once, producers first. -/
structure Ordered (sched : StaticWorkerSchedule K) : Prop where
  nodup : sched.order.Nodup
  topo : sched.deps.Topo sched.order
  mem : ∀ k, k ∈ sched.order ↔ k ∈ sched.deps.nodes

lemma Ordered.edge_mem (h : sched.Ordered) {k s : K} (he : s ∈ sched.edges k) :
    k ∈ sched.order ∧ s ∈ sched.order := by
  rcases mem_edges.mp he with he | he
  · obtain ⟨hs, hk⟩ := sched.deps.mem_succs.mp he
    exact ⟨(h.mem k).mpr (sched.deps.closed s hs k hk), (h.mem s).mpr hs⟩
  · have := (sequencePairs_sublist he).subset
    exact ⟨this (by simp), this (by simp)⟩

/-- The combined edges as a dependency graph over the order. -/
def augmented (sched : StaticWorkerSchedule K) (h : sched.Ordered) : DepGraph K where
  nodes := sched.order
  preds k := sched.order.toFinset.filter (fun p => k ∈ sched.edges p)
  nodup := h.nodup
  closed k _ p hp := by simpa using (Finset.mem_filter.mp hp).1

lemma augmented_acyclic (h : sched.Ordered) : (sched.augmented h).Acyclic := by
  refine acyclic _ (l := sched.order) ?_ (fun k hk => hk)
  intro a k b hab p hp
  have hnd : (a ++ k :: b).Nodup := hab ▸ h.nodup
  rcases mem_edges.mp (Finset.mem_filter.mp hp).2 with he | he
  · exact h.topo a k b hab p (sched.deps.mem_succs.mp he).2
  · exact LocalActions.mem_left_of_sublist hnd (hab ▸ sequencePairs_sublist he)

lemma augmentedIndeg_eq (h : sched.Ordered) (o : K) :
    sched.augmentedIndeg it o = ((sched.augmented h).preds o).card := by
  have hcount : ∀ l : List K, (l.flatMap fun k => it.list (sched.edges k)).count o =
      (l.filter (fun k => decide (o ∈ sched.edges k))).length := by
    intro l
    induction l with
    | nil => simp
    | cons k l ih =>
      rw [flatMap_cons, count_append, ih, (it.nodup _).count]
      by_cases ho : o ∈ sched.edges k
      · simp [ho]; omega
      · simp [ho]
  have hcard : ((sched.augmented h).preds o).card =
      (sched.order.filter (fun k => decide (o ∈ sched.edges k))).length := by
    rw [← toFinset_card_of_nodup (h.nodup.filter _), toFinset_filter]
    congr 1
    ext p
    simp [augmented]
  rw [augmentedIndeg, hcount, hcard]

lemma checkAugmentedAcyclic_ok (h : sched.Ordered) : sched.checkAugmentedAcyclic it = .ok () := by
  have hinit : CountInv (sched.augmented h) [] [] ⟨sched.augmentedIndeg it,
      sched.order.filter (fun k => decide (sched.augmentedIndeg it k = 0))⟩ := by
    refine CountInv.init (fun k _ => augmentedIndeg_eq h k) ?_
    simp only [augmentedIndeg_eq h, Int.natCast_eq_zero, Finset.card_eq_zero]
    rfl
  have hmem : ∀ k s, s ∈ it.list (sched.edges k) ↔ s ∈ (sched.augmented h).nodes ∧ k ∈ (sched.augmented h).preds s := by
    intro k s
    simp only [SetOrder.mem_list, augmented, Finset.mem_filter, mem_toFinset]
    exact ⟨fun he => ⟨(h.edge_mem he).2, (h.edge_mem he).1, he⟩, fun he => he.2.2⟩
  obtain ⟨seen, hrun, _, _, _, hac⟩ := kahn_spec (fun k => it.nodup _) hmem hinit
  have hlen : seen.length = sched.order.length := hac.mpr (augmented_acyclic h)
  have hrun' : kahn (fun k => it.list (sched.edges k)) sched.order.length
      ⟨sched.augmentedIndeg it, _⟩ [] = some seen := hrun
  simp [checkAugmentedAcyclic, hrun', hlen]

end StaticWorkerSchedule

/-! ## The schedule -/

section

variable {workers : ℕ}

/-- **The schedule exists** for every acyclic graph and every positive worker count. -/
theorem buildStaticWorkerSchedule_ok (hac : deps.Acyclic) (hw : 1 ≤ workers) :
    ∃ sched, buildStaticWorkerSchedule it deps workers = .ok sched ∧ sched.Ordered ∧
      sched.workers = workers ∧ sched.deps = deps ∧ ∀ k, sched.assignment k = sched.order.idxOf k % workers := by
  classical
  obtain ⟨order, hrun, hnd, htopo, hsub, hlen⟩ :=
    kahn_order it (deps.roots.mergeSort_perm (rootKeyLe deps))
  have hlen' : order.length = deps.nodes.length := hlen.mpr hac
  have hmem : ∀ k, k ∈ order ↔ k ∈ deps.nodes := fun k =>
    ((subperm_of_subset hnd hsub).perm_of_length_le hlen'.ge).mem_iff
  let sched : StaticWorkerSchedule K :=
    { workers := workers, order := order
      assignment := fun k => order.idxOf k % workers, deps := deps }
  have hord : sched.Ordered := ⟨hnd, htopo, hmem⟩
  have haug : sched.checkAugmentedAcyclic it = .ok () :=
    StaticWorkerSchedule.checkAugmentedAcyclic_ok hord
  have hw' : ¬ (workers = 0 ∧ order ≠ []) := by omega
  refine ⟨sched, ?_, hord, rfl, rfl, fun _ => rfl⟩
  simp only [buildStaticWorkerSchedule, checkAcyclic_eq, hac, if_true, hrun, hlen', hw', ne_eq,
    not_true, if_false]
  rw [haug]
  rfl

def StaticWorkerSchedule.plan (sched : StaticWorkerSchedule K) :
    Plan K (Fin sched.workers) := fun w => sched.workerSequence w

lemma StaticWorkerSchedule.Ordered.consistent {sched : StaticWorkerSchedule K}
    (h : sched.Ordered) (hlt : ∀ k, sched.assignment k < sched.workers) :
    InOrderWorkers.Plan.Consistent sched.deps.toDepGraph sched.plan sched.order
      (fun k => ⟨sched.assignment k, hlt k⟩) where
  nodup := h.nodup
  topo := h.topo
  mem := h.mem
  seq w := by simp [plan, workerSequence, Fin.ext_iff]

end

end

/-- **Static schedules.**  On an acyclic graph with at least one worker the schedule is built and
    puts every task on exactly one worker, once.  Whatever the interleaving of its workers: tasks
    start and complete at most once and start after all their predecessors completed, a state
    with an uncompleted task has a step, no run is infinite, and a run that stops has executed
    exactly the tasks of the graph. -/
theorem static_schedule_sound (it : SetOrder K) (deps : TaskDependencyGraph K) (workers : ℕ)
    (hac : deps.Acyclic) (hw : 1 ≤ workers) :
    ∃ sched, buildStaticWorkerSchedule it deps workers = .ok sched ∧ sched.workers = workers ∧
      (∀ k ∈ deps.nodes, ∃! w, w < workers ∧ k ∈ sched.workerSequence w) ∧
      (∀ w, (sched.workerSequence w).Nodup ∧ ∀ k ∈ sched.workerSequence w, k ∈ deps.nodes) ∧
      (∀ s, Reachable deps.toDepGraph sched.plan s → s.started.Nodup ∧ s.completed.Nodup ∧
        (∀ k ∈ s.started, k ∈ deps.nodes ∧ ∀ p ∈ deps.preds k, p ∈ s.completed) ∧ ((∃ k ∈ deps.nodes, k ∉ s.completed) →
          ∃ s', Step deps.toDepGraph sched.plan s s') ∧
        ((∀ s', ¬ Step deps.toDepGraph sched.plan s s') →
          s.started.Perm deps.nodes ∧ s.completed.Perm deps.nodes)) ∧
      ∀ f : ℕ → State K (Fin sched.workers), f 0 = InOrderWorkers.State.start K (Fin sched.workers) →
        ¬ ∀ n, Step deps.toDepGraph sched.plan (f n) (f (n + 1)) := by
  obtain ⟨sched, hbuild, hord, hworkers, hdeps, hassign⟩ := buildStaticWorkerSchedule_ok it hac hw
  have hlt : ∀ k, sched.assignment k < sched.workers := fun k => by
    rw [hassign, hworkers]; exact Nat.mod_lt _ hw
  have hc := hord.consistent hlt
  have hmem : ∀ w k, k ∈ sched.workerSequence w ↔ k ∈ deps.nodes ∧ sched.assignment k = w := by
    intro w k
    rw [StaticWorkerSchedule.workerSequence, mem_filter, hord.mem, hdeps, decide_eq_true_eq]
  rw [hdeps] at hc
  refine ⟨sched, hbuild, hworkers, fun k hk => ?_, fun w => ?_, fun s hs => ?_, InOrderWorkers.no_infinite_run hc⟩
  · refine ⟨sched.assignment k, ⟨hworkers ▸ hlt k, (hmem _ k).mpr ⟨hk, rfl⟩⟩, fun w hw => ?_⟩
    exact ((hmem w k).mp hw.2).2.symm
  · exact ⟨hord.nodup.filter _, fun k hk => ((hmem w k).mp hk).1⟩
  · have h := InOrderWorkers.Inv.reachable hc hs
    refine ⟨h.started_nodup, h.completed_nodup,
      fun k hk => ⟨h.started_mem hc hk, h.waited k hk⟩, fun ⟨k, hk, hkc⟩ => ?_, stopped_perm hc hs⟩
    by_contra hstuck
    exact hkc (h.progress hc (fun s' hs' => hstuck ⟨s', hs'⟩) k hk)

/-- A diamond in three phases. -/
def diamond : TaskDependencyGraph ℕ where
  nodes := [0, 1, 2, 3]
  preds k := if k = 0 then ∅ else if k = 3 then {1, 2} else {0}
  nodup := by decide
  closed := by decide
  phase k := (k + 1) / 2

lemma diamond_acyclic : diamond.Acyclic :=
  acyclic _ (l := [0, 1, 2, 3]) (concat _ (concat _ (concat _
      (concat _ (nil _) (by decide)) (by decide)) (by decide)) (by decide)) (by decide)

theorem static_schedule_sound_diamond : ∃ sched, buildStaticWorkerSchedule SetOrder.sorted diamond 2 = .ok sched ∧
      sched.workers = 2 ∧ ∃! w, w < 2 ∧ 3 ∈ sched.workerSequence w := by
  obtain ⟨sched, hok, hw, huniq, _⟩ := static_schedule_sound SetOrder.sorted diamond 2 diamond_acyclic (by decide)
  exact ⟨sched, hok, hw, huniq 3 (by decide)⟩

end VKernels.StaticSchedule
