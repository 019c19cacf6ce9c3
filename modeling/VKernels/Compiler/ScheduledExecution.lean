import VKernels.Compiler.TaskQueue
import VKernels.Compiler.TileDependencies
import VKernels.Lib.OverlappedTasks

/-!
# Scheduled execution

The tile dependencies of `compiler/schedule_static.py` at run time: under the workers of a static schedule, each with a
sequence of its own, and under workers on the ready queue of `compiler/runtime/task_queue.py`.  The tasks that are under
way make their loads and stores in any interleaving.

* `TileProgram` — families of one operator each, under names of their own.
* `TileProgram.Code` — the tasks' bodies, and the steps that a task makes.
* `workerRuntime`, `queueRuntime` — the two runtimes.

## Results

* `TileProgram.order_topo` — the phases run the tasks in an order that the dependencies allow.
* `tile_schedule_built` — the schedule exists, and the queue retires every task.
* `static_schedule_computes`, `ready_queue_computes` — when all tasks have completed, the memory is what the phases leave.
-/

namespace VKernels.Compiler

open CountedReady LocalActions OverlappedTasks StaticSchedule
open List
open PhaseSchedule (fromFamilies fromFamilies_ok groupPhases)
open TaskQueue (simulateFifoExecution)

structure TileProgram where
  families : List TaskFamily
  workers : ℕ
  workers_pos : 0 < workers
  one : (families.map fun f => f.op.opid).Nodup
  ids : (families.map TaskFamily.familyId).Nodup

lemma idxOf_lt_of_sublist {l : List ℕ} (hnodup : l.Nodup) {s t : ℕ} (h : [s, t].Sublist l) :
    l.idxOf s < l.idxOf t := by
  have hpair : l.Pairwise fun x y => l.idxOf x < l.idxOf y := by
    refine pairwise_iff_getElem.mpr fun i j hi hj hij => ?_
    rwa [hnodup.idxOf_getElem, hnodup.idxOf_getElem]
  exact pairwise_iff_forall_sublist.mp hpair h

lemma sublist_of_mem_allHazards {ops : List Operator} {hz : Hazard} (h : hz ∈ allHazards ops) :
    [hz.producer, hz.consumer].Sublist (ops.map Operator.opid) := by
  induction ops with
  | nil => cases h
  | cons u ops ih =>
    rcases mem_append.mp h with h | h
    · obtain ⟨v, hv, h⟩ := mem_flatMap.mp h
      have hids : hz.producer = u.opid ∧ hz.consumer = v.opid := by
        unfold hazardsBetween at h
        simp only [mem_append, mem_conflicts] at h
        rcases h with (⟨_, _, _, _, _, rfl⟩ | ⟨_, _, _, _, _, rfl⟩) | ⟨_, _, _, _, _, rfl⟩
        all_goals exact ⟨rfl, rfl⟩
      rw [hids.1, hids.2]
      exact (singleton_sublist.mpr (mem_map_of_mem hv)).cons_cons _
    · exact (ih h).cons _

namespace TileProgram

variable (p : TileProgram)

def sched : PhaseSchedule := ⟨groupPhases p.families, p.workers⟩

def deps (maxSpan : Option ℤ) : TaskDependencyGraph TaskKey := buildTileDependencies p.sched maxSpan

def key (t : TaskFamily × ℕ) : TaskKey := taskKey t.1 t.2

/-- The tasks as the phases run them. -/
def order : List TaskKey := (phaseOrder p.workers p.families).map key

/-- The place of the family's operator in the program. -/
def rank (f : TaskFamily) : ℕ := (p.families.map fun f => f.op.opid).idxOf f.op.opid

lemma families_eq : scheduleFamilies p.sched = p.families := scheduleFamilies_eq p.one

lemma tasks_perm : (phaseOrder p.workers p.families).Perm (familyTasks p.families) := phaseOrder_perm p.workers_pos _

variable {p} {maxSpan : Option ℤ} {s t : TaskFamily × ℕ}

lemma key_inj (hs : s ∈ familyTasks p.families) (ht : t ∈ familyTasks p.families) (h : key s = key t) : s = t :=
  taskKey_inj p.ids (mem_familyTasks.mp hs).1 (mem_familyTasks.mp ht).1 h

/-- An edge leads from a task to one of a later operator. -/
lemma edge_forward {e : TaskKey × TaskKey} (h : e ∈ tileEdges p.sched maxSpan) : ∃ s ∈ familyTasks p.families,
    ∃ t ∈ familyTasks p.families, e = (key t, key s) ∧ p.rank s.1 < p.rank t.1 := by
  obtain ⟨hz, hhz, he⟩ := mem_flatMap.mp h
  rw [p.families_eq] at hhz he
  obtain ⟨u, v, hu, hv, he⟩ := mem_hazardEdges he
  obtain ⟨tu, htu, tv, htv, _, rfl⟩ := mem_familyEdges.mp he
  obtain ⟨humem, huid⟩ := famByOpid_mem hu
  obtain ⟨hvmem, hvid⟩ := famByOpid_mem hv
  have hsub := sublist_of_mem_allHazards (mem_dedupeHazards.mp hhz)
  rw [map_map, ← huid, ← hvid] at hsub
  exact ⟨(u, tu), mem_familyTasks.mpr ⟨humem, htu⟩, (v, tv), mem_familyTasks.mpr ⟨hvmem, htv⟩, rfl,
    idxOf_lt_of_sublist p.one hsub⟩

lemma ranks_sorted : (phaseOrder p.workers p.families).Pairwise fun s t => p.rank s.1 ≤ p.rank t.1 := by
  refine pairwise_flatMap.mpr ⟨fun f _ => pairwise_map.mpr (pairwise_of_forall fun _ _ => le_rfl), ?_⟩
  refine pairwise_iff_forall_sublist.mpr fun {f g} hfg s hs t ht => ?_
  obtain ⟨_, _, rfl⟩ := mem_map.mp hs
  obtain ⟨_, _, rfl⟩ := mem_map.mp ht
  have hsub := hfg.map fun f : TaskFamily => f.op.opid
  exact (idxOf_lt_of_sublist p.one hsub).le

/-- **The phases' order is allowed**: every task comes after all it depends on. -/
theorem order_topo (maxSpan : Option ℤ) : (p.deps maxSpan).Topo p.order := by
  intro a k b hsplit q hq
  obtain ⟨l, r, hl, rfl, hr⟩ := map_eq_append_iff.mp hsplit
  obtain ⟨t, r, rfl, rfl, rfl⟩ := map_eq_cons_iff.mp hr
  obtain ⟨s, hs, t', ht', heq, hlt⟩ := edge_forward (mem_preds.mp hq)
  obtain ⟨hkey, rfl⟩ := Prod.mk.inj heq
  obtain rfl : t = t' := key_inj (p.tasks_perm.subset (hl ▸ by simp)) ht' hkey
  have hranks := p.ranks_sorted
  have hmem : s ∈ phaseOrder p.workers p.families := p.tasks_perm.symm.subset hs
  rw [hl] at hranks hmem
  rcases mem_append.mp hmem with hmem | hmem
  · exact mem_map_of_mem hmem
  · have hle : p.rank t.1 ≤ p.rank s.1 := by
      rcases mem_cons.mp hmem with rfl | hmem
      · exact le_rfl
      · exact (pairwise_cons.mp (pairwise_append.mp hranks).2.1).1 s hmem
    omega

lemma order_perm (maxSpan : Option ℤ) : p.order.Perm (p.deps maxSpan).nodes := by
  have hnodup := phaseOrder_nodup p.workers_pos (p.one.of_map _)
  refine (perm_ext_iff_of_nodup ?_ (nodup_dedup _)).mpr fun k => ?_
  · exact hnodup.map_on fun x hx y hy => key_inj (p.tasks_perm.subset hx) (p.tasks_perm.subset hy)
  · rw [mem_dedup, p.families_eq, order, (p.tasks_perm.map _).mem_iff]
    unfold familyTasks familyKeys
    simp only [map_flatMap, map_map]
    rfl

lemma acyclic (maxSpan : Option ℤ) : (p.deps maxSpan).Acyclic :=
  (order_topo maxSpan).acyclic _ fun _ hk => (order_perm maxSpan).symm.subset hk

end TileProgram

open TileProgram (key key_inj order_perm order_topo)

/-- Bodies inside what the tasks declare, and steps that together are a task's body, each inside its footprint. -/
structure TileProgram.Code {V : Type} (p : TileProgram) (I : (Loc → V) → Prop) where
  bodies : TileBodies I p.families
  covers : ∀ f ∈ p.families, f.Covers
  steps : TaskKey → List (LocalActions.Action Loc V)
  within : ∀ t ∈ familyTasks p.families, ∀ a ∈ steps (key t), Within I (bodies.reads t) (bodies.writes t) a
  whole : ∀ t ∈ familyTasks p.families, ∀ m, I m → runAll (steps (key t)) m = (bodies.act t).run m

/-- The workers of a static schedule. -/
def workerRuntime (G : DepGraph TaskKey) {P : ℕ} (plan : InOrderWorkers.Plan TaskKey (Fin P)) :
    Runtime TaskKey (InOrderWorkers.State TaskKey (Fin P)) where
  step := InOrderWorkers.Step G plan
  started := (·.started)
  completed := (·.completed)

/-- Any workers on the ready queue. -/
def queueRuntime (W : Type) [DecidableEq W] (it : SetOrder TaskKey) (deps : TaskQueue.TaskDeps TaskKey) :
    Runtime TaskKey (TaskQueue.Run TaskKey W) where
  step := TaskQueue.Step it deps
  started := (·.claimed)
  completed := (·.completed)

namespace TileProgram.Code

variable {V : Type} {p : TileProgram} {I : (Loc → V) → Prop} (c : p.Code I) {s t : TaskFamily × ℕ}

/-- What the phases leave. -/
def run (m : Loc → V) : Except String (Loc → V) :=
  p.sched.phases.foldlM (runPhase c.bodies.body (id : Loc → Loc) p.sched.workers) m

/-- Tasks without an edge between them are apart. -/
lemma apart (hs : s ∈ familyTasks p.families) (ht : t ∈ familyTasks p.families) (hne : s ≠ t)
    (hst : key s ∉ (p.deps none).preds (key t)) (hts : key t ∉ (p.deps none).preds (key s)) :
    Apart (c.bodies.reads s) (c.bodies.writes s) (c.bodies.reads t) (c.bodies.writes t) := by
  obtain ⟨hsf, hsid⟩ := mem_familyTasks.mp hs
  obtain ⟨htf, htid⟩ := mem_familyTasks.mp ht
  obtain ⟨f, i⟩ := s
  obtain ⟨g, j⟩ := t
  by_cases hsame : f = g
  · subst hsame
    exact c.bodies.siblings f hsf i hsid j htid fun heq => hne (by rw [heq])
  · obtain ⟨a, b, hl⟩ := append_of_mem hsf
    have hg : g ∈ a ++ f :: b := hl ▸ htf
    rcases mem_append.mp hg with hg | hg
    · have hsub : [g, f].Sublist p.families :=
        hl ▸ (singleton_sublist.mpr hg).append (singleton_sublist.mpr (mem_cons_self ..))
      obtain ⟨h₁, h₂, h₃⟩ := apart_of_no_edge c.bodies c.covers p.one p.families_eq (s := (g, j)) (t := (f, i)) hsub htid
        hsid fun he => hts (mem_preds.mpr he)
      exact ⟨h₂, h₁, fun l hw hw' => h₃ l hw' hw⟩
    · have hg : g ∈ b := (mem_cons.mp hg).resolve_left fun heq => hsame heq.symm
      have hsub : [f, g].Sublist p.families :=
        hl ▸ ((singleton_sublist.mpr hg).cons_cons f).trans (sublist_append_right a _)
      exact apart_of_no_edge c.bodies c.covers p.one p.families_eq (s := (f, i)) (t := (g, j)) hsub hsid htid
        fun he => hst (mem_preds.mpr he)

/-- A footprint, by the tasks' keys. -/
def keyed (p : TileProgram) (F : TaskFamily × ℕ → Set Loc) (k : TaskKey) : Set Loc :=
  {l | ∃ t ∈ familyTasks p.families, key t = k ∧ l ∈ F t}

lemma keyed_key (F : TaskFamily × ℕ → Set Loc) (ht : t ∈ familyTasks p.families) : keyed p F (key t) = F t := by
  ext l
  constructor
  · rintro ⟨t', ht', hkey, hl⟩
    exact key_inj ht' ht hkey ▸ hl
  · exact fun hl => ⟨t, ht, rfl, hl⟩

lemma run_eq (m : Loc → V) : c.run m =
    .ok (runAll ((phaseOrder p.workers p.families).map c.bodies.act) m) := by
  have hprogram := programTasks_eq p.workers_pos p.one
  unfold programTasks at hprogram
  have hact : (placed c.bodies.body (id : Loc → Loc)) ∘ (fun task => (task.1, taskCoords task)) = c.bodies.act := by
    funext task
    exact Action.place_id _
  unfold run sched
  rw [runPhases_ok p.workers_pos, hprogram, map_map, hact]

lemma runAll_steps {m : Loc → V} (hm : I m) : ∀ {ts : List (TaskFamily × ℕ)}, ts ⊆ familyTasks p.families →
    runAll ((ts.map key).flatMap c.steps) m = runAll (ts.map c.bodies.act) m := by
  intro ts
  induction ts generalizing m with
  | nil => exact fun _ => rfl
  | cons t ts ih =>
    intro hts
    have ht := hts (mem_cons_self ..)
    obtain ⟨hf, htid⟩ := mem_familyTasks.mp ht
    rw [map_cons, map_cons, runAll_cons, flatMap_cons, runAll_append, c.whole t ht m hm]
    exact ih ((c.bodies.within t.1 hf t.2 htid).keeps m hm) fun u hu => hts (mem_cons_of_mem t hu)

/-- Under either runtime the steps, interleaved, leave what the phases leave. -/
lemma run_of_inv {S : Type} {rt : Runtime TaskKey S} {r₀ : S} {m : Loc → V} (hm : I m)
    {s : OverlappedTasks.State TaskKey S Loc V} (h : OverlappedTasks.Inv rt c.steps (p.deps none).toDepGraph r₀ m s)
    (hall : ∀ k ∈ (p.deps none).nodes, k ∈ rt.completed s.runtime) : c.run m = .ok s.mem := by
  have htask : ∀ k ∈ (p.deps none).nodes, ∃ t ∈ familyTasks p.families, key t = k := by
    intro k hk
    obtain ⟨t, ht, rfl⟩ := mem_map.mp ((order_perm none).symm.subset hk)
    exact ⟨t, p.tasks_perm.subset ht, rfl⟩
  have hmem : s.mem = runAll (p.order.flatMap c.steps) m := by
    refine h.mem_eq (R := keyed p c.bodies.reads) (W := keyed p c.bodies.writes) hall (order_perm none) (order_topo none)
      (fun k hk a ha => ?_) (fun j hj k hk hne hjk hkj => ?_) hm
    · obtain ⟨t, ht, rfl⟩ := htask k hk
      rw [keyed_key _ ht, keyed_key _ ht]
      exact c.within t ht a ha
    · obtain ⟨s, hs, rfl⟩ := htask j hj
      obtain ⟨t, ht, rfl⟩ := htask k hk
      rw [keyed_key _ hs, keyed_key _ hs, keyed_key _ ht, keyed_key _ ht]
      exact c.apart hs ht (fun heq => hne (by rw [heq])) hjk hkj
  rw [c.run_eq, hmem, TileProgram.order, c.runAll_steps hm p.tasks_perm.subset]

end TileProgram.Code

section

variable {V : Type} {p : TileProgram} {I : (Loc → V) → Prop}

/-- **Static schedules compute.**  The loads and stores of the workers' tasks may interleave in any way: a state is not
    stuck before all tasks have completed, and then its memory is what the phases leave. -/
theorem static_schedule_computes (it : SetOrder TaskKey) (c : p.Code I) {P : ℕ} (hP : 1 ≤ P) {m : Loc → V} (hm : I m) :
    ∃ S, buildStaticWorkerSchedule it (buildTileDependencies p.sched none) P = .ok S ∧ ∀ s, OverlappedTasks.Reachable
        (workerRuntime (buildTileDependencies p.sched none).toDepGraph S.plan) c.steps
        (InOrderWorkers.State.start TaskKey (Fin S.workers)) m s →
      (∀ k ∈ (buildTileDependencies p.sched none).nodes, k ∈ s.runtime.completed) ∧ c.run m = .ok s.mem ∨
        ∃ s', OverlappedTasks.Step (workerRuntime (buildTileDependencies p.sched none).toDepGraph S.plan) c.steps s s' := by
  obtain ⟨S, hS, hord, hworkers, hdeps, hassign⟩ := buildStaticWorkerSchedule_ok it (p.acyclic none) hP
  have hlt : ∀ k, S.assignment k < S.workers := fun k => by
    rw [hassign, hworkers]
    exact Nat.mod_lt _ hP
  have hc := hord.consistent hlt
  rw [hdeps] at hc
  refine ⟨S, hS, fun s hs => ?_⟩
  have hwaits : Waits (workerRuntime (p.deps none).toDepGraph S.plan) (p.deps none).toDepGraph (.start _ _) := by
    intro r hr k hk
    have hinv := InOrderWorkers.Inv.reachable hc hr
    exact ⟨hinv.started_mem hc hk, hinv.waited k hk⟩
  have h := OverlappedTasks.Inv.reachable rfl hwaits hs
  have hinv := InOrderWorkers.Inv.reachable hc h.reach
  by_cases hstuck : ∃ r, InOrderWorkers.Step (p.deps none).toDepGraph S.plan s.runtime r
  · obtain ⟨r, hr⟩ := hstuck
    refine .inr (h.progress (r := r) hr fun k hk => ?_)
    cases hr with
    | start => exact .inl hk
    | finish hbusy hnext =>
      refine (mem_append.mp hk).imp id fun hk => ?_
      rw [mem_singleton.mp hk]
      exact (hinv.started _).mpr (.inr ⟨_, hbusy, hnext⟩)
  · have hall := hinv.progress hc fun r hr => hstuck ⟨r, hr⟩
    exact .inl ⟨hall, c.run_of_inv hm h hall⟩

/-- Once all tasks are retired the memory is what the phases leave. -/
def QueueComputes (it : SetOrder TaskKey) (c : p.Code I) (W : Type) [DecidableEq W] : Prop :=
  ∀ m, I m → ∀ s, OverlappedTasks.Reachable (queueRuntime W it (buildTileDependencies p.sched none).toDepGraph)
      c.steps (TaskQueue.Run.start (buildTileDependencies p.sched none).toDepGraph W) m s →
    s.runtime.state.finished (buildTileDependencies p.sched none).toDepGraph → c.run m = .ok s.mem

/-- **The ready queue computes**, whoever the workers are and however their loads and stores interleave. -/
theorem ready_queue_computes (it : SetOrder TaskKey) (c : p.Code I) (W : Type) [DecidableEq W] :
    QueueComputes it c W := by
  intro m hm s hs hfinished
  have hwaits : Waits (queueRuntime W it (p.deps none).toDepGraph) (p.deps none).toDepGraph (.start _ W) :=
    fun r hr k hk => (TaskQueue.Run.Inv.reachable hr).queue.count.preds_done hk
  have h := OverlappedTasks.Inv.reachable rfl hwaits hs
  have hq := TaskQueue.Run.Inv.reachable h.reach
  exact c.run_of_inv hm h (hq.queue.finished_iff.mp hfinished)

end

/-! ## A pool and a reader, scheduled -/

def slotProgram : TileProgram := ⟨slotFamilies densePool, 1, one_pos, by decide, by decide⟩

def slotCode : slotProgram.Code SlotOne where
  bodies := slotBodies densePool densePool_holds
  covers := slotFamilies_covers (Region.spanCovers_of_rowMajor (by decide) _ _)
  steps k := if k = taskKey readerFamily 0 then [slotBody readerFamily []] else [slotBody (appendFamily densePool) []]
  within t ht a ha := by
    obtain ⟨hf, htid⟩ := mem_familyTasks.mp ht
    obtain ⟨f, tid⟩ := t
    rcases mem_pair.mp hf with rfl | rfl
    all_goals
      obtain rfl : tid = 0 := Nat.lt_one_iff.mp htid
      rw [mem_singleton.mp ha]
      exact (slotBodies densePool densePool_holds).within _ hf 0 htid
  whole t ht m _ := by
    obtain ⟨hf, htid⟩ := mem_familyTasks.mp ht
    obtain ⟨f, tid⟩ := t
    rcases mem_pair.mp hf with rfl | rfl
    all_goals
      obtain rfl : tid = 0 := Nat.lt_one_iff.mp htid
      rfl

theorem static_schedule_computes_slot :
    ∃ S, buildStaticWorkerSchedule SetOrder.sorted (buildTileDependencies slotProgram.sched none) 2 = .ok S := by
  obtain ⟨S, hS, _⟩ := static_schedule_computes SetOrder.sorted slotCode one_le_two (m := slotMemory) rfl
  exact ⟨S, hS⟩

end VKernels.Compiler
