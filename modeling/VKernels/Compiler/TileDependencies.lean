import VKernels.Compiler.Liveness
import VKernels.Compiler.RegionOverlap
import VKernels.Compiler.StaticSchedule

/-!
# Tile dependencies

After `build_tile_dependencies` of `compiler/schedule_static.py`: operator hazards expanded into
task edges.

* `TaskKey` — family id and task id, compared as a pair.
* `taskPairHazard`, `tileEdges` — the edges of one hazard, and of all.
* `buildTileDependencies` — the task dependency graph.
* `Region.Holds` — an element the region may stand for.
* `TileBodies` — task bodies inside the declared regions of task and operator.

## Results

* `mem_tileEdges` — a conflict of tasks of two families whose spans cover is an edge.
* `tile_order_sound` — every linear extension leaves what the phases leave.
* `narrowed_pool_reorders` — with an indirect region over a narrowed pool an extension does not.
-/

namespace VKernels.Compiler

open LocalActions StaticSchedule CountedReady
open List
open PhaseSchedule (fromFamilies fromFamilies_ok groupPhases opOrder)

abbrev TaskKey := String ×ₗ ℕ

def taskKey (fam : TaskFamily) (tid : ℕ) : TaskKey := toLex (fam.familyId, tid)

def familyKeys (fam : TaskFamily) : List TaskKey := (List.range fam.taskCount).map (taskKey fam)

/-- The regions of a task id in range, for which the callbacks do not raise. -/
def taskRegions : Except String (List Region) → List Region
  | .ok regions => regions
  | .error _ => []

def taskPairHazard (kind : HazardKind) (u : TaskFamily) (tu : ℕ) (v : TaskFamily) (tv : ℕ) : Bool :=
  match kind with
  | .raw => (taskRegions (u.writes tu)).any fun wu => (taskRegions (v.reads tv)).any wu.overlaps
  | .war => (taskRegions (u.reads tu)).any fun ru => (taskRegions (v.writes tv)).any ru.overlaps
  | .waw => (taskRegions (u.writes tu)).any fun wu => (taskRegions (v.writes tv)).any wu.overlaps

/-- The dictionary `{fam.op.opid: fam}`: the last family of an operator. -/
def famByOpid (families : List TaskFamily) (opid : ℕ) : Option TaskFamily :=
  families.reverse.find? fun f => f.op.opid = opid

/-- The edges between two families, as pairs of consumer and producer. -/
def familyEdges (kind : HazardKind) (u v : TaskFamily) : List (TaskKey × TaskKey) :=
  (List.range u.taskCount).flatMap fun tu => (List.range v.taskCount).filterMap fun tv =>
    if taskPairHazard kind u tu v tv then some (taskKey v tv, taskKey u tu) else none

/-- The producer lies more than `max_span` phases back. -/
def beyondSpan (maxSpan : Option ℤ) (producer consumer : ℕ) : Bool :=
  match maxSpan with
  | some span => span < (consumer : ℤ) - producer
  | none => false

def hazardEdges (families : List TaskFamily) (phaseOf : ℕ → ℕ) (maxSpan : Option ℤ) (hz : Hazard) :
    List (TaskKey × TaskKey) :=
  match famByOpid families hz.producer, famByOpid families hz.consumer with
  | some u, some v =>
    if beyondSpan maxSpan (phaseOf u.op.opid) (phaseOf v.op.opid) then [] else
      familyEdges hz.kind u v
  | _, _ => []

def scheduleFamilies (sched : PhaseSchedule) : List TaskFamily := sched.phases.flatMap (·.families)

def tileEdges (sched : PhaseSchedule) (maxSpan : Option ℤ) : List (TaskKey × TaskKey) :=
  let families := scheduleFamilies sched
  (computeHazards (families.map TaskFamily.op)).flatMap
    (hazardEdges families (fun opid => (phaseOfOp sched opid).getD 0) maxSpan)

/-- `graph_dep.tasks`: a later phase overrides an earlier one. -/
def phaseOfKey (sched : PhaseSchedule) (k : TaskKey) : ℕ :=
  sched.phases.foldl (fun acc phase =>
    if k ∈ phase.families.flatMap familyKeys then phase.index else acc) 0

lemma mem_familyEdges {kind : HazardKind} {u v : TaskFamily} {e : TaskKey × TaskKey} :
    e ∈ familyEdges kind u v ↔ ∃ tu < u.taskCount, ∃ tv < v.taskCount,
      taskPairHazard kind u tu v tv = true ∧ e = (taskKey v tv, taskKey u tu) := by
  unfold familyEdges
  simp only [mem_flatMap, mem_filterMap, mem_range]
  constructor
  · rintro ⟨tu, htu, tv, htv, he⟩
    by_cases hpair : taskPairHazard kind u tu v tv = true
    · rw [if_pos hpair] at he
      exact ⟨tu, htu, tv, htv, hpair, (Option.some.inj he).symm⟩
    · rw [if_neg hpair] at he
      cases he
  · rintro ⟨tu, htu, tv, htv, hpair, rfl⟩
    exact ⟨tu, htu, tv, htv, if_pos hpair⟩

variable {families : List TaskFamily} {f : TaskFamily} {sched : PhaseSchedule} {workers : ℕ}

lemma mem_hazardEdges {phaseOf : ℕ → ℕ} {maxSpan : Option ℤ}
    {hz : Hazard} {e : TaskKey × TaskKey} (h : e ∈ hazardEdges families phaseOf maxSpan hz) :
    ∃ u v, famByOpid families hz.producer = some u ∧ famByOpid families hz.consumer = some v ∧
      e ∈ familyEdges hz.kind u v := by
  unfold hazardEdges at h
  cases hu : famByOpid families hz.producer with
  | none => simp [hu] at h
  | some u =>
    cases hv : famByOpid families hz.consumer with
    | none => simp [hu, hv] at h
    | some v =>
      simp only [hu, hv] at h
      split at h
      · cases h
      · exact ⟨u, v, rfl, rfl, h⟩

lemma famByOpid_mem {opid : ℕ} (h : famByOpid families opid = some f) : f ∈ families ∧ f.op.opid = opid := by
  exact ⟨mem_reverse.mp (mem_of_find?_eq_some h), by simpa using find?_some h⟩

lemma mem_familyKeys (hf : f ∈ families) {tid : ℕ}
    (h : tid < f.taskCount) : taskKey f tid ∈ families.flatMap familyKeys :=
  mem_flatMap.mpr ⟨f, hf, mem_map_of_mem (mem_range.mpr h)⟩

def buildTileDependencies (sched : PhaseSchedule) (maxSpan : Option ℤ) : TaskDependencyGraph TaskKey where
  nodes := ((scheduleFamilies sched).flatMap familyKeys).dedup
  preds := fun k => (((tileEdges sched maxSpan).filter fun e => e.1 = k).map Prod.snd).toFinset
  nodup := List.nodup_dedup _
  closed := by
    intro k _ p hp
    simp only [List.mem_toFinset, List.mem_map, List.mem_filter] at hp
    obtain ⟨e, ⟨he, _⟩, rfl⟩ := hp
    obtain ⟨hz, _, he⟩ := List.mem_flatMap.mp he
    obtain ⟨u, _, hu, _, he⟩ := mem_hazardEdges he
    obtain ⟨tu, htu, _, _, _, rfl⟩ := mem_familyEdges.mp he
    exact List.mem_dedup.mpr (mem_familyKeys (famByOpid_mem hu).1 htu)
  phase := phaseOfKey sched

/-! ## Edges -/

def Region.Holds (r : Region) (l : Loc) : Prop := r.storageId = l.1 ∧ ∃ env, r.Touches env l.2

lemma Region.Holds.overlaps {r r' : Region} {l : Loc} (h : r.Holds l) (h' : r'.Holds l)
    (hr : r.SpanCovers) (hr' : r'.SpanCovers) : r.overlaps r' = true := by
  obtain ⟨hsid, _, htouch⟩ := h
  obtain ⟨hsid', _, htouch'⟩ := h'
  obtain ⟨hlo, hhi⟩ := Region.touches_span hr htouch
  obtain ⟨hlo', hhi'⟩ := Region.touches_span hr' htouch'
  exact Region.overlaps_iff.mpr ⟨hsid.trans hsid'.symm, hlo.trans hhi', hlo'.trans hhi⟩

lemma mem_allHazards {ops : List Operator} {u v : Operator} (h : [u, v].Sublist ops) {hz : Hazard}
    (hhz : hz ∈ hazardsBetween u v) : hz ∈ allHazards ops := by
  induction ops with
  | nil => cases h
  | cons w ops ih =>
    cases h with
    | cons _ h => exact mem_append_right _ (ih h)
    | cons_cons _ h =>
      have hv : v ∈ ops := singleton_sublist.mp h
      exact mem_append_left _ (mem_flatMap.mpr ⟨v, hv, hhz⟩)

lemma famByOpid_of_nodup (hone : (families.map fun f => f.op.opid).Nodup) (hf : f ∈ families) :
    famByOpid families f.op.opid = some f := by
  unfold famByOpid
  cases hfind : families.reverse.find? fun g => g.op.opid = f.op.opid with
  | none =>
    have := find?_eq_none.mp hfind f (mem_reverse.mpr hf)
    simp at this
  | some g =>
    have hg := mem_reverse.mp (mem_of_find?_eq_some hfind)
    have heq : g.op.opid = f.op.opid := by simpa using find?_some hfind
    rw [inj_on_of_nodup_map hone hg hf heq]

lemma exists_overlaps {rs rs' : List Region} {l : Loc} (hcov : ∀ r ∈ rs, r.SpanCovers)
    (hcov' : ∀ r ∈ rs', r.SpanCovers) (h : ∃ r ∈ rs, r.Holds l) (h' : ∃ r ∈ rs', r.Holds l) :
    ∃ x ∈ rs, ∃ y ∈ rs', x.overlaps y := by
  obtain ⟨x, hx, hxl⟩ := h
  obtain ⟨y, hy, hyl⟩ := h'
  exact ⟨x, hx, y, hy, hxl.overlaps hyl (hcov x hx) (hcov' y hy)⟩

/-- The regions of the kind: the earlier side, and the later side. -/
def HazardKind.sides (kind : HazardKind) (reads writes reads' writes' : List Region) : List Region × List Region :=
  match kind with
  | .raw => (writes, reads')
  | .war => (reads, writes')
  | .waw => (writes, writes')

lemma mem_tileEdges {u v : TaskFamily} {tu tv : ℕ} (kind : HazardKind)
    (hone : ((scheduleFamilies sched).map fun f => f.op.opid).Nodup)
    (hsub : [u, v].Sublist (scheduleFamilies sched)) (htu : tu < u.taskCount) (htv : tv < v.taskCount)
    (hop : ∃ x ∈ (kind.sides u.op.readRegions u.op.writeRegions v.op.readRegions
        v.op.writeRegions).1, ∃ y ∈ (kind.sides u.op.readRegions u.op.writeRegions
        v.op.readRegions v.op.writeRegions).2, x.overlaps y)
    (htask : ∃ x ∈ (kind.sides (taskRegions (u.reads tu)) (taskRegions (u.writes tu))
        (taskRegions (v.reads tv)) (taskRegions (v.writes tv))).1,
      ∃ y ∈ (kind.sides (taskRegions (u.reads tu)) (taskRegions (u.writes tu))
        (taskRegions (v.reads tv)) (taskRegions (v.writes tv))).2, x.overlaps y) :
    (taskKey v tv, taskKey u tu) ∈ tileEdges sched none := by
  obtain ⟨x, hx, y, hy, hxy⟩ := hop
  have hops : [u.op, v.op].Sublist ((scheduleFamilies sched).map TaskFamily.op) := hsub.map TaskFamily.op
  have hhz : (⟨kind, u.op.opid, v.op.opid, x.storageId⟩ : Hazard) ∈
      computeHazards ((scheduleFamilies sched).map TaskFamily.op) := by
    refine mem_dedupeHazards.mpr (mem_allHazards hops ?_)
    unfold hazardsBetween
    simp only [mem_append, mem_conflicts]
    cases kind with
    | raw => exact .inl (.inl ⟨x, hx, y, hy, hxy, rfl⟩)
    | war => exact .inl (.inr ⟨x, hx, y, hy, hxy, rfl⟩)
    | waw => exact .inr ⟨x, hx, y, hy, hxy, rfl⟩
  have hpair : taskPairHazard kind u tu v tv = true := by
    obtain ⟨x, hx, y, hy, hxy⟩ := htask
    cases kind
    all_goals exact any_eq_true.mpr ⟨x, hx, any_eq_true.mpr ⟨y, hy, hxy⟩⟩
  have hu : famByOpid (scheduleFamilies sched) u.op.opid = some u := famByOpid_of_nodup hone (hsub.subset (by simp))
  have hv : famByOpid (scheduleFamilies sched) v.op.opid = some v := famByOpid_of_nodup hone (hsub.subset (by simp))
  refine mem_flatMap.mpr ⟨_, hhz, ?_⟩
  unfold hazardEdges
  simp only [hu, hv]
  exact mem_familyEdges.mpr ⟨tu, htu, tv, htv, hpair, rfl⟩

lemma mem_preds {maxSpan : Option ℤ} {k p : TaskKey} :
    p ∈ (buildTileDependencies sched maxSpan).preds k ↔ (k, p) ∈ tileEdges sched maxSpan := by
  unfold buildTileDependencies
  simp only [mem_toFinset, mem_map, mem_filter, decide_eq_true_eq]
  constructor
  · rintro ⟨⟨_, _⟩, ⟨he, rfl⟩, rfl⟩
    exact he
  · intro he
    exact ⟨(k, p), ⟨he, rfl⟩, rfl⟩

/-! ## One family an operator -/

lemma eraseDups_of_nodup {l : List ℕ} (h : l.Nodup) : l.eraseDups = l := by
  induction l with
  | nil => rfl
  | cons a l ih =>
    obtain ⟨ha, hl⟩ := nodup_cons.mp h
    have hfilter : l.filter (fun b => !b == a) = l := by
      refine filter_eq_self.mpr fun b hb => ?_
      have hne : b ≠ a := fun hba => ha (hba ▸ hb)
      simp [hne]
    rw [eraseDups_cons, hfilter, ih hl]

lemma filter_opid (hone : (families.map fun f => f.op.opid).Nodup) {a : TaskFamily} (ha : a ∈ families) :
    families.filter (fun f => f.op.opid = a.op.opid) = [a] := by
  induction families with
  | nil => cases ha
  | cons f families ih =>
    obtain ⟨hf, hone⟩ := nodup_cons.mp hone
    have hfresh : ∀ g ∈ families, g.op.opid ≠ f.op.opid := fun g hg heq => hf (mem_map.mpr ⟨g, hg, heq⟩)
    rcases mem_cons.mp ha with rfl | ha
    · have hnil : families.filter (fun g => g.op.opid = a.op.opid) = [] :=
        filter_eq_nil_iff.mpr fun g hg => by simpa using hfresh g hg
      rw [filter_cons_of_pos (by simp), hnil]
    · have hne : f.op.opid ≠ a.op.opid := (hfresh a ha).symm
      rw [filter_cons_of_neg (by simpa using hne), ih hone ha]

lemma groupPhases_families (hone : (families.map fun f => f.op.opid).Nodup) :
    (groupPhases families).map PhasePlan.families = families.map fun f => [f] := by
  have horder : opOrder families = families.map fun f => f.op.opid := eraseDups_of_nodup hone
  unfold groupPhases
  rw [mapIdx_eq_zipIdx_map, map_map, horder]
  have hfst : ((families.map fun f => f.op.opid).zipIdx.map
      (PhasePlan.families ∘ fun p => ⟨p.2, families.filter fun f => f.op.opid = p.1⟩)) =
      ((families.map fun f => f.op.opid).zipIdx.map Prod.fst).map
        fun opid : ℕ => families.filter fun f => f.op.opid = opid := by
    rw [map_map]
    rfl
  refine hfst.trans ?_
  rw [zipIdx_map_fst, map_map]
  exact map_congr_left fun f hf => filter_opid hone hf

lemma fromFamilies_eq (hsched : fromFamilies families workers = .ok sched) :
    0 < workers ∧ sched = ⟨groupPhases families, workers⟩ := by
  by_cases hw : 0 < workers
  · rw [fromFamilies_ok hw] at hsched
    cases hsched
    exact ⟨hw, rfl⟩
  · unfold fromFamilies PhaseSchedule.checkInvariants at hsched
    dsimp only at hsched
    rw [if_pos (by omega)] at hsched
    cases hsched

lemma scheduleFamilies_eq (hone : (families.map fun f => f.op.opid).Nodup) :
    scheduleFamilies ⟨groupPhases families, workers⟩ = families := by
  unfold scheduleFamilies
  rw [flatMap_def]
  rw [groupPhases_families hone]
  clear hone
  induction families with
  | nil => rfl
  | cons f families ih =>
    rw [map_cons, flatten_cons, ih]
    rfl

/-! ## Tasks -/

/-- The coordinates of a task id in range. -/
def taskCoords (task : TaskFamily × ℕ) : List ℕ := (TileDomain.coordsFrom task.1.domain.taskGrid task.2).1

def familyTasks (families : List TaskFamily) : List (TaskFamily × ℕ) :=
  families.flatMap fun f => (List.range f.taskCount).map fun tid : ℕ => (f, tid)

/-- The tasks in the order in which the phases run them. -/
def phaseOrder (workers : ℕ) (families : List TaskFamily) : List (TaskFamily × ℕ) :=
  families.flatMap fun f => (executionOrder f.taskCount workers).map fun tid : ℕ => (f, tid)

lemma phaseTasks_single (hw : 0 < workers) (i : ℕ) (f : TaskFamily) : phaseTasks workers ⟨i, [f]⟩ =
      (executionOrder f.taskCount workers).map fun tid : ℕ => (f, taskCoords (f, tid)) := by
  have hcount : PhasePlan.taskCount ⟨i, [f]⟩ = f.taskCount := by
    show (map TaskFamily.taskCount [f]).sum = f.taskCount
    simp
  have hlt : ∀ t ∈ executionOrder f.taskCount workers, t < f.taskCount :=
    fun t ht => mem_range.mp ((executionOrder_perm hw).subset ht)
  unfold phaseTasks
  rw [hcount]
  generalize executionOrder f.taskCount workers = ids at hlt
  induction ids with
  | nil => rfl
  | cons t ts ih =>
    have ht := hlt t (by simp)
    have hsome : (localTask ⟨i, [f]⟩ t).toOption = some (f, taskCoords (f, t)) := by
      unfold localTask
      have hlocate : PhasePlan.locate [f] t = .ok (f, t) := if_pos ht
      rw [hlocate]
      show (f.domain.coords t >>= fun coords => _ : Except String _).toOption = _
      rw [TileDomain.coords_ok ht]
      rfl
    have hcons := filterMap_cons_some (f := fun t => (localTask ⟨i, [f]⟩ t).toOption) (l := ts) hsome
    rw [hcons, map_cons, ih fun u hu => hlt u (by simp [hu])]

lemma programTasks_eq (hw : 0 < workers) (hone : (families.map fun f => f.op.opid).Nodup) :
    programTasks ⟨groupPhases families, workers⟩ =
      (phaseOrder workers families).map fun task => (task.1, taskCoords task) := by
  have hsame : ∀ phases : List PhasePlan, phases.flatMap (phaseTasks workers) =
      (phases.map PhasePlan.families).flatMap fun fams => phaseTasks workers ⟨0, fams⟩ := by
    intro phases
    induction phases with
    | nil => rfl
    | cons phase phases ih =>
      rw [flatMap_cons, ih, map_cons, flatMap_cons]
      rfl
  unfold programTasks phaseOrder
  rw [hsame, groupPhases_families hone]
  induction families with
  | nil => rfl
  | cons f families ih =>
    rw [map_cons, flatMap_cons, flatMap_cons, map_append, ih (nodup_cons.mp hone).2, phaseTasks_single hw, map_map]
    rfl

lemma runPhases_ok {V : Type} {body : TaskFamily → List ℕ → LocalActions.Action Loc V}
    (hw : 0 < workers) (phases : List PhasePlan) (m : Loc → V) :
    phases.foldlM (runPhase body (id : Loc → Loc) workers) m =
      .ok (runAll ((phases.flatMap (phaseTasks workers)).map (placed body id)) m) := by
  induction phases generalizing m with
  | nil => rfl
  | cons phase phases ih =>
    rw [foldlM_cons, runPhase_ok hw, flatMap_cons, map_append, runAll_append]
    exact ih _

lemma phaseOrder_perm (hw : 0 < workers) (families : List TaskFamily) :
    (phaseOrder workers families).Perm (familyTasks families) := by
  induction families with
  | nil => exact List.Perm.refl _
  | cons f families ih => exact ((executionOrder_perm hw).map _).append ih

structure TileBodies {V : Type} (I : (Loc → V) → Prop) (families : List TaskFamily) where
  body : TaskFamily → List ℕ → LocalActions.Action Loc V
  reads : TaskFamily × ℕ → Set Loc
  writes : TaskFamily × ℕ → Set Loc
  within : ∀ f ∈ families, ∀ tid < f.taskCount,
    Within I (reads (f, tid)) (writes (f, tid)) (body f (taskCoords (f, tid)))
  readsDeclared : ∀ f ∈ families, ∀ tid < f.taskCount, ∀ l ∈ reads (f, tid),
    (∃ r ∈ f.op.readRegions, r.Holds l) ∧ ∃ r ∈ taskRegions (f.reads tid), r.Holds l
  writesDeclared : ∀ f ∈ families, ∀ tid < f.taskCount, ∀ l ∈ writes (f, tid),
    (∃ r ∈ f.op.writeRegions, r.Holds l) ∧ ∃ r ∈ taskRegions (f.writes tid), r.Holds l
  siblings : ∀ f ∈ families, ∀ tid < f.taskCount, ∀ tid' < f.taskCount, tid ≠ tid' →
    Apart (reads (f, tid)) (writes (f, tid)) (reads (f, tid')) (writes (f, tid'))

def TileBodies.act {V : Type} {I : (Loc → V) → Prop} {families : List TaskFamily}
    (bodies : TileBodies I families) (task : TaskFamily × ℕ) : LocalActions.Action Loc V :=
  bodies.body task.1 (taskCoords task)

/-- Every region that the operator or a task declares covers what it can touch. -/
structure TaskFamily.Covers (f : TaskFamily) : Prop where
  opReads : ∀ r ∈ f.op.readRegions, r.SpanCovers
  opWrites : ∀ r ∈ f.op.writeRegions, r.SpanCovers
  reads : ∀ tid < f.taskCount, ∀ r ∈ taskRegions (f.reads tid), r.SpanCovers
  writes : ∀ tid < f.taskCount, ∀ r ∈ taskRegions (f.writes tid), r.SpanCovers

/-! ## Order -/

lemma mem_familyTasks {task : TaskFamily × ℕ} :
    task ∈ familyTasks families ↔ task.1 ∈ families ∧ task.2 < task.1.taskCount := by
  unfold familyTasks
  simp only [mem_flatMap, mem_map, mem_range]
  constructor
  · rintro ⟨f, hf, _, htid, rfl⟩
    exact ⟨hf, htid⟩
  · rintro ⟨hf, htid⟩
    exact ⟨task.1, hf, task.2, htid, rfl⟩

lemma families_sublist (order : ℕ → List ℕ) (hnodup : families.Nodup) {s t : TaskFamily × ℕ} (hne : s.1 ≠ t.1)
    (h : [s, t].Sublist (families.flatMap fun f => (order f.taskCount).map fun tid : ℕ => (f, tid))) :
    [s.1, t.1].Sublist families := by
  induction families with
  | nil => cases h
  | cons f families ih =>
    obtain ⟨hf, hnodup⟩ := nodup_cons.mp hnodup
    obtain ⟨l₁, l₂, hsplit, h₁, h₂⟩ := sublist_append_iff.mp h
    have hfst : ∀ x ∈ l₁, x.1 = f := by
      intro x hx
      obtain ⟨tid, _, rfl⟩ := mem_map.mp (h₁.subset hx)
      rfl
    have hmem : ∀ x ∈ l₂, x.1 ∈ families := by
      intro x hx
      obtain ⟨g, hg, hx⟩ := mem_flatMap.mp (h₂.subset hx)
      obtain ⟨_, _, rfl⟩ := mem_map.mp hx
      exact hg
    cases l₁ with
    | nil =>
      exact (ih hnodup (hsplit ▸ h₂)).cons f
    | cons x l₁ =>
      obtain ⟨hsx, hrest⟩ := cons.inj hsplit
      have hsf : s.1 = f := hsx ▸ hfst x (by simp)
      cases l₁ with
      | nil =>
        have hrest : [t] = l₂ := hrest
        have htf : t.1 ∈ families := hmem t (hrest ▸ by simp)
        rw [hsf]
        exact (singleton_sublist.mpr htf).cons_cons f
      | cons y l₁ =>
        obtain ⟨hty, _⟩ := cons.inj hrest
        have htf : t.1 = f := hty ▸ hfst y (by simp)
        exact absurd (hsf.trans htf.symm) hne

lemma phaseOrder_nodup (hw : 0 < workers) (hnodup : families.Nodup) : (phaseOrder workers families).Nodup := by
  refine nodup_flatMap.mpr ⟨fun f _ => ?_, ?_⟩
  · have hids : (executionOrder f.taskCount workers).Nodup := (executionOrder_perm hw).nodup_iff.mpr nodup_range
    exact hids.map fun _ _ h => (Prod.mk.inj h).2
  · refine hnodup.imp fun {f g} hfg x hx hy => ?_
    obtain ⟨_, _, rfl⟩ := mem_map.mp hx
    obtain ⟨_, _, heq⟩ := mem_map.mp hy
    exact hfg (congrArg Prod.fst heq).symm

/-! ## Soundness -/

section

variable {V : Type} {I : (Loc → V) → Prop} {families : List TaskFamily} {workers : ℕ}
  {sched : PhaseSchedule}

variable {s : TaskFamily × ℕ}

/-- Tasks of an earlier and a later family without an edge are apart. -/
lemma apart_of_no_edge (bodies : TileBodies I families) (hcover : ∀ f ∈ families, f.Covers)
    (hone : (families.map fun f => f.op.opid).Nodup) (hfams : scheduleFamilies sched = families)
    {t : TaskFamily × ℕ} (hsub : [s.1, t.1].Sublist families) (hs : s.2 < s.1.taskCount) (ht : t.2 < t.1.taskCount)
    (hno : (taskKey t.1 t.2, taskKey s.1 s.2) ∉ tileEdges sched none) :
    Apart (bodies.reads s) (bodies.writes s) (bodies.reads t) (bodies.writes t) := by
  have hsf : s.1 ∈ families := hsub.subset (by simp)
  have htf : t.1 ∈ families := hsub.subset (by simp)
  have hcs := hcover s.1 hsf
  have hct := hcover t.1 htf
  rw [← hfams] at hsub hone
  have hreads := bodies.readsDeclared s.1 hsf s.2 hs
  have hwrites := bodies.writesDeclared s.1 hsf s.2 hs
  have hreads' := bodies.readsDeclared t.1 htf t.2 ht
  have hwrites' := bodies.writesDeclared t.1 htf t.2 ht
  refine ⟨fun l hw hr => hno ?_, fun l hw hr => hno ?_, fun l hw hw' => hno ?_⟩
  · exact mem_tileEdges .raw hone hsub hs ht
      (exists_overlaps hcs.opWrites hct.opReads (hwrites l hw).1 (hreads' l hr).1)
      (exists_overlaps (hcs.writes _ hs) (hct.reads _ ht) (hwrites l hw).2 (hreads' l hr).2)
  · exact mem_tileEdges .war hone hsub hs ht
      (exists_overlaps hcs.opReads hct.opWrites (hreads l hr).1 (hwrites' l hw).1)
      (exists_overlaps (hcs.reads _ hs) (hct.writes _ ht) (hreads l hr).2 (hwrites' l hw).2)
  · exact mem_tileEdges .waw hone hsub hs ht
      (exists_overlaps hcs.opWrites hct.opWrites (hwrites l hw).1 (hwrites' l hw').1)
      (exists_overlaps (hcs.writes _ hs) (hct.writes _ ht) (hwrites l hw).2 (hwrites' l hw').2)

/-- A linear extension does not list a producer behind its consumer. -/
lemma topo_not_sublist {order : List (TaskFamily × ℕ)} (hnodup : order.Nodup)
    (htopo : (buildTileDependencies sched none).Topo (order.map fun t => taskKey t.1 t.2))
    (hinj : ∀ x ∈ order, ∀ y ∈ order, taskKey x.1 x.2 = taskKey y.1 y.2 → x = y)
    {t : TaskFamily × ℕ} (hs : s ∈ order) (ht : t ∈ order)
    (hedge : (taskKey t.1 t.2, taskKey s.1 s.2) ∈ tileEdges sched none) : ¬ [t, s].Sublist order := by
  obtain ⟨a, b, rfl⟩ := append_of_mem ht
  have hpred := htopo (a.map fun t => taskKey t.1 t.2) _
    (b.map fun t => taskKey t.1 t.2) (by simp) _ (mem_preds.mpr hedge)
  obtain ⟨s', hs', hkey⟩ := mem_map.mp hpred
  obtain rfl : s' = s := hinj s' (by simp [hs']) s hs hkey
  exact not_sublist_of_before hnodup hs'

lemma taskKey_inj (hids : (families.map TaskFamily.familyId).Nodup) {x y : TaskFamily × ℕ}
    (hx : x.1 ∈ families) (hy : y.1 ∈ families) (hkey : taskKey x.1 x.2 = taskKey y.1 y.2) : x = y := by
  have hpair : (x.1.familyId, x.2) = (y.1.familyId, y.2) := toLex.injective hkey
  have hid : x.1.familyId = y.1.familyId := (Prod.mk.inj hpair).1
  exact Prod.ext (inj_on_of_nodup_map hids hx hy hid) (Prod.mk.inj hpair).2

/-- **Tile dependencies preserve the program.** -/
theorem tile_order_sound (hsched : fromFamilies families workers = .ok sched)
    (hone : (families.map fun f => f.op.opid).Nodup)
    (hids : (families.map TaskFamily.familyId).Nodup) (bodies : TileBodies I families)
    (hcover : ∀ f ∈ families, f.Covers) {m : Loc → V} (hm : I m) :
    ∃ out, sched.phases.foldlM (runPhase bodies.body (id : Loc → Loc) sched.workers) m = .ok out ∧
      ∀ order : List (TaskFamily × ℕ), order.Perm (familyTasks families) →
        (buildTileDependencies sched none).Topo (order.map fun t => taskKey t.1 t.2) →
        runAll (order.map bodies.act) m = out := by
  obtain ⟨hw, rfl⟩ := fromFamilies_eq hsched
  have hfams : scheduleFamilies ⟨groupPhases families, workers⟩ = families := scheduleFamilies_eq hone
  have hnodup : families.Nodup := hone.of_map _
  refine ⟨_, runPhases_ok hw _ m, fun order hperm htopo => ?_⟩
  have hprogram := programTasks_eq hw hone
  unfold programTasks at hprogram
  rw [hprogram, map_map]
  have hact : (placed bodies.body (id : Loc → Loc)) ∘ (fun task => (task.1, taskCoords task)) = bodies.act := by
    funext task
    exact Action.place_id _
  rw [hact]
  have hphase := phaseOrder_perm hw families
  have hdup := phaseOrder_nodup hw hnodup
  have hordup : order.Nodup := (hperm.trans hphase.symm).nodup_iff.mpr hdup
  refine (runAll_eq_of_perm (R := bodies.reads) (W := bodies.writes) (hphase.trans hperm.symm)
    (fun t ht => ?_) (fun s t hst hts => ?_) hm).symm
  · obtain ⟨hf, htid⟩ := mem_familyTasks.mp (hphase.subset ht)
    exact bodies.within t.1 hf t.2 htid
  · have hsmem : s ∈ order := hts.subset (by simp)
    have htmem : t ∈ order := hts.subset (by simp)
    obtain ⟨hsf, hsid⟩ := mem_familyTasks.mp (hperm.subset hsmem)
    obtain ⟨htf, htid⟩ := mem_familyTasks.mp (hperm.subset htmem)
    by_cases hsame : s.1 = t.1
    · -- siblings: different ids, since the phase order lists no task twice
      obtain ⟨f, tid⟩ := s
      obtain ⟨g, tid'⟩ := t
      obtain rfl : f = g := hsame
      refine bodies.siblings f hsf tid hsid tid' htid fun heq => ?_
      subst heq
      have := hdup.sublist hst
      simp at this
    · have hbefore := families_sublist (executionOrder · workers) hnodup hsame hst
      refine apart_of_no_edge bodies hcover hone hfams hbefore hsid htid fun hedge => ?_
      refine topo_not_sublist hordup htopo (fun x hx y hy hkey => ?_) hsmem htmem hedge hts
      exact taskKey_inj hids (mem_familyTasks.mp (hperm.subset hx)).1 (mem_familyTasks.mp (hperm.subset hy)).1 hkey

end

/-! ## A pool and a reader of slot 1 -/

def slotTable : TensorValue := ⟨"slots", [1], [1], 2, 0⟩

def slotOut : TensorValue := ⟨"out", [2], [1], 1, 0⟩

def singleTask (familyId : String) (op : Operator) : TaskFamily where
  familyId := familyId
  op := op
  domain := ⟨[(1, 1)]⟩
  scratchBytes := 0
  readRegions := fun _ => op.readRegions
  writeRegions := fun _ => op.writeRegions

/-- Writes the first element of the slot that the table names. -/
def appendFamily (view : TensorValue) : TaskFamily :=
  singleTask "ph00_append" ⟨0, [.whole slotTable], [.indirect view "slots" 0]⟩

/-- Reads slot 1. -/
def readerFamily : TaskFamily := singleTask "ph01_reader" ⟨1, [.whole secondSlot], [.whole slotOut]⟩

def slotFamilies (view : TensorValue) : List TaskFamily := [appendFamily view, readerFamily]

def slotSchedule (view : TensorValue) : PhaseSchedule :=
  ⟨groupPhases (slotFamilies view), 1⟩

/-- The table holds slot 1. -/
def SlotOne (m : Loc → ℕ) : Prop := m (2, 0) = 1

def slotMemory (l : Loc) : ℕ := if l = (2, 0) then 1 else 0

def slotBody (f : TaskFamily) (_coords : List ℕ) : LocalActions.Action Loc ℕ := fun m =>
  if f.op.opid = 0 then [((0, 2 * m (2, 0)), 9)] else [((1, 0), m (0, 2)), ((1, 1), m (0, 3))]

lemma slotOut_touches {i : ℕ} (hi : i < 2) : (Region.whole slotOut).Touches (.wide 2) i := by
  refine ⟨[i], .cons ⟨hi, Int.natCast_nonneg i, ?_⟩ .nil, ?_⟩
  · show (i : ℤ) < 2
    omega
  · show i = 0 + (i * 1 + 0)
    omega

lemma slotTable_touches : (Region.whole slotTable).Touches (.wide 2) 0 := by
  refine ⟨[0], .cons ⟨by decide, by decide, ?_⟩ .nil, rfl⟩
  show (_ : ℤ) < _
  decide

def slotBodies (view : TensorValue) (hview : (Region.indirect view "slots" 0).Holds (0, 2)) :
    TileBodies SlotOne (slotFamilies view) where
  body := slotBody
  reads := fun task => if task.1.op.opid = 0 then {(2, 0)} else {(0, 2), (0, 3)}
  writes := fun task => if task.1.op.opid = 0 then {(0, 2)} else {(1, 0), (1, 1)}
  within := by
    intro f hf tid _
    rcases List.mem_pair.mp hf with rfl | rfl
    · refine ⟨fun m m' hm hm' _ => ?_, fun m hm p hp => ?_, fun m hm => ?_⟩
      · show [((0, 2 * m (2, 0)), 9)] = [((0, 2 * m' (2, 0)), 9)]
        rw [hm, hm']
      · have hp : p ∈ [(((0, 2 * m (2, 0)) : Loc), 9)] := hp
        rw [hm] at hp
        rw [List.mem_singleton.mp hp]
        rfl
      · show Function.update m (0, 2 * m (2, 0)) 9 (2, 0) = 1
        rw [Function.update_of_ne (by simp)]
        exact hm
    · refine ⟨fun m m' _ _ hsame => ?_, fun m _ p hp => ?_, fun m hm => ?_⟩
      · show [(((1, 0) : Loc), m (0, 2)), ((1, 1), m (0, 3))] =
          [((1, 0), m' (0, 2)), ((1, 1), m' (0, 3))]
        rw [hsame (0, 2) (.inl rfl), hsame (0, 3) (.inr rfl)]
      · have hp : p ∈ [(((1, 0) : Loc), m (0, 2)), ((1, 1), m (0, 3))] := hp
        rcases List.mem_pair.mp hp with rfl | rfl
        · exact .inl rfl
        · exact .inr rfl
      · show Function.update (Function.update m (1, 0) (m (0, 2))) (1, 1) (m (0, 3)) (2, 0) = 1
        rw [Function.update_of_ne (by simp), Function.update_of_ne (by simp)]
        exact hm
  readsDeclared := by
    intro f hf tid htid l hl
    rcases List.mem_pair.mp hf with rfl | rfl
    · obtain rfl : tid = 0 := Nat.lt_one_iff.mp htid
      have hheld : ∃ r ∈ (appendFamily view).op.readRegions, r.Holds l := by
        obtain rfl : l = (2, 0) := hl
        exact ⟨_, by simp [appendFamily, singleTask], rfl, _, slotTable_touches⟩
      exact ⟨hheld, hheld⟩
    · obtain rfl : tid = 0 := Nat.lt_one_iff.mp htid
      have hheld : ∃ r ∈ readerFamily.op.readRegions, r.Holds l := by
        rcases hl with rfl | rfl
        · exact ⟨_, by simp [readerFamily, singleTask], rfl, _, secondSlot_touches Nat.two_pos⟩
        · exact ⟨_, by simp [readerFamily, singleTask], rfl, _, secondSlot_touches Nat.one_lt_two⟩
      exact ⟨hheld, hheld⟩
  writesDeclared := by
    intro f hf tid htid l hl
    rcases List.mem_pair.mp hf with rfl | rfl
    · obtain rfl : tid = 0 := Nat.lt_one_iff.mp htid
      have hheld : ∃ r ∈ (appendFamily view).op.writeRegions, r.Holds l := by
        obtain rfl : l = (0, 2) := hl
        exact ⟨_, by simp [appendFamily, singleTask], hview⟩
      exact ⟨hheld, hheld⟩
    · obtain rfl : tid = 0 := Nat.lt_one_iff.mp htid
      have hheld : ∃ r ∈ readerFamily.op.writeRegions, r.Holds l := by
        rcases hl with rfl | rfl
        · exact ⟨_, by simp [readerFamily, singleTask], rfl, _, slotOut_touches Nat.two_pos⟩
        · exact ⟨_, by simp [readerFamily, singleTask], rfl, _, slotOut_touches Nat.one_lt_two⟩
      exact ⟨hheld, hheld⟩
  siblings := by
    intro f hf tid htid tid' htid' hne
    rcases List.mem_pair.mp hf with rfl | rfl
    · have := Nat.lt_one_iff.mp htid
      have := Nat.lt_one_iff.mp htid'
      omega
    · have := Nat.lt_one_iff.mp htid
      have := Nat.lt_one_iff.mp htid'
      omega

lemma slotSchedule_ok (view : TensorValue) :
    fromFamilies (slotFamilies view) 1 = .ok (slotSchedule view) :=
  fromFamilies_ok one_pos

lemma narrowedPool_holds : (Region.indirect narrowedPool "slots" 0).Holds (0, 2) :=
  ⟨rfl, _, narrowedPool_touches⟩

/-- A dense pool of two slots of two elements. -/
def densePool : TensorValue := ⟨"dense", [2, 2], [2, 1], 0, 0⟩

lemma densePool_holds : (Region.indirect densePool "slots" 0).Holds (0, 2) := by
  refine ⟨rfl, .wide 2, [1, 0], .cons ⟨by decide, 1, 0, by decide, ?_, rfl⟩
    (.cons ⟨by decide, by decide, ?_⟩ .nil), rfl⟩
  all_goals show (_ : ℤ) < _
  all_goals decide

lemma slotFamilies_covers {view : TensorValue}
    (hview : (Region.indirect view "slots" 0).SpanCovers) : ∀ f ∈ slotFamilies view, f.Covers := by
  intro f hf
  have hcovers {f : TaskFamily} {r w : Region} (hr : r.SpanCovers) (hw : w.SpanCovers)
      (hcount : f.taskCount = 1) (hreads : f.op.readRegions = [r]) (hwrites : f.op.writeRegions = [w])
      (htask : taskRegions (f.reads 0) = [r] ∧ taskRegions (f.writes 0) = [w]) : f.Covers := by
    have hcov {r : Region} (hr : r.SpanCovers) : ∀ r' ∈ [r], r'.SpanCovers := fun r' hr' => by
      rwa [mem_singleton.mp hr']
    refine ⟨hreads ▸ hcov hr, hwrites ▸ hcov hw, fun tid htid => ?_, fun tid htid => ?_⟩
    all_goals obtain rfl : tid = 0 := Nat.lt_one_iff.mp (hcount ▸ htid)
    · exact htask.1 ▸ hcov hr
    · exact htask.2 ▸ hcov hw
  rcases mem_pair.mp hf with rfl | rfl
  · exact hcovers (.inl rfl) hview rfl rfl rfl ⟨rfl, rfl⟩
  · exact hcovers (.inl rfl) (.inl rfl) rfl rfl rfl ⟨rfl, rfl⟩

theorem tile_order_sound_dense : ∃ out,
    (slotSchedule densePool).phases.foldlM (runPhase slotBody (id : Loc → Loc) 1) slotMemory = .ok out ∧
    ∀ order : List (TaskFamily × ℕ), order.Perm (familyTasks (slotFamilies densePool)) →
      (buildTileDependencies (slotSchedule densePool) none).Topo (order.map fun t => taskKey t.1 t.2) →
      runAll (order.map (slotBodies densePool densePool_holds).act) slotMemory = out :=
  tile_order_sound (slotSchedule_ok densePool) (by decide) (by decide) (slotBodies densePool densePool_holds)
    (slotFamilies_covers (Region.spanCovers_of_rowMajor (by decide) _ _)) rfl

/-- **Over a narrowed pool** there is no edge between the append and the reader of slot 1; running
    the reader first reads the old contents. -/
theorem narrowed_pool_reorders :
    fromFamilies (slotFamilies narrowedPool) 1 = .ok (slotSchedule narrowedPool) ∧
    (buildTileDependencies (slotSchedule narrowedPool) none).Topo
      [taskKey readerFamily 0, taskKey (appendFamily narrowedPool) 0] ∧
    [(readerFamily, 0), (appendFamily narrowedPool, 0)].Perm (familyTasks (slotFamilies narrowedPool)) ∧
    ((slotSchedule narrowedPool).phases.foldlM (runPhase
      (slotBodies narrowedPool narrowedPool_holds).body (id : Loc → Loc) 1) slotMemory).map
        (fun out => out (1, 0)) = .ok 9 ∧ runAll ([(readerFamily, 0), (appendFamily narrowedPool, 0)].map
      (slotBodies narrowedPool narrowedPool_holds).act) slotMemory (1, 0) = 0 := by
  have hnone : tileEdges (slotSchedule narrowedPool) none = [] := by decide
  refine ⟨slotSchedule_ok _, fun a k b _ p hp => ?_, List.Perm.swap _ _ _, rfl, rfl⟩
  cases hp

end VKernels.Compiler
