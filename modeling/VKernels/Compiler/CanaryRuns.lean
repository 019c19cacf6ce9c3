import VKernels.Compiler.Workspace

/-!
# The canary has no false alarm

A planned workspace under any task bodies that write only what their operators declare, in the operators' own
phase; what they read is left open.

## Results

* `Poisoned.tasks`, `Poisoned.step` — the tasks of a phase, and the whole phase, leave what is not kept poisoned.
* `canary_silent` — the check raises in no phase; the poison leaves alone what is alive and not freed, and puts
  NaN, or nothing, into a buffer that starts later.
* `canary_reaches_later` — it does put NaN there.
-/

namespace VKernels.Compiler

open LocalActions
open List

/-- The elements that operators of phase `k` declare as written. -/
def DeclaredWrites (g : OperatorGraph) (sched : PhaseSchedule) (k : ℕ) : Set Loc :=
  {l | ∃ op ∈ g.ops, phaseOfOp sched op.opid = some k ∧ regionOverlapsStorage op.writeRegions l.1 ∧
    ∀ e ∈ freshTable g, e.1 = l.1 → l.2 < e.2.2}

/-- Every task writes what operators of its own phase declare. -/
def OwnWrites {V : Type} (g : OperatorGraph) (sched : PhaseSchedule) (body : TaskFamily → List ℕ → Action Loc V) :
    Prop :=
  ∀ (k : ℕ) (hk : k < sched.phases.length), ∀ task ∈ phaseTasks sched.workers sched.phases[k], ∀ m,
    ∀ p ∈ body task.1 task.2 m, p.1 ∈ DeclaredWrites g sched k

section

variable {V : Type} {g : OperatorGraph} {sched : PhaseSchedule} {plan : WorkspacePlan} {nv : NanValue V} {k : ℕ}
  {m m₂ : Cell → V} {body : TaskFamily → List ℕ → Action Loc V}

lemma declaredWrites_live (h : Planned g sched plan) : DeclaredWrites g sched k ⊆ LiveLoc plan k := by
  rintro l ⟨op, hop, hph, hwrite, hsize⟩ b hb hsid
  obtain ⟨e, he, hesid, henumel⟩ := h.sized b hb
  have htouch : op.touchesStorage b.storageId = true := by
    unfold Operator.touchesStorage
    rw [hsid, hwrite, Bool.or_true]
  refine ⟨h.alive b hb op hop htouch k hph, ?_⟩
  rw [← henumel]
  exact hsize e he (hesid.trans hsid)

/-- **The tasks of a phase** write into its live elements only. -/
theorem Poisoned.tasks (hm : Poisoned nv plan (LiveLoc plan k) m) (h : Planned g sched plan)
    (hown : OwnWrites g sched body) (hk : k < sched.phases.length) : Poisoned nv plan (LiveLoc plan k)
      (runAll ((phaseTasks sched.workers sched.phases[k]).map (placed body (placeAt plan))) m) := by
  intro c hcov hc
  have hwithin : ∀ task ∈ phaseTasks sched.workers sched.phases[k],
      Within (fun _ => True) Set.univ (DeclaredWrites g sched k) (body task.1 task.2) := by
    refine fun task htask => ⟨fun m m' _ _ hsame => ?_, fun m _ p hp => hown k hk task htask m p hp, fun _ _ => trivial⟩
    rw [funext fun l => hsame l (Set.mem_univ l)]
  refine (place_runAll_frame hwithin fun _ _ l hl heq => ?_).trans (hm c hcov hc)
  exact hc ⟨l, declaredWrites_live h hl, heq⟩

lemma canaryCheck_eq (hcheck : canaryCheck (placeAt plan) nv plan k m = .ok m₂) :
    m₂ = (plan.buffers.filter (BufferPlan.dies k)).foldl (fillBuffer (placeAt plan) nv) m := by
  unfold canaryCheck at hcheck
  generalize plan.buffers = buffers at hcheck
  induction buffers generalizing m with
  | nil =>
    cases hcheck
    rfl
  | cons b buffers ih =>
    rw [foldlM_cons] at hcheck
    cases hstep : canaryStep _ nv plan k m b with
    | error e =>
      rw [hstep] at hcheck
      cases hcheck
    | ok m₁ =>
      rw [hstep] at hcheck
      have hrest := ih hcheck
      unfold canaryStep at hstep
      by_cases hfirst : k < b.firstPhase
      · -- not born: nothing is filled
        have hdies : ¬b.dies k = true := fun hd => absurd (dies_iff.mp hd).1 (by omega)
        rw [if_pos hfirst] at hstep
        rw [filter_cons_of_neg hdies, hrest]
        split at hstep
        · rw [Except.ok.inj hstep]
        · split at hstep
          · rw [Except.ok.inj hstep]
          · cases hstep
      · rw [if_neg hfirst] at hstep
        by_cases hlast : b.lastPhase = k ∧ ¬b.liveAtEnd
        · have hdies : b.dies k = true := dies_iff.mpr ⟨by omega, hlast.1, hlast.2⟩
          rw [if_pos hlast] at hstep
          rw [filter_cons_of_pos hdies, foldl_cons, Except.ok.inj hstep]
          exact hrest
        · have hdies : ¬b.dies k = true := fun hd => hlast (dies_iff.mp hd).2
          rw [if_neg hlast] at hstep
          rw [filter_cons_of_neg hdies, hrest, Except.ok.inj hstep]

lemma freed_live (h : Planned g sched plan) {l : Loc} (hl : l ∈ LiveLoc plan k)
    (hkeeps : ∀ b ∈ plan.buffers, b.dies k = true → b.storageId ≠ l.1) :
    (plan.buffers.filter (BufferPlan.dies k)).foldl (fillBuffer (placeAt plan) nv) m (placeAt plan l) =
      m (placeAt plan l) := by
  refine (foldl_fillBuffer _ m _).2 ?_
  rintro ⟨b, hb, i, hi, heq⟩
  obtain ⟨hb, hdies⟩ := mem_filter.mp hb
  obtain ⟨hfirst, hlast, -⟩ := dies_iff.mp hdies
  have hbi : (b.storageId, i) ∈ LiveLoc plan k := (mem_live h hb).mpr ⟨⟨hfirst, by omega⟩, hi⟩
  exact hkeeps b hb hdies (congrArg Prod.fst (placeAt_injOn h k hbi hl heq))

end

/-! ## Whole runs -/

variable {families : List TaskFamily}

lemma fromFamilies_index {workers : ℕ} {sched : PhaseSchedule}
    (hsched : PhaseSchedule.fromFamilies families workers = .ok sched) :
    0 < sched.workers ∧ ∀ (i : ℕ) (hi : i < sched.phases.length), (sched.phases[i]).index = i := by
  by_cases hw : 0 < workers
  · rw [PhaseSchedule.fromFamilies_ok hw] at hsched
    cases hsched
    exact ⟨hw, fun i hi => (PhaseSchedule.groupPhases_index hi).1⟩
  · unfold PhaseSchedule.fromFamilies PhaseSchedule.checkInvariants at hsched
    dsimp only at hsched
    rw [if_pos (by omega)] at hsched
    cases hsched

lemma planned_of_planMemory {g : OperatorGraph} {sched : PhaseSchedule}
    {plan : WorkspacePlan} {scratch : ScratchPlan} (hplan : planMemory g sched families = .ok (plan, scratch)) :
    Planned g sched plan := by
  have hops : ∀ op ∈ g.ops, ∃ ph, phaseOfOp sched op.opid = some ph := by
    intro op hop
    cases hph : phaseOfOp sched op.opid with
    | some ph => exact ⟨ph, rfl⟩
    | none =>
      -- an operator without a phase ends the planning
      have herr : opPhase sched op = .error (.keyError op.opid) := by
        unfold opPhase
        rw [hph]
      have hfail : ∀ ops : List Operator, op ∈ ops → ∃ e, ops.mapM (opPhase sched) = .error e := by
        intro ops
        induction ops with
        | nil => intro hmem; cases hmem
        | cons op' ops ih =>
          intro hmem
          rw [mapM_cons]
          cases hop' : opPhase sched op' with
          | error e => exact ⟨e, rfl⟩
          | ok q =>
            rcases mem_cons.mp hmem with rfl | hmem
            · rw [herr] at hop'
              cases hop'
            · obtain ⟨e, he⟩ := ih hmem
              exact ⟨e, by rw [he]; rfl⟩
      obtain ⟨e, he⟩ := hfail g.ops hop
      unfold planMemory at hplan
      rw [he] at hplan
      cases hplan
  obtain ⟨_, _, hok, hplanned⟩ := planMemory_ok families hops
  rw [hplan] at hok
  cases hok
  exact hplanned

lemma Poisoned.step {V : Type} {g : OperatorGraph} {sched : PhaseSchedule} {plan : WorkspacePlan}
    {nv : NanValue V} {k : ℕ} {m : Cell → V} {body : TaskFamily → List ℕ → Action Loc V}
    (hm : Poisoned nv plan (KeptLoc plan k) m) (h : Planned g sched plan) (hown : OwnWrites g sched body)
    (hw : 0 < sched.workers) (hk : k < sched.phases.length) (hindex : (sched.phases[k]).index = k) :
    ∃ m₂, executePhase body (placeAt plan) nv plan true sched.workers m sched.phases[k] = .ok m₂ ∧
      Poisoned nv plan (KeptLoc plan (k + 1)) m₂ := by
  have hlive : Poisoned nv plan (LiveLoc plan k) m :=
    fun c hcov hc => hm c hcov fun hkept => hc (Set.image_mono (KeptLoc.subset_live h hk) hkept)
  have htasks := hlive.tasks h hown hk
  refine ⟨_, ?_, htasks.freed⟩
  unfold executePhase
  rw [runPhase_ok hw, hindex]
  exact htasks.check h

lemma foldlM_keeps {α σ ε : Type} {f : σ → α → Except ε σ} {l : List α} (P : ℕ → σ → Prop)
    (hstep : ∀ (i : ℕ) (hi : i < l.length) (s : σ), P i s → ∃ s', f s l[i] = .ok s' ∧ P (i + 1) s') {s : σ}
    (hinit : P 0 s) : ∃ s', l.foldlM f s = .ok s' ∧ P l.length s' := by
  induction l generalizing P s with
  | nil => exact ⟨s, rfl, hinit⟩
  | cons a l ih =>
    obtain ⟨s₁, hs, hP⟩ := hstep 0 (by simp) s hinit
    have hs : f s a = .ok s₁ := hs
    rw [foldlM_cons, hs]
    exact ih (fun i => P (i + 1)) (fun i hi => hstep (i + 1) (by simpa using hi)) hP

/-- **The canary is silent.** -/
theorem canary_silent {V : Type} {g : OperatorGraph} {families lowered : List TaskFamily} {workers : ℕ}
    {sched : PhaseSchedule} {plan : WorkspacePlan} {scratch : ScratchPlan}
    (hsched : PhaseSchedule.fromFamilies families workers = .ok sched)
    (hplan : planMemory g sched lowered = .ok (plan, scratch)) (nv : NanValue V)
    {body : TaskFamily → List ℕ → Action Loc V} (hown : OwnWrites g sched body) :
    (∀ m, ∃ out, execute body (placeAt plan) nv plan true sched m = .ok out) ∧
    ∀ (k : ℕ) (m m₂ : Cell → V), canaryCheck (placeAt plan) nv plan k m = .ok m₂ →
      (∀ sid i, m₂ (.external sid i) = m (.external sid i)) ∧ ∀ b ∈ plan.buffers, ∀ i < b.numel,
        (b.firstPhase ≤ k ∧ k ≤ b.lastPhase ∧ b.dies k = false →
          m₂ (.workspace (b.offset + i)) = m (.workspace (b.offset + i))) ∧
        (k < b.firstPhase → m₂ (.workspace (b.offset + i)) = m (.workspace (b.offset + i)) ∨
          m₂ (.workspace (b.offset + i)) = nv.nan) := by
  have h := planned_of_planMemory hplan
  obtain ⟨hw, hindex⟩ := fromFamilies_index hsched
  refine ⟨fun m => ?_, fun k m m₂ hcheck => ?_⟩
  · have hinit : Poisoned nv plan (KeptLoc plan 0) (plan.buffers.foldl (fillBuffer (placeAt plan) nv) m) :=
      fun c hcov _ => (foldl_fillBuffer _ m c).1 hcov
    obtain ⟨out, hout, -⟩ := foldlM_keeps (fun k => Poisoned nv plan (KeptLoc plan k))
      (fun k hk _ hm => hm.step h hown hw hk (hindex k hk)) hinit
    exact ⟨out, hout⟩
  · rw [canaryCheck_eq hcheck]
    refine ⟨fun sid i => ?_, fun b hb i hi => ⟨fun ⟨hfirst, hlast, hdies⟩ => ?_, fun _ => ?_⟩⟩
    · refine (foldl_fillBuffer _ m _).2 ?_
      rintro ⟨b, hb, j, _, heq⟩
      rw [placeAt_buffer h (mem_filter.mp hb).1] at heq
      cases heq
    · rw [← placeAt_buffer h hb]
      refine freed_live h ((mem_live h hb).mpr ⟨⟨hfirst, hlast⟩, hi⟩) fun b' hb' hdies' hsid => ?_
      rw [h.buffer_eq hb' hb hsid, hdies] at hdies'
      cases hdies'
    · by_cases hdead : Covered (placeAt plan) (plan.buffers.filter (BufferPlan.dies k)) (.workspace (b.offset + i))
      · exact .inr ((foldl_fillBuffer _ m _).1 hdead)
      · exact .inl ((foldl_fillBuffer _ m _).2 hdead)

/-! ## A buffer in the place of another -/

lemma leftover_own : OwnWrites leftoverGraph leftoverSchedule leftoverBodies.body := by
  have hphased := phased_fromFamilies leftoverSchedule_ok (g := leftoverGraph) (by decide)
  intro k hk task htask m p hp
  have hf := mem_phaseTasks hphased.workers htask
  obtain ⟨hop, hph⟩ := hphased.ops k hk task.1 hf
  refine ⟨task.1.op, hop, hph, ?_⟩
  have hwrites := (leftoverBodies.within task).writes m trivial p hp
  have hsize : ∀ e ∈ freshTable leftoverGraph, e.2.2 = 2 := by decide
  have hpair {sid : ℕ} (hl : p.1 ∈ pairLocs sid) : p.1.1 = sid ∧ ∀ e ∈ freshTable leftoverGraph, e.1 = p.1.1 →
      p.1.2 < e.2.2 := by
    refine ⟨hl.1, fun e he _ => ?_⟩
    rw [hsize e he]
    exact hl.2
  rcases hwrites with ⟨hop, hl⟩ | ⟨hop, hl⟩ | ⟨hop, hl⟩
  all_goals
    obtain ⟨hsid, hlt⟩ := hpair hl
    refine ⟨?_, hlt⟩
    rw [hop, hsid]
    decide

theorem canary_silent_leftover : ∃ out,
    execute leftoverBodies.body (placeAt leftoverPlan) ⟨0, (· == 0), rfl⟩ leftoverPlan true leftoverSchedule
      (fun _ => 7) = .ok out :=
  (canary_silent leftoverSchedule_ok leftover_planned ⟨0, (· == 0), rfl⟩ leftover_own).1 fun _ => 7

/-- The poison of phase 1 changes element 0 of `b`, which is alive in phase 2: `a`, freed there, leaves its place
to `b`. -/
theorem canary_reaches_later :
    planMemory leftoverGraph leftoverSchedule leftoverFamilies = .ok (leftoverPlan, ⟨256, 0⟩) ∧
    OwnWrites leftoverGraph leftoverSchedule leftoverBodies.body ∧
    ∃ b ∈ leftoverPlan.buffers, b.firstPhase = 2 ∧
      -- before the check of phase 1, and after it
      ((executePhase leftoverBodies.body (placeAt leftoverPlan) ⟨0, (· == 0), rfl⟩ leftoverPlan true 1
          (fun _ => 0) leftoverSchedule.phases[0] >>= fun m =>
        runPhase leftoverBodies.body (placeAt leftoverPlan) 1 m leftoverSchedule.phases[1]).map
          fun m => m (placeAt leftoverPlan (b.storageId, 0))) = .ok 7 ∧
      ((executePhase leftoverBodies.body (placeAt leftoverPlan) ⟨0, (· == 0), rfl⟩ leftoverPlan true 1
          (fun _ => 0) leftoverSchedule.phases[0] >>= fun m =>
        executePhase leftoverBodies.body (placeAt leftoverPlan) ⟨0, (· == 0), rfl⟩ leftoverPlan true 1 m
          leftoverSchedule.phases[1]).map fun m => m (placeAt leftoverPlan (b.storageId, 0))) = .ok 0 := by
  refine ⟨leftover_planned, leftover_own, ⟨"b", 2, 2, 2, 2, 0, true⟩, by decide, rfl, ?_, ?_⟩ <;> rfl

end VKernels.Compiler
