import VKernels.Compiler.Liveness

/-!
# Workspace reuse

The run in a planned workspace against the run with an array for every storage.

## Results

* `Poisoned.check`, `Poisoned.freed` — the check of a phase passes, and poisons what is not kept.
* `CanaryInv.step`, `PlainInv.step` — one phase.
* `workspace_refines` — planning ends, both runs end, and they agree on the external storages and
  on the buffers that are live at the end.
* `leftover_escapes` — without the canary, an element that no task writes keeps what lay there.
-/

namespace VKernels.Compiler

open LocalActions
open List
open BufferPlan (dies)

/-- The planned elements outside `S` hold NaN. -/
def Poisoned {V : Type} (nv : NanValue V) (plan : WorkspacePlan) (S : Set Loc) (m : Cell → V) : Prop :=
  ∀ c, Covered (placeAt plan) plan.buffers c → c ∉ placeAt plan '' S → m c = nv.nan

variable {V : Type} {g : OperatorGraph} {sched : PhaseSchedule} {plan : WorkspacePlan}

/-! ## One phase -/

section

variable (bodies : TaskBodies g V) {nv : NanValue V} {k : ℕ} {m : Loc → V} {m' : Cell → V}

/-- The tasks of phase `k`. -/
def tasksAt (sched : PhaseSchedule) {k : ℕ} (hk : k < sched.phases.length) :
    List (TaskFamily × List ℕ) := phaseTasks sched.workers (sched.phases[k])

lemma runPhase_own (hw : 0 < sched.workers) (hk : k < sched.phases.length) :
    runPhase bodies.body (id : Loc → Loc) sched.workers m (sched.phases[k]) =
      .ok (runAll ((tasksAt sched hk).map bodies.act) m) := by
  rw [runPhase_ok hw]
  have hplaced : placed bodies.body (id : Loc → Loc) = bodies.act := by
    funext task
    exact Action.place_id _
  rw [hplaced]
  rfl

lemma runPhase_packed (hw : 0 < sched.workers) (hk : k < sched.phases.length) :
    runPhase bodies.body (placeAt plan) sched.workers m' (sched.phases[k]) =
      .ok (runAll ((tasksAt sched hk).map fun t => (bodies.act t).place (placeAt plan)) m') := by
  rw [runPhase_ok hw]
  rfl

lemma tasksAt_live (h : Planned g sched plan) (hphased : Phased g sched)
    (hk : k < sched.phases.length) : ∀ task ∈ tasksAt sched hk,
      bodies.reads task ⊆ LiveLoc plan k ∧ bodies.writes task ⊆ LiveLoc plan k := by
  intro task htask
  have hf := mem_phaseTasks hphased.workers htask
  exact ⟨fun l hl => declares_live h hphased hk hf (bodies.readsDeclared task l hl),
    fun l hl => declares_live h hphased hk hf (bodies.writesDeclared task l hl)⟩

/-- **The tasks of a phase** in both memories: they agree on `D` and on what was assigned, and touch
    live elements only. -/
theorem tasks_agree (h : Planned g sched plan) (hphased : Phased g sched)
    (hk : k < sched.phases.length) {D : Set Loc} (hD : D ⊆ LiveLoc plan k)
    (hreads : ReadsWritten bodies.reads bodies.act D (tasksAt sched hk) m)
    (hagree : ∀ l ∈ D, m' (placeAt plan l) = m l) : (∀ l ∈ D ∪ written ((tasksAt sched hk).map bodies.act) m,
      runAll ((tasksAt sched hk).map fun t => (bodies.act t).place (placeAt plan)) m'
        (placeAt plan l) = runAll ((tasksAt sched hk).map bodies.act) m l) ∧
    (∀ l ∉ LiveLoc plan k, runAll ((tasksAt sched hk).map bodies.act) m l = m l) ∧ ∀ c ∉ placeAt plan '' LiveLoc plan k,
      runAll ((tasksAt sched hk).map fun t => (bodies.act t).place (placeAt plan)) m' c = m' c := by
  have hlive := tasksAt_live bodies h hphased hk
  have hwithin : ∀ task ∈ tasksAt sched hk,
      Within (fun _ => True) (bodies.reads task) (bodies.writes task) (bodies.act task) :=
    fun task _ => bodies.within task
  refine ⟨?_, fun l hl => ?_, fun c hc => ?_⟩
  · exact place_runAll_agree hwithin (placeAt_injOn h k) (fun t ht => (hlive t ht).2) hD hreads hagree
  · refine runAll_frame (I := fun _ => True) (fun a ha => ?_) trivial
    obtain ⟨task, htask, rfl⟩ := mem_map.mp ha
    exact ⟨_, _, hwithin task htask, fun hw => hl ((hlive task htask).2 hw)⟩
  · exact place_runAll_frame hwithin fun task htask l hl heq =>
      hc ⟨l, (hlive task htask).2 hl, heq⟩

/-! ## With the canary -/

/-- Before phase `k`: kept elements agree, all other workspace cells are poisoned, and so are the
    own arrays of the buffers still to come. -/
structure CanaryInv (nv : NanValue V) (plan : WorkspacePlan) (k : ℕ) (m : Loc → V) (m' : Cell → V) :
    Prop where
  agree : ∀ l ∈ KeptLoc plan k, m' (placeAt plan l) = m l
  poisoned : ∀ c, Covered (placeAt plan) plan.buffers c → c ∉ placeAt plan '' KeptLoc plan k →
    m' c = nv.nan
  unborn : ∀ b ∈ plan.buffers, k ≤ b.firstPhase → ∀ i < b.numel, m (b.storageId, i) = nv.nan

/-- Behind the barrier of phase `k`, before the check. -/
structure CanaryMid (nv : NanValue V) (plan : WorkspacePlan) (k : ℕ) (m : Loc → V) (m' : Cell → V) :
    Prop where
  agree : ∀ l ∈ LiveLoc plan k, m' (placeAt plan l) = m l
  poisoned : ∀ c, Covered (placeAt plan) plan.buffers c → c ∉ placeAt plan '' LiveLoc plan k →
    m' c = nv.nan
  unborn : ∀ b ∈ plan.buffers, k < b.firstPhase → ∀ i < b.numel, m (b.storageId, i) = nv.nan

variable {bodies}

variable {b : BufferPlan}

lemma mem_live (h : Planned g sched plan) (hb : b ∈ plan.buffers) {i : ℕ} :
    (b.storageId, i) ∈ LiveLoc plan k ↔ (b.firstPhase ≤ k ∧ k ≤ b.lastPhase) ∧ i < b.numel := by
  constructor
  · exact fun hl => hl b hb rfl
  · intro hl _ hb' hsid
    rw [h.buffer_eq hb' hb hsid]
    exact hl

lemma CanaryInv.agree_live (hinv : CanaryInv nv plan k m m') (h : Planned g sched plan)
    (hk : k < sched.numPhases) : ∀ l ∈ LiveLoc plan k, m' (placeAt plan l) = m l := by
  intro l hl
  by_cases hkept : l ∈ KeptLoc plan k
  · exact hinv.agree l hkept
  · rcases external_or_buffer plan l with hext | ⟨b, hb, hsid⟩
    · exact absurd (external_subset_kept k hext) hkept
    · obtain ⟨⟨hfirst, hlast⟩, hlt⟩ := hl b hb hsid
      have hbl : (b.storageId, l.2) = l := Prod.ext hsid rfl
      have hborn : k ≤ b.firstPhase := by
        by_contra hnot
        refine hkept fun b' hb' hsid' => ?_
        rw [h.buffer_eq hb' hb (hsid'.trans hsid.symm)]
        exact ⟨⟨by omega, .inl hlast⟩, hlt⟩
      have hown := hinv.unborn b hb hborn l.2 hlt
      rw [hbl] at hown
      rw [hown]
      refine hinv.poisoned _ ⟨b, hb, l.2, hlt, by rw [hbl]⟩ ?_
      rintro ⟨_, hl', heq⟩
      have hsame := placeAt_injOn h k (KeptLoc.subset_live h hk hl') hl heq
      exact hkept (hsame ▸ hl')

variable (bodies) in
lemma CanaryInv.mid (hinv : CanaryInv nv plan k m m') (h : Planned g sched plan)
    (hphased : Phased g sched) (hk : k < sched.phases.length) :
    CanaryMid nv plan k (runAll ((tasksAt sched hk).map bodies.act) m)
      (runAll ((tasksAt sched hk).map fun t => (bodies.act t).place (placeAt plan)) m') := by
  have hlive := hinv.agree_live h hk
  have hreads : ReadsWritten bodies.reads bodies.act (LiveLoc plan k) (tasksAt sched hk) m :=
    .of_subset fun t ht => (tasksAt_live bodies h hphased hk t ht).1
  obtain ⟨hagree, hown, hpacked⟩ := tasks_agree bodies h hphased hk le_rfl hreads hlive
  refine ⟨fun l hl => hagree l (.inl hl), fun c hcov hc => ?_, fun b hb hfirst i hi => ?_⟩
  · rw [hpacked c hc]
    refine hinv.poisoned c hcov fun hkept => hc ?_
    exact Set.image_mono (KeptLoc.subset_live h hk) hkept
  · rw [hown _ fun hl => ?_]
    · exact hinv.unborn b hb hfirst.le i hi
    · have := ((mem_live h hb).mp hl).1
      omega

lemma dies_iff : b.dies k = true ↔ b.firstPhase ≤ k ∧ b.lastPhase = k ∧ ¬ b.liveAtEnd := by
  unfold dies
  simp

section

variable (hm : Poisoned nv plan (LiveLoc plan k) m')
include hm

lemma Poisoned.unborn (h : Planned g sched plan) {b : BufferPlan}
    (hb : b ∈ plan.buffers) (hfirst : k < b.firstPhase) (hco : hasLiveCooccupant plan b k = false) {i : ℕ}
    (hi : i < b.numel) : m' (placeAt plan (b.storageId, i)) = nv.nan := by
  refine hm _ ⟨b, hb, i, hi, rfl⟩ ?_
  rintro ⟨l, hl, heq⟩
  rw [placeAt_buffer h hb] at heq
  rcases external_or_buffer plan l with hext | ⟨b', hb', hsid⟩
  · rw [placeAt_external hext] at heq
    cases heq
  · -- a buffer of the phase lies there
    have hplace := placeAt_buffer h hb' l.2
    rw [hsid] at hplace
    rw [hplace] at heq
    injection heq with heq
    obtain ⟨⟨hfirst', hlast'⟩, hlt⟩ := hl b' hb' hsid
    have hyes : hasLiveCooccupant plan b k = true := by
      refine any_eq_true.mpr ⟨b', hb', ?_⟩
      simp only [decide_eq_true_eq]
      refine ⟨?_, ⟨hfirst', hlast'⟩, by omega, by omega⟩
      rintro rfl
      omega
    rw [hyes] at hco
    cases hco

lemma Poisoned.check (h : Planned g sched plan) : canaryCheck (placeAt plan) nv plan k m' =
      .ok ((plan.buffers.filter (dies k)).foldl (fillBuffer (placeAt plan) nv) m') :=
  canaryCheck_ok fun _ hb hfirst hco _ hi => hm.unborn h hb hfirst hco hi

lemma Poisoned.freed : Poisoned nv plan (KeptLoc plan (k + 1))
    ((plan.buffers.filter (dies k)).foldl (fillBuffer (placeAt plan) nv) m') := by
  intro c hcov hc
  by_cases hdead : Covered (placeAt plan) (plan.buffers.filter (dies k)) c
  · exact (foldl_fillBuffer _ m' c).1 hdead
  · rw [(foldl_fillBuffer _ m' c).2 hdead]
    refine hm c hcov ?_
    rintro ⟨l, hl, rfl⟩
    refine hc ⟨l, fun b hb hsid => ?_, rfl⟩
    obtain ⟨⟨hfirst, hlast⟩, hlt⟩ := hl b hb hsid
    refine ⟨⟨by omega, ?_⟩, hlt⟩
    by_contra hnot
    push Not at hnot
    have hdies : b.dies k = true := dies_iff.mpr ⟨hfirst, by omega, hnot.2⟩
    exact hdead ⟨b, mem_filter.mpr ⟨hb, hdies⟩, l.2, hlt, congrArg _ (Prod.ext hsid rfl)⟩

end

lemma CanaryMid.check_own (hmid : CanaryMid nv plan k m m') : canaryCheck (id : Loc → Loc) nv plan k m =
      .ok ((plan.buffers.filter (dies k)).foldl (fillBuffer id nv) m) :=
  canaryCheck_ok fun b hb hfirst _ i hi => hmid.unborn b hb hfirst i hi

lemma CanaryMid.check_packed (hmid : CanaryMid nv plan k m m') (h : Planned g sched plan) :
    canaryCheck (placeAt plan) nv plan k m' =
      .ok ((plan.buffers.filter (dies k)).foldl (fillBuffer (placeAt plan) nv) m') :=
  Poisoned.check hmid.poisoned h

lemma KeptLoc.not_dies {l : Loc} (hl : l ∈ KeptLoc plan (k + 1))
    (hb : b ∈ plan.buffers) (hdies : b.dies k) : b.storageId ≠ l.1 := by
  intro hsid
  obtain ⟨_, hlast, hend⟩ := dies_iff.mp hdies
  obtain ⟨⟨_, hkept⟩, _⟩ := hl b hb hsid
  rcases hkept with hkept | hkept
  · omega
  · exact hend hkept

/-- **The re-poisoning** behind the barrier. -/
theorem CanaryMid.next (hmid : CanaryMid nv plan k m m') (h : Planned g sched plan)
    (hk : k < sched.numPhases) : CanaryInv nv plan (k + 1)
      ((plan.buffers.filter (dies k)).foldl (fillBuffer id nv) m)
      ((plan.buffers.filter (dies k)).foldl (fillBuffer (placeAt plan) nv) m') := by
  refine ⟨fun l hl => ?_, fun c hcov hc => ?_, fun b hb hfirst i hi => ?_⟩
  · have hlive := KeptLoc.succ_subset_live h hk hl
    have hown : ¬ Covered (id : Loc → Loc) (plan.buffers.filter (dies k)) l := by
      rintro ⟨b, hb, i, _, rfl⟩
      obtain ⟨hb, hdies⟩ := mem_filter.mp hb
      exact KeptLoc.not_dies hl hb hdies rfl
    have hpacked : ¬ Covered (placeAt plan) (plan.buffers.filter (dies k)) (placeAt plan l) := by
      rintro ⟨b, hb, i, hi, heq⟩
      obtain ⟨hb, hdies⟩ := mem_filter.mp hb
      obtain ⟨hf, hlast, _⟩ := dies_iff.mp hdies
      have hbi : (b.storageId, i) ∈ LiveLoc plan k := (mem_live h hb).mpr ⟨⟨hf, by omega⟩, hi⟩
      have hsame := placeAt_injOn h k hbi hlive heq
      exact KeptLoc.not_dies hl hb hdies (congrArg Prod.fst hsame)
    rw [(foldl_fillBuffer _ m l).2 hown, (foldl_fillBuffer _ m' _).2 hpacked]
    exact hmid.agree l hlive
  · exact Poisoned.freed hmid.poisoned c hcov hc
  · have hown : ¬ Covered (id : Loc → Loc) (plan.buffers.filter (dies k)) (b.storageId, i) := by
      rintro ⟨_, hb', j, _, heq⟩
      obtain ⟨hb', hdies⟩ := mem_filter.mp hb'
      have hsame := h.buffer_eq hb' hb (congrArg Prod.fst heq)
      have := (dies_iff.mp hdies).1
      rw [hsame] at this
      omega
    rw [(foldl_fillBuffer _ m _).2 hown]
    exact hmid.unborn b hb hfirst i hi

variable (bodies) in
lemma CanaryInv.step (hinv : CanaryInv nv plan k m m') (h : Planned g sched plan)
    (hphased : Phased g sched) (hk : k < sched.phases.length) : ∃ m₂ m₂',
      executePhase bodies.body (id : Loc → Loc) nv plan true sched.workers m (sched.phases[k]) = .ok m₂ ∧
      executePhase bodies.body (placeAt plan) nv plan true sched.workers m' (sched.phases[k]) =
        .ok m₂' ∧ CanaryInv nv plan (k + 1) m₂ m₂' := by
  have hmid := hinv.mid bodies h hphased hk
  refine ⟨_, _, ?_, ?_, hmid.next h hk⟩
  · unfold executePhase
    rw [runPhase_own bodies hphased.workers hk, hphased.index]
    exact hmid.check_own
  · unfold executePhase
    rw [runPhase_packed bodies hphased.workers hk, hphased.index]
    exact hmid.check_packed h

/-! ## Without the canary -/

/-- Before phase `k`, after the elements of `wr` were assigned. -/
structure PlainInv (plan : WorkspacePlan) (k : ℕ) (wr : Set Loc) (m : Loc → V) (m' : Cell → V) :
    Prop where
  agree : ∀ l ∈ ExternalLoc plan ∪ wr, l ∈ KeptLoc plan k → m' (placeAt plan l) = m l
  started : ∀ l ∈ wr, ∀ b ∈ plan.buffers, b.storageId = l.1 → b.firstPhase < k

variable (nv) in
lemma PlainInv.step {wr : Set Loc} (hinv : PlainInv plan k wr m m') (h : Planned g sched plan)
    (hphased : Phased g sched) (hk : k < sched.phases.length)
    (hreads : ReadsWritten bodies.reads bodies.act (ExternalLoc plan ∪ wr) (tasksAt sched hk) m) :
    ∃ m₂', executePhase bodies.body (id : Loc → Loc) nv plan false sched.workers m
        (sched.phases[k]) = .ok (runAll ((tasksAt sched hk).map bodies.act) m) ∧
      executePhase bodies.body (placeAt plan) nv plan false sched.workers m' (sched.phases[k]) = .ok m₂' ∧
      PlainInv plan (k + 1) (wr ∪ written ((tasksAt sched hk).map bodies.act) m)
        (runAll ((tasksAt sched hk).map bodies.act) m) m₂' := by
  have hlive := tasksAt_live bodies h hphased hk
  have hinter := hreads.inter (fun t ht => (hlive t ht).1) (fun t _ => bodies.within t) fun t ht => (hlive t ht).2
  have hagree : ∀ l ∈ (ExternalLoc plan ∪ wr) ∩ LiveLoc plan k, m' (placeAt plan l) = m l := by
    rintro l ⟨hl, hlive⟩
    refine hinv.agree l hl fun b hb hsid => ?_
    obtain ⟨⟨_, hlast⟩, hlt⟩ := hlive b hb hsid
    refine ⟨⟨?_, .inl hlast⟩, hlt⟩
    rcases hl with hext | hwr
    · exact absurd hsid (hext b hb)
    · exact hinv.started l hwr b hb hsid
  obtain ⟨hafter, _, _⟩ := tasks_agree bodies h hphased hk Set.inter_subset_right hinter hagree
  have hnew : written ((tasksAt sched hk).map bodies.act) m ⊆ LiveLoc plan k :=
    written_subset (fun t ht => (hlive t ht).2) fun t _ => bodies.within t
  refine ⟨runAll ((tasksAt sched hk).map fun t => (bodies.act t).place (placeAt plan)) m', ?_, ?_,
    fun l hl hkept => ?_, fun l hl b hb hsid => ?_⟩
  · unfold executePhase
    rw [runPhase_own bodies hphased.workers hk]
    rfl
  · unfold executePhase
    rw [runPhase_packed bodies hphased.workers hk]
    rfl
  · rw [← Set.union_assoc] at hl
    refine hafter l ?_
    rcases hl with hl | hl
    · exact .inl ⟨hl, KeptLoc.succ_subset_live h hk hkept⟩
    · exact .inr hl
  · rcases hl with hl | hl
    · have := hinv.started l hl b hb hsid
      omega
    · have := (hnew hl b hb hsid).1.1
      omega

end

/-! ## Whole runs -/

lemma foldlM_simulates {α σ τ ε : Type} {f : σ → α → Except ε σ} {f' : τ → α → Except ε τ}
    {l : List α} (P : ℕ → σ → τ → Prop) (hstep : ∀ (i : ℕ) (hi : i < l.length) (s : σ) (t : τ), P i s t →
      ∃ s' t', f s (l[i]) = .ok s' ∧ f' t (l[i]) = .ok t' ∧ P (i + 1) s' t') {s : σ} {t : τ} (hinit : P 0 s t) :
    ∃ s' t', l.foldlM f s = .ok s' ∧ l.foldlM f' t = .ok t' ∧ P l.length s' t' := by
  induction l generalizing P s t with
  | nil => exact ⟨s, t, rfl, rfl, hinit⟩
  | cons a l ih =>
    obtain ⟨s₁, t₁, hs, ht, hP⟩ := hstep 0 (by simp) s t hinit
    have hs : f s a = .ok s₁ := hs
    have ht : f' t a = .ok t₁ := ht
    obtain ⟨s', t', hs', ht', hP'⟩ := ih (fun i => P (i + 1))
      (fun i hi s t h => hstep (i + 1) (by simpa using hi) s t h) hP
    refine ⟨s', t', ?_, ?_, hP'⟩
    · rw [foldlM_cons, hs]
      exact hs'
    · rw [foldlM_cons, ht]
      exact ht'

section

variable {bodies : TaskBodies g V} {nv : NanValue V} {m : Loc → V} {m' : Cell → V}

lemma CanaryInv.init (h : Planned g sched plan) (hext : ∀ l ∈ ExternalLoc plan, m' (placeAt plan l) = m l) :
    CanaryInv nv plan 0 (plan.buffers.foldl (fillBuffer id nv) m)
      (plan.buffers.foldl (fillBuffer (placeAt plan) nv) m') := by
  refine ⟨fun l hl => ?_, fun c hcov _ => (foldl_fillBuffer _ m' c).1 hcov, fun b hb _ i hi => ?_⟩
  · have hl : l ∈ ExternalLoc plan := fun b hb hsid => absurd (hl b hb hsid).1.1 (by omega)
    have hown : ¬ Covered (id : Loc → Loc) plan.buffers l := by
      rintro ⟨b, hb, i, _, rfl⟩
      exact hl b hb rfl
    have hpacked : ¬ Covered (placeAt plan) plan.buffers (placeAt plan l) := by
      rintro ⟨b, hb, i, _, heq⟩
      rw [placeAt_buffer h hb, placeAt_external hl] at heq
      cases heq
    rw [(foldl_fillBuffer _ m l).2 hown, (foldl_fillBuffer _ m' _).2 hpacked]
    exact hext l hl
  · exact (foldl_fillBuffer _ m _).1 ⟨b, hb, i, hi, rfl⟩

variable (bodies nv) in
lemma canary_runs (h : Planned g sched plan) (hphased : Phased g sched)
    (hext : ∀ l ∈ ExternalLoc plan, m' (placeAt plan l) = m l) : ∃ out out',
      execute bodies.body (id : Loc → Loc) nv plan true sched m = .ok out ∧
      execute bodies.body (placeAt plan) nv plan true sched m' = .ok out' ∧
      ∀ l ∈ KeptLoc plan sched.numPhases, out' (placeAt plan l) = out l := by
  obtain ⟨out, out', hout, hout', hinv⟩ := foldlM_simulates _
    (fun k hk s t hinv => hinv.step bodies h hphased hk) (CanaryInv.init h hext)
  exact ⟨out, out', hout, hout', hinv.agree⟩

/-- The invariant of runs without the canary: what is left of the program reads what is written. -/
def PlainRun (bodies : TaskBodies g V) (plan : WorkspacePlan) (sched : PhaseSchedule)
    (all : Set Loc) (k : ℕ) (m : Loc → V) (m' : Cell → V) : Prop :=
  ∃ wr, PlainInv plan k wr m m' ∧
    ReadsWritten bodies.reads bodies.act (ExternalLoc plan ∪ wr)
      ((sched.phases.drop k).flatMap (phaseTasks sched.workers)) m ∧
    all = wr ∪ written (((sched.phases.drop k).flatMap (phaseTasks sched.workers)).map bodies.act) m

variable (nv) in
lemma PlainRun.step {all : Set Loc} {k : ℕ} (h : Planned g sched plan) (hphased : Phased g sched)
    (hk : k < sched.phases.length) (hrun : PlainRun bodies plan sched all k m m') : ∃ m₂ m₂',
      executePhase bodies.body (id : Loc → Loc) nv plan false sched.workers m (sched.phases[k]) = .ok m₂ ∧
      executePhase bodies.body (placeAt plan) nv plan false sched.workers m' (sched.phases[k]) =
        .ok m₂' ∧ PlainRun bodies plan sched all (k + 1) m₂ m₂' := by
  obtain ⟨_, hinv, hreads, hall⟩ := hrun
  rw [drop_eq_getElem_cons hk, flatMap_cons] at hreads hall
  obtain ⟨hnow, hlater⟩ := readsWritten_append.mp hreads
  obtain ⟨m₂', hown, hpacked, hnext⟩ := hinv.step nv h hphased hk hnow
  refine ⟨_, m₂', hown, hpacked, _, hnext, ?_, ?_⟩
  · rw [← Set.union_assoc]
    exact hlater
  · rw [hall, map_append, written_append, Set.union_assoc]
    rfl

variable (nv) in
lemma plain_runs (h : Planned g sched plan) (hphased : Phased g sched)
    (hext : ∀ l ∈ ExternalLoc plan, m' (placeAt plan l) = m l)
    (hreads : ReadsWritten bodies.reads bodies.act (ExternalLoc plan) (programTasks sched) m) :
    ∃ out out', execute bodies.body (id : Loc → Loc) nv plan false sched m = .ok out ∧
      execute bodies.body (placeAt plan) nv plan false sched m' = .ok out' ∧
      ∀ l ∈ ExternalLoc plan ∪ written ((programTasks sched).map bodies.act) m,
        l ∈ KeptLoc plan sched.numPhases → out' (placeAt plan l) = out l := by
  have hinit : PlainRun bodies plan sched (written ((programTasks sched).map bodies.act) m) 0 m m' := by
    refine ⟨∅, ⟨fun l hl _ => hext l (by simpa using hl), fun l hl => absurd hl (by simp)⟩, ?_, ?_⟩
    · rw [Set.union_empty]
      exact hreads
    · rw [Set.empty_union]
      rfl
  obtain ⟨out, out', hout, hout', wr, hinv, _, hall⟩ := foldlM_simulates _
    (fun k hk s t hrun => PlainRun.step nv h hphased hk hrun) hinit
  refine ⟨out, out', hout, hout', fun l hl hkept => hinv.agree l ?_ hkept⟩
  have hdone : written ((programTasks sched).map bodies.act) m = wr := by
    rw [hall, drop_length]
    simp [written]
  rw [← hdone]
  exact hl

end

/-- **Workspace reuse is invisible.**  For the schedules of a lowered graph, planning ends with a
    plan that fits its workspace, and the run in the planned workspace and the run with an array for every storage, started on the same
    external contents, both end and leave the same values in every external storage and in every
    buffer that is live at the end.  Without the canary this is for programs that assign an element
    of a fresh storage before they read it, and for the elements they assign. -/
theorem workspace_refines {V : Type} {g : OperatorGraph} {families : List TaskFamily}
    {workers : ℕ} {sched : PhaseSchedule} (hsched : PhaseSchedule.fromFamilies families workers = .ok sched)
    (hops : ∀ f ∈ families, f.op ∈ g.ops) (hlowered : ∀ op ∈ g.ops, ∃ f ∈ families, f.op = op)
    (bodies : TaskBodies g V) (nv : NanValue V) : ∃ plan scratch, planMemory g sched families = .ok (plan, scratch) ∧
      (∀ b ∈ plan.buffers, b.offset + b.numel ≤ plan.totalElements) ∧ ∀ (canary : Bool) (m : Loc → V) (m' : Cell → V),
        (∀ l, (∀ b ∈ plan.buffers, b.storageId ≠ l.1) → m' (.external l.1 l.2) = m l) →
        (canary = false → ReadsWritten bodies.reads bodies.act
          {l | ∀ b ∈ plan.buffers, b.storageId ≠ l.1} (programTasks sched) m) →
        ∃ out out', execute bodies.body (id : Loc → Loc) nv plan canary sched m = .ok out ∧
          execute bodies.body (placeAt plan) nv plan canary sched m' = .ok out' ∧
          (∀ sid ∉ g.freshStorages, ∀ i, out' (.external sid i) = out (sid, i)) ∧
          ∀ b ∈ plan.buffers, b.liveAtEnd → ∀ i < b.numel, (canary = true ∨
              (b.storageId, i) ∈ written ((programTasks sched).map bodies.act) m) →
            out' (.workspace (b.offset + i)) = out (b.storageId, i) := by
  have hphased := phased_fromFamilies hsched hops
  have hphases : ∀ op ∈ g.ops, ∃ ph, phaseOfOp sched op.opid = some ph := by
    intro op hop
    obtain ⟨f, hf, rfl⟩ := hlowered op hop
    exact phaseOfOp_isSome hsched hops hf
  obtain ⟨plan, scratch, hplan, h⟩ := planMemory_ok families hphases
  refine ⟨plan, scratch, hplan, h.inside, fun canary m m' hsame hread => ?_⟩
  have hext : ∀ l ∈ ExternalLoc plan, m' (placeAt plan l) = m l := by
    intro l hl
    rw [placeAt_external hl]
    exact hsame l hl
  have hout : ∀ sid ∉ g.freshStorages, ∀ i, (sid, i) ∈ ExternalLoc plan := by
    intro sid hsid i b hb heq
    have heq : b.storageId = sid := heq
    exact hsid (heq ▸ h.isFresh b hb)
  have hend : ∀ b ∈ plan.buffers, b.liveAtEnd → ∀ i < b.numel, (b.storageId, i) ∈ KeptLoc plan sched.numPhases := by
    intro b hb hlive i hi b' hb' hsid
    have hbb : b' = b := h.buffer_eq hb' hb hsid
    have hord := h.ordered b hb
    have hlast := (h.atEnd b hb).mp hlive
    rw [hbb]
    exact ⟨⟨by omega, .inr hlive⟩, hi⟩
  cases canary with
  | true =>
    obtain ⟨out, out', hrun, hrun', hagree⟩ := canary_runs bodies nv h hphased hext
    refine ⟨out, out', hrun, hrun', fun sid hsid i => ?_, fun b hb hlive i hi _ => ?_⟩
    · have hl := hagree (sid, i) (external_subset_kept _ (hout sid hsid i))
      rw [placeAt_external (hout sid hsid i)] at hl
      exact hl
    · have hl := hagree (b.storageId, i) (hend b hb hlive i hi)
      rw [placeAt_buffer h hb] at hl
      exact hl
  | false =>
    obtain ⟨out, out', hrun, hrun', hagree⟩ := plain_runs nv h hphased hext (hread rfl)
    refine ⟨out, out', hrun, hrun', fun sid hsid i => ?_, fun b hb hlive i hi hwr => ?_⟩
    · have hl := hagree (sid, i) (.inl (hout sid hsid i)) (external_subset_kept _ (hout sid hsid i))
      rw [placeAt_external (hout sid hsid i)] at hl
      exact hl
    · have hwr := hwr.resolve_left (by simp)
      have hl := hagree (b.storageId, i) (.inr hwr) (hend b hb hlive i hi)
      rw [placeAt_buffer h hb] at hl
      exact hl

/-! ## Leftovers -/

/-- Two elements of a storage. -/
def pairOf (name : String) (storageId : ℕ) : TensorValue := ⟨name, [2], [1], storageId, 0⟩

/-- Fill `a`, copy `a` to `out`, write the first element of `b`. -/
def fillOp : Operator := ⟨0, [], [.whole (pairOf "a" 1)]⟩

def copyOp : Operator := ⟨1, [.whole (pairOf "a" 1)], [.whole (pairOf "out" 0)]⟩

def partialOp : Operator := ⟨2, [], [.whole (pairOf "b" 2)]⟩

def leftoverGraph : OperatorGraph :=
  ⟨[pairOf "out" 0, pairOf "a" 1, pairOf "b" 2], [1, 2], [fillOp, copyOp, partialOp]⟩

def oneTask (op : Operator) : TaskFamily where
  familyId := "task"
  op := op
  domain := ⟨[(1, 1)]⟩
  scratchBytes := 0
  readRegions := fun _ => op.readRegions
  writeRegions := fun _ => op.writeRegions

def leftoverFamilies : List TaskFamily := leftoverGraph.ops.map oneTask

def leftoverSchedule : PhaseSchedule := ⟨PhaseSchedule.groupPhases leftoverFamilies, 1⟩

/-- `b` takes the place of `a`. -/
def leftoverPlan : WorkspacePlan :=
  ⟨[⟨"a", 1, 2, 0, 1, 0, false⟩, ⟨"b", 2, 2, 2, 2, 0, true⟩], 2⟩

def leftoverBody (f : TaskFamily) (_coords : List ℕ) : LocalActions.Action Loc ℕ := fun m =>
  if f.op = fillOp then [((1, 0), 7), ((1, 1), 7)]
  else if f.op = copyOp then [((0, 0), m (1, 0)), ((0, 1), m (1, 1))]
  else if f.op = partialOp then [((2, 0), 7)]
  else []

/-- Element 0 or 1 of a storage. -/
def pairLocs (storageId : ℕ) : Set Loc := {l | l.1 = storageId ∧ l.2 < 2}

lemma pairLocs_declared {op : Operator} {sid : ℕ} (htouch : op.touchesStorage sid = true)
    (hsize : ∀ e ∈ freshTable leftoverGraph, e.2.2 = 2) {l : Loc} (hl : l ∈ pairLocs sid) :
    op.Declares leftoverGraph l := by
  obtain ⟨hsid, hlt⟩ := hl
  refine ⟨hsid ▸ htouch, fun e he _ => ?_⟩
  rw [hsize e he]
  exact hlt

def leftoverBodies : TaskBodies leftoverGraph ℕ where
  body := leftoverBody
  reads := fun task => {l | task.1.op = copyOp ∧ l ∈ pairLocs 1}
  writes := fun task => {l | task.1.op = fillOp ∧ l ∈ pairLocs 1 ∨
    task.1.op = copyOp ∧ l ∈ pairLocs 0 ∨ task.1.op = partialOp ∧ l ∈ pairLocs 2}
  within := by
    intro task
    refine ⟨fun m m' _ _ hsame => ?_, fun m _ p hp => ?_, fun _ _ => trivial⟩
    · unfold leftoverBody
      by_cases hcopy : task.1.op = copyOp
      · have h0 : m (1, 0) = m' (1, 0) := hsame (1, 0) ⟨hcopy, rfl, by decide⟩
        have h1 : m (1, 1) = m' (1, 1) := hsame (1, 1) ⟨hcopy, rfl, by decide⟩
        rw [h0, h1]
      · rw [if_neg hcopy, if_neg hcopy]
    · unfold leftoverBody at hp
      by_cases hfill : task.1.op = fillOp
      · rw [if_pos hfill] at hp
        refine .inl ⟨hfill, ?_⟩
        rcases mem_pair.mp hp with rfl | rfl
        · exact ⟨rfl, Nat.two_pos⟩
        · exact ⟨rfl, Nat.one_lt_two⟩
      rw [if_neg hfill] at hp
      by_cases hcopy : task.1.op = copyOp
      · rw [if_pos hcopy] at hp
        refine .inr (.inl ⟨hcopy, ?_⟩)
        rcases mem_pair.mp hp with rfl | rfl
        · exact ⟨rfl, Nat.two_pos⟩
        · exact ⟨rfl, Nat.one_lt_two⟩
      rw [if_neg hcopy] at hp
      by_cases hpart : task.1.op = partialOp
      · rw [if_pos hpart] at hp
        rw [mem_singleton.mp hp]
        exact .inr (.inr ⟨hpart, rfl, by decide⟩)
      · rw [if_neg hpart] at hp
        cases hp
  readsDeclared := by
    rintro task l ⟨hop, hl⟩
    rw [hop]
    exact pairLocs_declared (by decide) (by decide) hl
  writesDeclared := by
    rintro task l (⟨hop, hl⟩ | ⟨hop, hl⟩ | ⟨hop, hl⟩)
    all_goals rw [hop]
    all_goals exact pairLocs_declared (by decide) (by decide) hl

lemma leftoverSchedule_ok : PhaseSchedule.fromFamilies leftoverFamilies 1 = .ok leftoverSchedule :=
  PhaseSchedule.fromFamilies_ok one_pos

lemma leftover_readsWritten : ReadsWritten leftoverBodies.reads leftoverBodies.act
    {l | ∀ b ∈ leftoverPlan.buffers, b.storageId ≠ l.1} (programTasks leftoverSchedule) (fun _ => 0) := by
  have htasks : programTasks leftoverSchedule =
      [(oneTask fillOp, [0]), (oneTask copyOp, [0]), (oneTask partialOp, [0])] := rfl
  refine ⟨fun l hl => absurd hl.1 (by decide), fun l hl => ?_, fun l hl => absurd hl.1 (by decide),
    trivial⟩
  obtain ⟨_, hsid, hlt⟩ := hl
  right
  show l ∈ [((1 : ℕ), (0 : ℕ)), (1, 1)]
  obtain ⟨sid, i⟩ := l
  obtain rfl : sid = 1 := hsid
  interval_cases i <;> simp

lemma leftover_planned : planMemory leftoverGraph leftoverSchedule leftoverFamilies =
    .ok (leftoverPlan, ⟨256, 0⟩) := by
  rfl

theorem workspace_bounds_leftover :
    leftoverPlan.liveElements 2 ≤ leftoverPlan.totalElements ∧ leftoverPlan.totalElements ≤ 2 + 2 + 63 :=
  ⟨(workspace_bounds leftover_planned).2.1 2, (workspace_bounds leftover_planned).2.2⟩

lemma leftover_written : (2, 0) ∈ written ((programTasks leftoverSchedule).map leftoverBodies.act) fun _ => 0 := by
  have htasks : programTasks leftoverSchedule =
      [(oneTask fillOp, [0]), (oneTask copyOp, [0]), (oneTask partialOp, [0])] := rfl
  refine .inr (.inr (.inl ?_))
  show ((2, 0) : Loc) ∈ [((2 : ℕ), (0 : ℕ))]
  simp

theorem workspace_refines_leftover : ∃ plan scratch,
    planMemory leftoverGraph leftoverSchedule leftoverFamilies = .ok (plan, scratch) ∧ ∀ canary : Bool, ∃ out out',
      execute leftoverBody (id : Loc → Loc) ⟨0, (· == 0), rfl⟩ plan canary leftoverSchedule (fun _ => 0) = .ok out ∧
      execute leftoverBody (placeAt plan) ⟨0, (· == 0), rfl⟩ plan canary leftoverSchedule (fun _ => 0) = .ok out' ∧
      (∀ i, out' (.external 0 i) = out (0, i)) ∧ out' (.workspace 0) = out (2, 0) := by
  obtain ⟨plan, scratch, hplan, _, hrun⟩ := workspace_refines leftoverSchedule_ok (g := leftoverGraph)
    (by decide) (by decide) leftoverBodies ⟨0, (· == 0), rfl⟩
  refine ⟨plan, scratch, hplan, fun canary => ?_⟩
  cases hplan
  obtain ⟨out, out', hown, hpacked, hext, hend⟩ := hrun canary (fun _ => 0) (fun _ => 0)
    (fun _ _ => rfl) fun _ => leftover_readsWritten
  refine ⟨out, out', hown, hpacked, hext 0 (by decide), ?_⟩
  exact hend ⟨"b", 2, 2, 2, 2, 0, true⟩ (by decide) rfl 0 (by decide) (.inr leftover_written)

/-- **Without the canary** element 1 of `b`, which no task writes and which is live at the end,
    holds what `a` left there; both runs start on zeroed memory. -/
theorem leftover_escapes : planMemory leftoverGraph leftoverSchedule leftoverFamilies = .ok (leftoverPlan, ⟨256, 0⟩) ∧
    (execute leftoverBodies.body (id : Loc → Loc) ⟨0, (· == 0), rfl⟩ leftoverPlan false
      leftoverSchedule fun _ => 0).map (fun out => out (2, 1)) = .ok 0 ∧
    (execute leftoverBodies.body (placeAt leftoverPlan) ⟨0, (· == 0), rfl⟩ leftoverPlan false
      leftoverSchedule fun _ => 0).map (fun out => out (placeAt leftoverPlan (2, 1))) = .ok 7 := by
  refine ⟨leftover_planned, ?_, ?_⟩ <;> rfl

end VKernels.Compiler
