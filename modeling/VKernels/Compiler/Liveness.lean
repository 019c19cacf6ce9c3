import VKernels.Compiler.ReferenceExec

/-!
# Live elements

What is alive in a phase of a planned schedule, and where it lies.

## Results

* `phased_fromFamilies` — the schedules of `from_families` are `Phased`.
* `placeAt_injOn` — elements that are alive together lie at different places.
* `declares_live` — what the tasks of a phase may touch is alive in it.
-/

namespace VKernels.Compiler

open LocalActions
open List
open PhaseSchedule (checkInvariants exists_phase fromFamilies fromFamilies_ok groupPhases groupPhases_index)

/-- An element of a storage that some declared region of the operator lies in. -/
def Operator.Declares (g : OperatorGraph) (op : Operator) (l : Loc) : Prop :=
  op.touchesStorage l.1 ∧ ∀ e ∈ freshTable g, e.1 = l.1 → l.2 < e.2.2

/-- Task bodies with their footprints, inside the storages of the declared regions. -/
structure TaskBodies (g : OperatorGraph) (V : Type) where
  body : TaskFamily → List ℕ → Action Loc V
  reads : TaskFamily × List ℕ → Set Loc
  writes : TaskFamily × List ℕ → Set Loc
  within : ∀ task : TaskFamily × List ℕ,
    Within (fun _ => True) (reads task) (writes task) (body task.1 task.2)
  readsDeclared : ∀ task, ∀ l ∈ reads task, task.1.op.Declares g l
  writesDeclared : ∀ task, ∀ l ∈ writes task, task.1.op.Declares g l

def TaskBodies.act {g : OperatorGraph} {V : Type} (bodies : TaskBodies g V)
    (task : TaskFamily × List ℕ) : Action Loc V := bodies.body task.1 task.2

/-- Phase `i` has index `i`, and holds operators of the graph in no other phase. -/
structure Phased (g : OperatorGraph) (sched : PhaseSchedule) : Prop where
  workers : 0 < sched.workers
  index : ∀ (i : ℕ) (hi : i < sched.phases.length), (sched.phases[i]).index = i
  ops : ∀ (i : ℕ) (hi : i < sched.phases.length), ∀ f ∈ (sched.phases[i]).families,
    f.op ∈ g.ops ∧ phaseOfOp sched f.op.opid = some i

/-! ## Schedules of a graph -/

variable {sched : PhaseSchedule} {families : List TaskFamily}

lemma phaseOfOp_eq {opid i : ℕ}
    (hall : ∀ phase ∈ sched.phases, (∃ f ∈ phase.families, f.op.opid = opid) → phase.index = i)
    (hone : ∃ phase ∈ sched.phases, ∃ f ∈ phase.families, f.op.opid = opid) : phaseOfOp sched opid = some i := by
  have hinner : ∀ (families : List TaskFamily) (index : ℕ) (acc : Option ℕ),
      families.foldl (fun acc fam => if fam.op.opid = opid then some index else acc) acc =
        if ∃ f ∈ families, f.op.opid = opid then some index else acc := by
    intro families _
    induction families with
    | nil => simp
    | cons f families ih =>
      intro acc
      rw [foldl_cons, ih]
      by_cases hf : f.op.opid = opid
      · simp [hf]
      · simp [hf]
  have houter : ∀ (phases : List PhasePlan) (acc : Option ℕ),
      (∀ phase ∈ phases, (∃ f ∈ phase.families, f.op.opid = opid) → phase.index = i) →
      ((∃ phase ∈ phases, ∃ f ∈ phase.families, f.op.opid = opid) ∨ acc = some i) →
      phases.foldl (fun acc phase => phase.families.foldl (fun acc fam =>
        if fam.op.opid = opid then some phase.index else acc) acc) acc = some i := by
    intro phases
    induction phases with
    | nil =>
      rintro acc _ (⟨phase, hphase, _⟩ | hacc)
      · cases hphase
      · exact hacc
    | cons phase phases ih =>
      intro _ hall hone
      rw [foldl_cons, hinner]
      refine ih _ (fun p hp => hall p (by simp [hp])) ?_
      by_cases hhas : ∃ f ∈ phase.families, f.op.opid = opid
      · rw [if_pos hhas, hall phase (by simp) hhas]
        exact .inr rfl
      · rw [if_neg hhas]
        rcases hone with ⟨p, hp, hf⟩ | hacc
        · rcases mem_cons.mp hp with rfl | hp
          · exact absurd hf hhas
          · exact .inl ⟨p, hp, hf⟩
        · exact .inr hacc
  exact houter sched.phases none hall (.inl hone)

/-- **The schedules of `from_families`** are schedules of the graph. -/
theorem phased_fromFamilies {g : OperatorGraph} {workers : ℕ}
    (hsched : fromFamilies families workers = .ok sched)
    (hops : ∀ f ∈ families, f.op ∈ g.ops) : Phased g sched := by
  have hw : 0 < workers := by
    by_contra hw
    have hbad : fromFamilies families workers = .error "worker count must be >= 1" := by
      unfold fromFamilies checkInvariants
      dsimp only
      rw [if_pos (by omega)]
      rfl
    rw [hbad] at hsched
    cases hsched
  rw [fromFamilies_ok hw] at hsched
  cases hsched
  refine ⟨hw, fun i hi => (groupPhases_index hi).1, fun i hi f hf => ?_⟩
  obtain ⟨_, hfam, hsame⟩ := groupPhases_index hi
  refine ⟨hops f (hfam f hf), phaseOfOp_eq (hsame f hf) ?_⟩
  exact ⟨_, getElem_mem hi, f, hf, rfl⟩

lemma phaseOfOp_isSome {workers : ℕ}
    (hsched : fromFamilies families workers = .ok sched) {g : OperatorGraph}
    (hops : ∀ f ∈ families, f.op ∈ g.ops) {f : TaskFamily} (hf : f ∈ families) :
    ∃ ph, phaseOfOp sched f.op.opid = some ph := by
  have hphased := phased_fromFamilies hsched hops
  have hphases : sched.phases = groupPhases families := by
    by_cases hw : 0 < workers
    · rw [fromFamilies_ok hw] at hsched
      cases hsched
      rfl
    · unfold fromFamilies checkInvariants at hsched
      dsimp only at hsched
      rw [if_pos (by omega)] at hsched
      cases hsched
  obtain ⟨_, hphase, hmem⟩ := exists_phase hf
  rw [← hphases] at hphase
  obtain ⟨i, hi, rfl⟩ := getElem_of_mem hphase
  exact ⟨i, (hphased.ops i hi f hmem).2⟩

/-! ## Live elements -/

section

variable (plan : WorkspacePlan)

/-- Elements of storages without a buffer. -/
def ExternalLoc : Set Loc := {l | ∀ b ∈ plan.buffers, b.storageId ≠ l.1}

/-- External elements and the elements of the buffers alive in phase `k`. -/
def LiveLoc (k : ℕ) : Set Loc :=
  {l | ∀ b ∈ plan.buffers, b.storageId = l.1 →
    (b.firstPhase ≤ k ∧ k ≤ b.lastPhase) ∧ l.2 < b.numel}

/-- External elements and the elements of the buffers born before phase `k` and not freed. -/
def KeptLoc (k : ℕ) : Set Loc :=
  {l | ∀ b ∈ plan.buffers, b.storageId = l.1 →
    (b.firstPhase < k ∧ (k ≤ b.lastPhase ∨ b.liveAtEnd)) ∧ l.2 < b.numel}

end

section

variable {g : OperatorGraph} {sched : PhaseSchedule} {plan : WorkspacePlan}

lemma Planned.buffer_eq (h : Planned g sched plan) {b b' : BufferPlan} (hb : b ∈ plan.buffers)
    (hb' : b' ∈ plan.buffers) (hsid : b.storageId = b'.storageId) : b = b' :=
  inj_on_of_nodup_map h.unique hb hb' hsid

lemma placeAt_buffer (h : Planned g sched plan) {b : BufferPlan} (hb : b ∈ plan.buffers) (i : ℕ) :
    placeAt plan (b.storageId, i) = .workspace (b.offset + i) := by
  unfold placeAt
  cases hfind : plan.buffers.find? fun b' => b'.storageId = b.storageId with
  | none =>
    have := find?_eq_none.mp hfind b hb
    simp at this
  | some b' =>
    have hsid := find?_some hfind
    simp only [decide_eq_true_eq] at hsid
    rw [h.buffer_eq (mem_of_find?_eq_some hfind) hb hsid]

lemma placeAt_external {l : Loc} (hl : l ∈ ExternalLoc plan) : placeAt plan l = .external l.1 l.2 := by
  unfold placeAt
  have hnone : plan.buffers.find? (fun b => b.storageId = l.1) = none :=
    find?_eq_none.mpr fun b hb => by simpa using hl b hb
  rw [hnone]

lemma external_or_buffer (plan : WorkspacePlan) (l : Loc) :
    l ∈ ExternalLoc plan ∨ ∃ b ∈ plan.buffers, b.storageId = l.1 := by
  by_cases h : ∃ b ∈ plan.buffers, b.storageId = l.1
  · exact .inr h
  · refine .inl fun b hb hsid => h ⟨b, hb, hsid⟩

lemma external_subset_kept (k : ℕ) : ExternalLoc plan ⊆ KeptLoc plan k :=
  fun _ hl b hb hsid => absurd hsid (hl b hb)

lemma BufferPlan.Apart.symm {p q : BufferPlan} (h : p.Apart q) : q.Apart p := by
  intro hlife
  have hlife' : p.overlapsLifetime q = true := by
    unfold BufferPlan.overlapsLifetime at hlife ⊢
    simpa [and_comm] using hlife
  exact (h hlife').symm

instance instSymmApart : Std.Symm BufferPlan.Apart := ⟨fun _ _ => BufferPlan.Apart.symm⟩

section

variable (h : Planned g sched plan)
include h

lemma Planned.apart_of_live {b b' : BufferPlan}
    (hb : b ∈ plan.buffers) (hb' : b' ∈ plan.buffers) (hne : b ≠ b') {k : ℕ}
    (hk : b.firstPhase ≤ k ∧ k ≤ b.lastPhase) (hk' : b'.firstPhase ≤ k ∧ k ≤ b'.lastPhase) :
    b.offset + b.numel ≤ b'.offset ∨ b'.offset + b'.numel ≤ b.offset := by
  have hapart := h.apart.forall hb hb' hne
  have hlife : b.overlapsLifetime b' = true := by
    unfold BufferPlan.overlapsLifetime
    simp only [decide_eq_true_eq]
    omega
  have hle := le_alignUp b.numel
  have hle' := le_alignUp b'.numel
  have hends := hapart hlife
  unfold BufferPlan.alignedEnd at hends
  omega

lemma placeAt_injOn (k : ℕ) : Set.InjOn (placeAt plan) (LiveLoc plan k) := by
  intro l hl l' hl' heq
  rcases external_or_buffer plan l with hext | ⟨b, hb, hsid⟩
  · rw [placeAt_external hext] at heq
    rcases external_or_buffer plan l' with hext' | ⟨b', hb', hsid'⟩
    · rw [placeAt_external hext'] at heq
      injection heq with h1 h2
      exact Prod.ext h1 h2
    · have hplace := placeAt_buffer h hb' l'.2
      rw [hsid'] at hplace
      rw [hplace] at heq
      cases heq
  · have hplace := placeAt_buffer h hb l.2
    rw [hsid] at hplace
    rw [hplace] at heq
    rcases external_or_buffer plan l' with hext' | ⟨b', hb', hsid'⟩
    · rw [placeAt_external hext'] at heq
      cases heq
    · have hplace' := placeAt_buffer h hb' l'.2
      rw [hsid'] at hplace'
      rw [hplace'] at heq
      injection heq with heq
      obtain ⟨hk, hlt⟩ := hl b hb hsid
      obtain ⟨hk', hlt'⟩ := hl' b' hb' hsid'
      by_cases hbb : b = b'
      · subst hbb
        exact Prod.ext (hsid.symm.trans hsid') (by omega)
      · have := h.apart_of_live hb hb' hbb hk hk'
        omega

lemma KeptLoc.subset_live {k : ℕ} (hk : k < sched.numPhases) : KeptLoc plan k ⊆ LiveLoc plan k := by
  intro l hl b hb hsid
  obtain ⟨⟨hfirst, hlast⟩, hlt⟩ := hl b hb hsid
  refine ⟨⟨by omega, ?_⟩, hlt⟩
  rcases hlast with hlast | hend
  · exact hlast
  · have := (h.atEnd b hb).mp hend
    omega

lemma KeptLoc.succ_subset_live {k : ℕ} (hk : k < sched.numPhases) : KeptLoc plan (k + 1) ⊆ LiveLoc plan k := by
  intro l hl b hb hsid
  obtain ⟨⟨hfirst, hlast⟩, hlt⟩ := hl b hb hsid
  refine ⟨⟨by omega, ?_⟩, hlt⟩
  rcases hlast with hlast | hend
  · omega
  · have := (h.atEnd b hb).mp hend
    omega

/-- What the tasks of phase `k` declare is alive in it. -/
lemma declares_live (hphased : Phased g sched) {k : ℕ}
    (hk : k < sched.phases.length) {f : TaskFamily} (hf : f ∈ (sched.phases[k]).families) {l : Loc}
    (hl : f.op.Declares g l) : l ∈ LiveLoc plan k := by
  intro b hb hsid
  obtain ⟨hop, hph⟩ := hphased.ops k hk f hf
  obtain ⟨e, he, hesid, hsize⟩ := h.sized b hb
  refine ⟨h.alive b hb f.op hop (hsid ▸ hl.1) k hph, ?_⟩
  rw [← hsize]
  exact hl.2 e he (hesid.trans hsid)

end

end

end VKernels.Compiler
