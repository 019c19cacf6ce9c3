import VKernels.Compiler.TaskIR
import Mathlib.Data.List.Sort

/-!
# Memory planning

After `compiler/memory.py`: lifetimes of the compiler's own storages and their interval packing in
one workspace.

* `BufferPlan`, `WorkspacePlan`, `ScratchPlan` — the records.
* `firstFit` — the candidate loop.  It is fuelled; `placeBuffer` gives it one round more than there
  are colliding buffers.
* `planMemory` — liveness, the sort and the packing.

## Results

* `firstFit_isSome` — the loop ends within its fuel: every conflict moves the candidate past a
  buffer for good.
* `Planned` — what a plan promises: every fresh storage has one buffer, alive in every phase that
  touches the storage, and buffers alive together do not overlap.
* `planMemory_ok` — planning ends, with a plan that is `Planned`.
* `workspace_bounds` — where the buffers begin, and what the workspace takes.
-/

namespace VKernels.Compiler

open List

/-- The tables of a captured graph, in registration order. -/
structure OperatorGraph where
  tensors : List TensorValue
  freshStorages : List ℕ
  ops : List Operator

def alignElements : ℕ := 64

def runtimeScratchBytes : ℕ := 256

def alignUp (x a : ℕ) : ℕ := (x + a - 1) / a * a

structure BufferPlan where
  name : String
  storageId : ℕ
  numel : ℕ
  firstPhase : ℕ
  lastPhase : ℕ
  offset : ℕ
  liveAtEnd : Bool
  deriving DecidableEq, Repr

namespace BufferPlan

variable (b : BufferPlan)

def overlapsLifetime (other : BufferPlan) : Bool :=
  b.firstPhase ≤ other.lastPhase ∧ other.firstPhase ≤ b.lastPhase

/-- One past the aligned end. -/
def alignedEnd : ℕ := b.offset + alignUp b.numel alignElements

/-- `p` is in the way of `numel` elements at `candidate`. -/
def conflictsAt (candidate numel : ℕ) : Bool :=
  candidate < b.alignedEnd ∧ b.offset < candidate + alignUp numel alignElements

/-- The sort key `(first_phase, -numel)`. -/
def before (other : BufferPlan) : Prop :=
  b.firstPhase < other.firstPhase ∨ b.firstPhase = other.firstPhase ∧ other.numel ≤ b.numel

instance (b other : BufferPlan) : Decidable (b.before other) := by
  unfold before
  infer_instance

end BufferPlan

structure WorkspacePlan where
  buffers : List BufferPlan
  totalElements : ℕ
  deriving DecidableEq, Repr

/-- Per-worker scratch: runtime state and the largest task footprint. -/
structure ScratchPlan where
  runtimeBytes : ℕ
  maxTaskScratch : ℕ
  deriving DecidableEq, Repr

def ScratchPlan.perWorkerBytes (s : ScratchPlan) : ℕ := alignUp (s.runtimeBytes + s.maxTaskScratch) 128

def regionOverlapsStorage (regions : List Region) (storageId : ℕ) : Bool :=
  regions.any fun r => r.storageId = storageId

/-- Some declared region of the operator lies in the storage. -/
def Operator.touchesStorage (op : Operator) (storageId : ℕ) : Bool :=
  regionOverlapsStorage op.readRegions storageId || regionOverlapsStorage op.writeRegions storageId

/-! ## Liveness -/

inductive PlanError where
  /-- An operator that no phase runs. -/
  | keyError (opid : ℕ)
  | diverged
  deriving DecidableEq, Repr

/-- `phase_of_op`: a later family overrides an earlier one. -/
def phaseOfOp (sched : PhaseSchedule) (opid : ℕ) : Option ℕ :=
  sched.phases.foldl (fun acc phase =>
    phase.families.foldl (fun acc fam => if fam.op.opid = opid then some phase.index else acc) acc)
    none

/-- `fresh.setdefault`: name and size come from the first tensor registered in the storage. -/
def freshStep (g : OperatorGraph) (fresh : List (ℕ × String × ℕ)) (tv : TensorValue) : List (ℕ × String × ℕ) :=
  if tv.storageId ∈ g.freshStorages ∧ tv.storageId ∉ fresh.map Prod.fst then
    fresh ++ [(tv.storageId, tv.name, tv.numel)] else fresh

def freshTable (g : OperatorGraph) : List (ℕ × String × ℕ) := g.tensors.foldl (freshStep g) []

def opPhase (sched : PhaseSchedule) (op : Operator) : Except PlanError (Operator × ℕ) :=
  match phaseOfOp sched op.opid with
  | none => .error (.keyError op.opid)
  | some ph => .ok (op, ph)

/-- `lifetimes[sid]`. -/
def phasesTouched (opPhases : List (Operator × ℕ)) (storageId : ℕ) : List ℕ :=
  (opPhases.filter fun p => p.1.touchesStorage storageId).map Prod.snd

def minOf : List ℕ → ℕ
  | [] => 0
  | x :: xs => xs.foldl min x

def maxOf : List ℕ → ℕ
  | [] => 0
  | x :: xs => xs.foldl max x

def makeBuffer (numPhases : ℕ) (opPhases : List (Operator × ℕ)) (entry : ℕ × String × ℕ) : BufferPlan :=
  let touched := phasesTouched opPhases entry.1
  -- never touched: a one-phase life
  let touched := if touched = [] then [0] else touched
  { name := entry.2.1
    storageId := entry.1
    numel := entry.2.2
    firstPhase := minOf touched
    lastPhase := maxOf touched
    offset := 0
    liveAtEnd := maxOf touched + 1 = numPhases }

/-! ## Packing -/

/-- `while True`: align, look for a conflict, jump behind it. -/
def firstFit (colliding : List BufferPlan) (numel : ℕ) : ℕ → ℕ → Option ℕ
  | 0, _ => none
  | fuel + 1, candidate =>
    let candidate := alignUp candidate alignElements
    match colliding.find? fun p => p.conflictsAt candidate numel with
    | none => some candidate
    | some p => firstFit colliding numel fuel p.alignedEnd

def placeBuffer (placed : List BufferPlan) (buf : BufferPlan) : Except PlanError (List BufferPlan) :=
  let colliding := placed.filter fun p => p.overlapsLifetime buf
  match firstFit colliding buf.numel (colliding.length + 1) 0 with
  | none => .error .diverged
  | some offset => .ok (placed ++ [{ buf with offset := offset }])

def planMemory (g : OperatorGraph) (sched : PhaseSchedule) (families : List TaskFamily) :
    Except PlanError (WorkspacePlan × ScratchPlan) := do
  let opPhases ← g.ops.mapM (opPhase sched)
  let buffers := (freshTable g).map (makeBuffer sched.numPhases opPhases)
  let placed ← (buffers.insertionSort BufferPlan.before).foldlM placeBuffer []
  let total := placed.foldl (fun total b => max total (b.offset + b.numel)) 0
  return (⟨placed, total⟩, ⟨runtimeScratchBytes, maxOf (families.map TaskFamily.scratchBytes)⟩)

/-! ## The candidate loop -/

lemma le_alignUp (x : ℕ) : x ≤ alignUp x alignElements := by
  unfold alignUp alignElements
  omega

/-- The buffers that end behind the candidate. -/
def pending (colliding : List BufferPlan) (candidate : ℕ) : ℕ :=
  (colliding.filter fun p => candidate < p.alignedEnd).length

variable {colliding : List BufferPlan} {sched : PhaseSchedule}

lemma firstFit_isSome (numel : ℕ) : ∀ {fuel candidate : ℕ}, pending colliding candidate < fuel →
      ∃ offset, firstFit colliding numel fuel candidate = some offset := by
  intro fuel
  induction fuel with
  | zero => intro candidate h; omega
  | succ fuel ih =>
    intro candidate h
    unfold firstFit
    dsimp only
    cases hfind : colliding.find? fun p => p.conflictsAt (alignUp candidate alignElements) numel with
    | none => exact ⟨_, rfl⟩
    | some p =>
      have hp : p ∈ colliding := mem_of_find?_eq_some hfind
      have hconf : alignUp candidate alignElements < p.alignedEnd := by
        have := find?_some hfind
        unfold BufferPlan.conflictsAt at this
        simp only [decide_eq_true_eq] at this
        exact this.1
      have hle := le_alignUp candidate
      refine ih ?_
      have hsub : pending colliding p.alignedEnd < pending colliding candidate := by
        have hlt := length_filter_lt_length_iff_exists (p := fun q : BufferPlan =>
          decide (p.alignedEnd < q.alignedEnd))
          (l := colliding.filter fun q => candidate < q.alignedEnd) |>.mpr
            ⟨p, mem_filter.mpr ⟨hp, by simp; omega⟩, by simp⟩
        rw [filter_filter] at hlt
        refine lt_of_le_of_lt (le_of_eq (congrArg length ?_)) hlt
        refine filter_congr fun q _ => ?_
        by_cases hq : p.alignedEnd < q.alignedEnd
        · have : candidate < q.alignedEnd := by omega
          simp [hq, this]
        · simp [hq]
      omega

lemma firstFit_spec {numel : ℕ} :
    ∀ {fuel candidate offset : ℕ}, firstFit colliding numel fuel candidate = some offset →
      (∀ p ∈ colliding, p.alignedEnd ≤ offset ∨ offset + alignUp numel alignElements ≤ p.offset) ∧
        ∃ c ∈ candidate :: colliding.map BufferPlan.alignedEnd, offset = alignUp c alignElements := by
  intro fuel
  induction fuel with
  | zero => intro candidate offset h; cases h
  | succ fuel ih =>
    intro candidate _ h
    unfold firstFit at h
    dsimp only at h
    cases hfind : colliding.find? fun p => p.conflictsAt (alignUp candidate alignElements) numel with
    | none =>
      rw [hfind] at h
      cases h
      refine ⟨fun p hp => ?_, candidate, mem_cons_self, rfl⟩
      have hno := find?_eq_none.mp hfind p hp
      unfold BufferPlan.conflictsAt at hno
      simp only [decide_eq_true_eq, not_and] at hno
      omega
    | some q =>
      rw [hfind] at h
      obtain ⟨hfree, c, hc, rfl⟩ := ih h
      refine ⟨hfree, c, mem_cons_of_mem _ ?_, rfl⟩
      rcases mem_cons.mp hc with rfl | hc
      · exact mem_map_of_mem (mem_of_find?_eq_some hfind)
      · exact hc

/-! ## What a plan promises -/

/-- Two buffers are not alive together, or lie apart. -/
def BufferPlan.Apart (p q : BufferPlan) : Prop :=
  p.overlapsLifetime q → p.alignedEnd ≤ q.offset ∨ q.alignedEnd ≤ p.offset

/-- The buffers lie apart, begin aligned, and end before the room that all would take side by side. -/
structure Packed (placed : List BufferPlan) : Prop where
  apart : placed.Pairwise BufferPlan.Apart
  compact : ∀ b ∈ placed, alignElements ∣ b.offset ∧
    b.offset + b.numel + 63 ≤ (placed.map BufferPlan.numel).sum + 63 * placed.length

lemma Packed.nil : Packed [] := ⟨.nil, fun _ hb => absurd hb not_mem_nil⟩

lemma placeBuffer_ok {placed : List BufferPlan} (buf : BufferPlan) (h : Packed placed) :
    ∃ offset, placeBuffer placed buf = .ok (placed ++ [{ buf with offset := offset }]) ∧
      Packed (placed ++ [{ buf with offset := offset }]) := by
  have hpending : pending (placed.filter fun p => p.overlapsLifetime buf) 0 <
      (placed.filter fun p => p.overlapsLifetime buf).length + 1 := Nat.lt_succ_of_le (length_filter_le _ _)
  obtain ⟨offset, hoffset⟩ := firstFit_isSome buf.numel hpending
  obtain ⟨hfree, c, hc, hstart⟩ := firstFit_spec hoffset
  have hroom : alignElements ∣ offset ∧ offset ≤ (placed.map BufferPlan.numel).sum + 63 * placed.length := by
    refine ⟨hstart ▸ dvd_mul_left _ _, ?_⟩
    rcases mem_cons.mp hc with rfl | hc
    · exact hstart ▸ Nat.zero_le _
    · obtain ⟨p, hp, rfl⟩ := mem_map.mp hc
      have := h.compact p (mem_of_mem_filter hp)
      unfold BufferPlan.alignedEnd alignUp alignElements at *
      omega
  refine ⟨offset, ?_, pairwise_append.mpr ⟨h.apart, pairwise_singleton _ _, ?_⟩, fun b hb => ?_⟩
  · unfold placeBuffer
    dsimp only
    rw [hoffset]
  · intro p hp q hq hlife
    rw [mem_singleton] at hq
    subst hq
    exact hfree p (mem_filter.mpr ⟨hp, hlife⟩)
  · rw [map_append, sum_append, length_append, map_singleton, sum_singleton, length_singleton]
    rcases mem_append.mp hb with hb | hb
    · have := h.compact b hb
      exact ⟨this.1, by omega⟩
    · rw [mem_singleton.mp hb]
      exact ⟨hroom.1, by dsimp only; omega⟩

/-- The fields a buffer has before it is placed. -/
def BufferPlan.unplaced (b : BufferPlan) : BufferPlan := { b with offset := 0 }

open BufferPlan (Apart before lastPhase liveAtEnd numel storageId unplaced)

/-- **Packing ends**, keeps everything but the offsets, and packs apart. -/
theorem foldlM_placeBuffer (buffers : List BufferPlan) : ∀ {placed : List BufferPlan},
    Packed placed → ∃ all, buffers.foldlM placeBuffer placed = .ok all ∧
      Packed all ∧ all.map unplaced = (placed ++ buffers).map unplaced := by
  induction buffers with
  | nil => exact fun {placed} h => ⟨placed, rfl, h, by rw [append_nil]⟩
  | cons buf buffers ih =>
    intro _ h
    obtain ⟨_, hok, happ⟩ := placeBuffer_ok buf h
    obtain ⟨all, hall, hpacked, hmap⟩ := ih happ
    refine ⟨all, ?_, hpacked, ?_⟩
    · rw [foldlM_cons, hok]
      exact hall
    · rw [hmap]
      simp [unplaced]

lemma minOf_le {l : List ℕ} {x : ℕ} (h : x ∈ l) : minOf l ≤ x := by
  cases l with
  | nil => cases h
  | cons a l => exact (min?_eq_some_iff.mp (min?_cons' : (a :: l).min? = _)).2 x h

lemma le_foldl_max {α : Type} (f : α → ℕ) (l : List α) (a : ℕ) :
    a ≤ l.foldl (fun t x => max t (f x)) a ∧ ∀ x ∈ l, f x ≤ l.foldl (fun t x => max t (f x)) a := by
  have h := (max?_eq_some_iff.mp (max?_cons' : (a :: l.map f).max? = _)).2
  rw [foldl_map] at h
  exact ⟨h a mem_cons_self, fun x hx => h _ (mem_cons_of_mem _ (mem_map_of_mem hx))⟩

lemma le_maxOf {l : List ℕ} {x : ℕ} (h : x ∈ l) : x ≤ maxOf l := by
  cases l with
  | nil => cases h
  | cons a l =>
    rcases mem_cons.mp h with rfl | h
    · exact (le_foldl_max id l x).1
    · exact (le_foldl_max id l a).2 x h

/-- After the tensors `seen`: one entry for each of their fresh storages. -/
structure FreshInv (g : OperatorGraph) (seen : List TensorValue) (fresh : List (ℕ × String × ℕ)) :
    Prop where
  nodup : (fresh.map Prod.fst).Nodup
  isFresh : ∀ e ∈ fresh, e.1 ∈ g.freshStorages
  covers : ∀ tv ∈ seen, tv.storageId ∈ g.freshStorages → tv.storageId ∈ fresh.map Prod.fst

lemma FreshInv.step {g : OperatorGraph} {seen : List TensorValue}
    {fresh : List (ℕ × String × ℕ)} (h : FreshInv g seen fresh) (tv : TensorValue) :
    FreshInv g (seen ++ [tv]) (freshStep g fresh tv) := by
  unfold freshStep
  by_cases hnew : tv.storageId ∈ g.freshStorages ∧ tv.storageId ∉ fresh.map Prod.fst
  · rw [if_pos hnew]
    refine ⟨?_, fun e he => ?_, fun u hu hsid => ?_⟩
    · rw [map_append]
      refine h.nodup.append (nodup_singleton _) ?_
      simpa using hnew.2
    · rcases mem_append.mp he with he | he
      · exact h.isFresh e he
      · rw [mem_singleton.mp he]
        exact hnew.1
    · rw [map_append]
      rcases mem_append.mp hu with hu | hu
      · exact mem_append_left _ (h.covers u hu hsid)
      · rw [mem_singleton.mp hu]
        exact mem_append_right _ (by simp)
  · rw [if_neg hnew]
    refine ⟨h.nodup, h.isFresh, fun u hu hsid => ?_⟩
    rcases mem_append.mp hu with hu | hu
    · exact h.covers u hu hsid
    · rw [mem_singleton.mp hu] at hsid ⊢
      by_contra hnot
      exact hnew ⟨hsid, hnot⟩

lemma freshTable_inv (g : OperatorGraph) : FreshInv g g.tensors (freshTable g) := by
  have hfold : ∀ (tensors seen : List TensorValue) (fresh : List (ℕ × String × ℕ)),
      FreshInv g seen fresh → FreshInv g (seen ++ tensors) (tensors.foldl (freshStep g) fresh) := by
    intro tensors
    induction tensors with
    | nil =>
      intro seen fresh h
      rw [append_nil]
      exact h
    | cons tv tensors ih =>
      intro _ _ h
      have hrest := ih _ _ (h.step tv)
      rw [append_assoc] at hrest
      exact hrest
  exact hfold g.tensors [] [] ⟨nodup_nil, by simp, by simp⟩

/-- What `planMemory` promises of a workspace. -/
structure Planned (g : OperatorGraph) (sched : PhaseSchedule) (plan : WorkspacePlan) : Prop where
  unique : (plan.buffers.map storageId).Nodup
  isFresh : ∀ b ∈ plan.buffers, b.storageId ∈ g.freshStorages
  covers : ∀ tv ∈ g.tensors, tv.storageId ∈ g.freshStorages →
    ∃ b ∈ plan.buffers, b.storageId = tv.storageId
  sized : ∀ b ∈ plan.buffers, ∃ e ∈ freshTable g, e.1 = b.storageId ∧ e.2.2 = b.numel
  ordered : ∀ b ∈ plan.buffers, b.firstPhase ≤ b.lastPhase
  alive : ∀ b ∈ plan.buffers, ∀ op ∈ g.ops, op.touchesStorage b.storageId →
    ∀ ph, phaseOfOp sched op.opid = some ph → b.firstPhase ≤ ph ∧ ph ≤ b.lastPhase
  atEnd : ∀ b ∈ plan.buffers, b.liveAtEnd ↔ b.lastPhase + 1 = sched.numPhases
  apart : plan.buffers.Pairwise Apart
  inside : ∀ b ∈ plan.buffers, b.offset + b.numel ≤ plan.totalElements

def opPhases (sched : PhaseSchedule) (ops : List Operator) : List (Operator × ℕ) :=
  ops.map fun op => (op, (phaseOfOp sched op.opid).getD 0)

lemma mapM_opPhase {ops : List Operator} (h : ∀ op ∈ ops, ∃ ph, phaseOfOp sched op.opid = some ph) :
    ops.mapM (opPhase sched) = .ok (opPhases sched ops) := by
  induction ops with
  | nil => rfl
  | cons op ops ih =>
    obtain ⟨ph, hph⟩ := h op (by simp)
    have hop : opPhase sched op = .ok (op, ph) := by
      unfold opPhase
      rw [hph]
    have hcons : opPhases sched (op :: ops) = (op, ph) :: opPhases sched ops := by
      unfold opPhases
      rw [map_cons, hph]
      rfl
    rw [mapM_cons, hop, ih fun u hu => h u (by simp [hu]), hcons]
    rfl

/-- The phases of the operators that touch a storage bound its buffer's life. -/
lemma makeBuffer_alive {ops : List Operator} {op : Operator} {ph : ℕ}
    (hop : op ∈ ops) (hph : phaseOfOp sched op.opid = some ph) {e : ℕ × String × ℕ}
    (htouch : op.touchesStorage e.1) (numPhases : ℕ) : (makeBuffer numPhases (opPhases sched ops) e).firstPhase ≤ ph ∧
      ph ≤ (makeBuffer numPhases (opPhases sched ops) e).lastPhase := by
  have hmem : ph ∈ phasesTouched (opPhases sched ops) e.1 := by
    refine mem_map.mpr ⟨(op, ph), mem_filter.mpr ⟨?_, htouch⟩, rfl⟩
    refine mem_map.mpr ⟨op, hop, ?_⟩
    rw [hph]
    rfl
  unfold makeBuffer
  simp only [ne_nil_of_mem hmem, if_false]
  exact ⟨minOf_le hmem, le_maxOf hmem⟩

lemma makeBuffer_ordered (numPhases : ℕ) (opPhases : List (Operator × ℕ)) (e : ℕ × String × ℕ) :
    (makeBuffer numPhases opPhases e).firstPhase ≤ (makeBuffer numPhases opPhases e).lastPhase := by
  unfold makeBuffer
  dsimp only
  cases htouched : phasesTouched opPhases e.1 with
  | nil => exact le_rfl
  | cons ph phs => exact (minOf_le (by simp)).trans (le_maxOf (x := ph) (by simp))

lemma Planned.of_packed {g : OperatorGraph} {placed : List BufferPlan}
    (hapart : placed.Pairwise Apart) (hperm : (placed.map unplaced).Perm
      ((freshTable g).map (makeBuffer sched.numPhases (opPhases sched g.ops)))) :
    Planned g sched ⟨placed, placed.foldl (fun total b => max total (b.offset + b.numel)) 0⟩ := by
  have hinv := freshTable_inv g
  have hsids : (placed.map storageId).Perm ((freshTable g).map Prod.fst) := by
    have hmap := hperm.map storageId
    rw [map_map, map_map] at hmap
    exact hmap
  have hmade : ∀ b ∈ placed, ∃ e ∈ freshTable g, makeBuffer sched.numPhases (opPhases sched g.ops) e = b.unplaced := by
    intro b hb
    exact mem_map.mp (hperm.subset (mem_map_of_mem hb))
  refine ⟨hsids.nodup_iff.mpr hinv.nodup, fun b hb => ?_, fun tv htv hsid => ?_, fun b hb => ?_,
    fun b hb => ?_, fun b hb op hop htouch ph hph => ?_, fun b hb => ?_, hapart, fun b hb => ?_⟩
  · obtain ⟨e, he, hbe⟩ := hmade b hb
    have hsid : e.1 = b.storageId := congrArg storageId hbe
    exact hsid ▸ hinv.isFresh e he
  · exact mem_map.mp (hsids.symm.subset (hinv.covers tv htv hsid))
  · obtain ⟨e, he, hbe⟩ := hmade b hb
    exact ⟨e, he, congrArg storageId hbe, congrArg numel hbe⟩
  · obtain ⟨e, he, hbe⟩ := hmade b hb
    have hord := makeBuffer_ordered sched.numPhases (opPhases sched g.ops) e
    rw [hbe] at hord
    exact hord
  · obtain ⟨e, he, hbe⟩ := hmade b hb
    have hsid : e.1 = b.storageId := congrArg storageId hbe
    have halive := makeBuffer_alive hop hph (hsid.symm ▸ htouch) sched.numPhases
    rw [hbe] at halive
    exact halive
  · obtain ⟨e, he, hbe⟩ := hmade b hb
    have hlast : maxOf _ = b.lastPhase := congrArg lastPhase hbe
    have hend : decide (maxOf _ + 1 = sched.numPhases) = b.liveAtEnd := congrArg liveAtEnd hbe
    rw [← hlast, ← hend]
    exact decide_eq_true_iff
  · exact (le_foldl_max (fun b : BufferPlan => b.offset + b.numel) placed 0).2 b hb

lemma planMemory_ok {g : OperatorGraph} (families : List TaskFamily)
    (hops : ∀ op ∈ g.ops, ∃ ph, phaseOfOp sched op.opid = some ph) :
    ∃ plan scratch, planMemory g sched families = .ok (plan, scratch) ∧ Planned g sched plan := by
  obtain ⟨placed, hplaced, hpacked, hmap⟩ := foldlM_placeBuffer
    (((freshTable g).map (makeBuffer sched.numPhases (opPhases sched g.ops))).insertionSort before) Packed.nil
  have hperm : (placed.map unplaced).Perm
      ((freshTable g).map (makeBuffer sched.numPhases (opPhases sched g.ops))) := by
    rw [hmap, nil_append]
    refine ((perm_insertionSort _ _).map _).trans ?_
    rw [map_map]
    exact List.Perm.refl _
  refine ⟨_, ⟨runtimeScratchBytes, maxOf (families.map TaskFamily.scratchBytes)⟩, ?_, Planned.of_packed hpacked.apart hperm⟩
  unfold planMemory
  rw [mapM_opPhase hops]
  show (foldlM placeBuffer [] _ >>= fun placed => _) = _
  rw [hplaced]
  rfl

/-! ## How much a plan takes -/

/-- What the buffers alive in a phase take. -/
def WorkspacePlan.liveElements (plan : WorkspacePlan) (phase : ℕ) : ℕ :=
  ((plan.buffers.filter fun b => b.firstPhase ≤ phase ∧ phase ≤ b.lastPhase).map numel).sum

/-- Buffers that lie apart below `total` fit in it. -/
lemma sum_numel_le {l : List BufferPlan} {total : ℕ} (hinside : ∀ b ∈ l, b.offset + b.numel ≤ total)
    (hapart : l.Pairwise fun p q => p.alignedEnd ≤ q.offset ∨ q.alignedEnd ≤ p.offset) : (l.map numel).sum ≤ total := by
  have hnodup : (l.flatMap fun b => range' b.offset b.numel).Nodup := by
    refine nodup_flatMap.mpr ⟨fun b _ => nodup_range', hapart.imp fun {p q} hpq x hx hy => ?_⟩
    have hp := le_alignUp p.numel
    have hq := le_alignUp q.numel
    have hx := mem_range'_1.mp hx
    have hy := mem_range'_1.mp hy
    unfold BufferPlan.alignedEnd at hpq
    omega
  have hbelow : (l.flatMap fun b => range' b.offset b.numel) ⊆ range total := fun x hx => by
    obtain ⟨b, hb, hx⟩ := mem_flatMap.mp hx
    have := hinside b hb
    have hx := mem_range'_1.mp hx
    exact mem_range.mpr (by omega)
  simpa [length_flatMap] using (subperm_of_subset hnodup hbelow).length_le

/-- **The workspace** begins every buffer aligned, holds what is alive in any phase, and is never larger than without
    reuse but for the alignment of all buffers but one. -/
theorem workspace_bounds {g : OperatorGraph} {families : List TaskFamily} {plan : WorkspacePlan} {scratch : ScratchPlan}
    (hplan : planMemory g sched families = .ok (plan, scratch)) : (∀ b ∈ plan.buffers, alignElements ∣ b.offset) ∧
      (∀ phase, plan.liveElements phase ≤ plan.totalElements) ∧
      plan.totalElements ≤ (plan.buffers.map numel).sum + 63 * (plan.buffers.length - 1) := by
  unfold planMemory at hplan
  cases hops : g.ops.mapM (opPhase sched) with
  | error e => rw [hops] at hplan; cases hplan
  | ok opPhases =>
    rw [hops] at hplan
    change (foldlM placeBuffer [] _ >>= fun placed => _) = _ at hplan
    obtain ⟨placed, hplaced, hpacked, _⟩ := foldlM_placeBuffer
      (((freshTable g).map (makeBuffer sched.numPhases opPhases)).insertionSort before) Packed.nil
    rw [hplaced] at hplan
    cases hplan
    have hinside := (le_foldl_max (fun b : BufferPlan => b.offset + b.numel) placed 0).2
    refine ⟨fun b hb => (hpacked.compact b hb).1, fun phase =>
      sum_numel_le (fun b hb => hinside b (mem_of_mem_filter hb)) ?_, ?_⟩
    · refine (hpacked.apart.filter _).imp_of_mem fun {p q} hp hq hpq => hpq ?_
      have hp := of_mem_filter hp
      have hq := of_mem_filter hq
      unfold BufferPlan.overlapsLifetime
      grind
    · dsimp only
      have hmax := (max?_eq_some_iff.mp (max?_cons' : (0 :: placed.map fun b => b.offset + b.numel).max? = _)).1
      rw [foldl_map] at hmax
      rcases mem_cons.mp hmax with h | h
      · exact h.le.trans (Nat.zero_le _)
      · obtain ⟨b, hb, h⟩ := mem_map.mp h
        have hlen := length_pos_of_mem hb
        have hle := (hpacked.compact b hb).2
        omega

end VKernels.Compiler
