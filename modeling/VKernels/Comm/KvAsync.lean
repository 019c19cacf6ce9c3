import VKernels.Comm.Gather
import VKernels.Comm.KvPaths

/-!
# Metadata of queued calls

A call on a stream returns before its tasks run, and the caller keeps its metadata arrays.

* `LateTask` — a queued closure.  It is given the caller's arrays as they are when it runs, so that
  a captured vector and a captured pointer into such an array are different functions.
* `AsyncCall` — every one-shot and two-stage gather, scatter, donate and restore call that takes
  a stream, and `AsyncCall.enqueue`, what it leaves on the stream.

## Results

* `AsyncCall.exec_call` — with the arrays unchanged the tasks are those of the call's own model.
* `async_metadata_owned_iff` — a call owns its metadata exactly when it is not a two-stage call
  that has queued bytes to move: those capture `slot_ids + p * page_size`.
* `borrowed_slots` — a donation that reads the slots written after it returned.
-/

namespace VKernels.Comm

open ByteCopies
open List

/-! ## Tasks -/

/-- The metadata arrays of a call.  `ptrs` and `offsets` are the peer or source pointers and the
    page or destination offsets. -/
structure CallerArrays where
  slotIds : Arr ℤ := none
  ptrs : Arr ℕ := none
  offsets : Arr ℕ := none
  lengths : Arr ℕ := none
  runs : Option (List Gather2DRun) := none

abbrev LateTask := CallerArrays → Mem UInt8 → Mem UInt8

/-- How a call on a stream ended, and the tasks it has queued, oldest first. -/
abbrev Enqueued := Except String Unit × List LateTask

/-- A call that submits after its last check. -/
def enqueue : Except String (List LateTask) → Enqueued
  | .error e => (.error e, [])
  | .ok tasks => (.ok (), tasks)

/-- The page loop of a two-stage call: a page is checked, then submitted. -/
def enqueuePages (peer : ℕ → Except String Unit) (task : ℕ → LateTask) : List ℕ → Enqueued
  | [] => (.ok (), [])
  | p :: pages =>
    match peer p with
    | .error e => (.error e, [])
    | .ok () => ((enqueuePages peer task pages).1, task p :: (enqueuePages peer task pages).2)

/-- The tasks run in order; `later i` are the caller's arrays when the `i`-th of them runs. -/
def runLate : List LateTask → (ℕ → CallerArrays) → Mem UInt8 → Mem UInt8
  | [], _, m => m
  | t :: tasks, later, m => runLate tasks (fun i => later (i + 1)) (t (later 0) m)

/-- Whatever becomes of the arrays after the call, the tasks write what the arrays of the call
    say.  `S` are the tasks' own scratch vectors. -/
def OwnsArrays (S : ℕ → Prop) (now : CallerArrays) (tasks : List LateTask) : Prop :=
  ∀ (later : ℕ → CallerArrays) (m : Mem UInt8),
    EqOff S (runLate tasks later m) (runLate tasks (fun _ => now) m)

namespace KvArgs

variable (a : KvArgs)

def arrays : CallerArrays where
  slotIds := a.slotIds
  ptrs := a.peerPtrs
  offsets := a.pageOffsets

/-- The arguments as a task finds them that holds a pointer to the slot list. -/
def withSlots (late : CallerArrays) : KvArgs := { a with slotIds := late.slotIds }

end KvArgs

/-! ## The calls -/

namespace Transfer

variable (t : Transfer)

/-- The one-shot call on a stream: slots and resolved pages are moved into the closure. -/
def fusedAsync : Enqueued := enqueue do
  t.geometry
  if t.numPages = 0 then return []
  t.slots
  expectsAll t.numPages t.peer
  return [fun _ => runAll t.copies]

/-- The two-stage call on a stream. -/
def stagedAsync (task : ℕ → LateTask) : Enqueued :=
  let pages : Except String (List ℕ) := do
    t.geometry
    if t.numPages = 0 then return []
    t.slots
    return List.range t.numPages
  match pages with
  | .error e => (.error e, [])
  | .ok pages => enqueuePages t.peer task pages

end Transfer

/-- The closure of page `p`: the destination is captured resolved, the slots as a pointer. -/
def lateDonateTask (a : KvArgs) (scratch p : ℕ) : LateTask := fun late m =>
  runAll (stagedDonatePage (a.withSlots late) scratch p) (allocate scratch a.pageBytes m)

/-- The closure of page `p`: the source is captured resolved, the slots as a pointer. -/
def lateRestoreTask (a : KvArgs) (scratch p : ℕ) : LateTask := fun late m =>
  runAll (stagedRestorePage (a.withSlots late) scratch p) (allocate scratch a.pageBytes m)

/-- The argument checks that `kv_gather`, `kv_scatter` and their layer calls share. -/
def halfGeometry (names : List String) (ptrs : List Bool) (a : KvArgs) : Except String Unit := do
  (names.zip ptrs).forM fun (name, isSome) =>
    expects (a.numPages = 0 ∨ isSome = true) (name ++ " must be non-null")
      ("num_pages == 0 || " ++ name ++ " != nullptr")

def halfSizes (a : KvArgs) : Except String Unit := do
  expects (0 < a.pageSize ∨ a.numPages = 0) "page_size must be positive"
    "page_size > 0 || num_pages == 0"
  expects (0 < a.numKvHeads ∨ a.numPages = 0) "num_kv_heads must be positive"
    "num_kv_heads > 0 || num_pages == 0"
  expects (0 < a.headDim ∨ a.numPages = 0) "head_dim must be positive"
    "head_dim > 0 || num_pages == 0"
  expects (a.elemSize = 2) "elem_size must be 2 for BF16/FP16" "elem_size == 2"

/-- `validate_slot`. -/
def validateSlot (numSlots : ℕ) (slot : ℤ) : Except String Unit := do
  expects (0 ≤ slot) "slot_ids must be non-negative" "slot >= 0"
  expects (slot.toNat < numSlots) "slot_ids must be < num_slots"
    "static_cast<std::uint64_t>(slot) < static_cast<std::uint64_t>(num_slots)"

/-- Page `p` of a packed `[num_pages, page_size, 2, num_kv_heads, head_dim]` buffer. -/
def packedPage (a : KvArgs) (base p : ℕ) : ℕ := base + p * a.pageBytes

def kvGatherCopies (a : KvArgs) (scratch : ℕ) : List Copy :=
  (List.range a.numPages).flatMap fun p =>
    gatherKvToScratch (packedPage a scratch p) a.k a.v (a.pageSlots p) a.pageSize a.slotBytes
      a.tokenStride

def kvScatterCopies (a : KvArgs) (scratch : ℕ) : List Copy :=
  (List.range a.numPages).flatMap fun p =>
    scatterKvFromScratch (packedPage a scratch p) a.k a.v (a.pageSlots p) a.pageSize a.slotBytes

/-- `kv_gather`: the first half of the two-stage donation, all pages in one task. -/
def kvGather (a : KvArgs) (scratch : ℕ) : Enqueued := enqueue do
  halfGeometry ["scratch", "k_src", "v_src", "slot_ids"]
    [scratch ≠ 0, a.k ≠ 0, a.v ≠ 0, a.slotIds.isSome] a
  halfSizes a
  if a.numPages = 0 then return []
  donateSlots a
  return [fun _ => runAll (kvGatherCopies a scratch)]

/-- `kv_scatter`: the second half of the two-stage restore. -/
def kvScatter (a : KvArgs) (scratch : ℕ) : Enqueued := enqueue do
  halfGeometry ["k_dst", "v_dst", "scratch", "slot_ids"]
    [a.k ≠ 0, a.v ≠ 0, scratch ≠ 0, a.slotIds.isSome] a
  halfSizes a
  if a.numPages = 0 then return []
  restoreSlots a
  return [fun _ => runAll (kvScatterCopies a scratch)]

def expectsNumSlots (a : KvArgs) (numSlots : ℕ) : Except String Unit :=
  expects (0 < numSlots ∨ a.numPages = 0) "num_slots must be positive"
    "num_slots > 0 || num_pages == 0"

/-- `kv_gather_layer`, for `int32` and for `int64` slots. -/
def kvGatherLayer (a : KvArgs) (numSlots dst : ℕ) : Enqueued := enqueue do
  halfGeometry ["dst", "k_src", "v_src", "slot_ids"]
    [dst ≠ 0, a.k ≠ 0, a.v ≠ 0, a.slotIds.isSome] a
  expectsNumSlots a numSlots
  halfSizes a
  if a.numPages = 0 then return []
  expectsAll (a.numPages * a.pageSize) fun i => validateSlot numSlots (a.slot i)
  return [fun _ => runAll (kvGatherCopies a dst)]

/-- One round of the slot loop of `kv_scatter_layer`. -/
def layerSlotRound (a : KvArgs) (int64 : Bool) (numSlots : ℕ) (seen : List ℤ) (i : ℕ) :
    Except String (List ℤ) := do
  validateSlot numSlots (a.slot i)
  expects (a.slot i ∉ seen) "slot_ids must be unique" (if int64 then "seen.insert(s[i]).second"
    else "seen.insert(static_cast<std::int64_t>(s[i])).second")
  return a.slot i :: seen

/-- `kv_scatter_layer`; `int64` is the width of the slots. -/
def kvScatterLayer (a : KvArgs) (int64 : Bool) (numSlots src : ℕ) : Enqueued := enqueue do
  halfGeometry ["k_dst", "v_dst", "slot_ids", "src"]
    [a.k ≠ 0, a.v ≠ 0, a.slotIds.isSome, src ≠ 0] a
  expectsNumSlots a numSlots
  halfSizes a
  if a.numPages = 0 then return []
  let _ ← (List.range (a.numPages * a.pageSize)).foldlM (layerSlotRound a int64 numSlots) []
  return [fun _ => runAll (kvScatterCopies a src)]

/-- `p2p_gather_runs`: the staged runs are moved into the closure. -/
def p2pGatherRuns (dst : DstSpan) (g : RunList1D) : Enqueued := enqueue do
  let runs ← stageRuns1d dst g
  if runs = [] then return []
  return [fun _ => runAll (copyAll1d runs dst.data)]

def p2pGatherRuns2d (dst : DstSpan) (g : Option (List Gather2DRun)) (numRuns : ℕ) : Enqueued :=
  enqueue do
    let staged ← stageRuns2d dst g numRuns
    if staged = [] then return []
    return [fun _ => runAll (copyAll2d staged dst.data)]

/-- `memcpy_peer_batch_async`: a task a run. -/
def memcpyPeerBatchAsync (dst : DstSpan) (g : RunList1D) : Enqueued := enqueue do
  let runs ← stageRuns1d dst g
  if runs = [] then return []
  return runs.map fun r _ => runAll (r.copies dst.data)

/-- The calls that take a stream.  `scratch` of a two-stage call is where its vectors are
    allocated; elsewhere it is the caller's packed buffer. -/
inductive AsyncCall where
  | gatherRuns (dst : DstSpan) (g : RunList1D)
  | gatherRuns2d (dst : DstSpan) (g : Option (List Gather2DRun)) (numRuns : ℕ)
  | peerBatch (dst : DstSpan) (g : RunList1D)
  | donate (a : KvArgs)
  | donateTwostage (a : KvArgs) (scratch : ℕ)
  | kvGather (a : KvArgs) (scratch : ℕ)
  | kvGatherLayer (a : KvArgs) (numSlots dst : ℕ)
  | restore (a : KvArgs)
  | restoreTwostage (a : KvArgs) (scratch : ℕ)
  | kvScatter (a : KvArgs) (scratch : ℕ)
  | kvScatterLayer (a : KvArgs) (int64 : Bool) (numSlots src : ℕ)

namespace AsyncCall

def arrays : AsyncCall → CallerArrays
  | gatherRuns _ g | peerBatch _ g =>
    { ptrs := g.srcPtrs, offsets := g.dstOffsets, lengths := g.lengths }
  | gatherRuns2d _ g _ => { runs := g }
  | donate a | donateTwostage a _ | kvGather a _ | kvGatherLayer a _ _ => a.arrays
  | restore a | restoreTwostage a _ | kvScatter a _ | kvScatterLayer a _ _ _ => a.arrays

def enqueue : AsyncCall → Enqueued
  | gatherRuns dst g => p2pGatherRuns dst g
  | gatherRuns2d dst g numRuns => p2pGatherRuns2d dst g numRuns
  | peerBatch dst g => memcpyPeerBatchAsync dst g
  | donate a => (donateTransfer a).fusedAsync
  | donateTwostage a scratch => (donateTransfer a).stagedAsync (lateDonateTask a scratch)
  | kvGather a scratch => Comm.kvGather a scratch
  | kvGatherLayer a numSlots dst => Comm.kvGatherLayer a numSlots dst
  | restore a => (restoreTransfer a).fusedAsync
  -- the two-stage restore checks nothing
  | restoreTwostage a scratch =>
    enqueuePages (fun _ => .ok ()) (lateRestoreTask a scratch) (List.range a.numPages)
  | kvScatter a scratch => Comm.kvScatter a scratch
  | kvScatterLayer a int64 numSlots src => Comm.kvScatterLayer a int64 numSlots src

/-- The scratch vector of a task of the call. -/
def Staging : AsyncCall → ℕ → Prop
  | donateTwostage a scratch | restoreTwostage a scratch =>
    fun x => scratch ≤ x ∧ x < scratch + a.pageBytes
  | _ => fun _ => False

/-- What the caller and the allocator of the scratch vectors promise: buffers do not overlap, and
    the two-stage restore, which checks nothing, is given no null page. -/
def Layout (c : AsyncCall) : Prop :=
  match c with
  | donateTwostage a _ => a.Apart c.Staging
  | restoreTwostage a _ => a.Apart c.Staging ∧ ∀ p < a.numPages, a.peer p ≠ 0
  | _ => True

/-- The bytes eventually written are those the arrays said at the call. -/
def OwnsMetadata (c : AsyncCall) : Prop := OwnsArrays c.Staging c.arrays c.enqueue.2

/-- A two-stage call with a page to move: its closures hold a pointer to the caller's slots. -/
def BorrowsSlots : AsyncCall → Prop
  | donateTwostage a _ => (donateTransfer a).Accepts ∧ 0 < a.numPages ∧ a.peer 0 ≠ 0
  | restoreTwostage a _ => 0 < a.numPages ∧ 0 < a.pageSize ∧ 0 < a.slotBytes
  | _ => False

end AsyncCall

/-! ## The calls of the earlier models -/

open AsyncCall (OwnsMetadata donateTwostage restoreTwostage)

section

variable {t : Transfer}

/-- The pages queued are those before the first null one. -/
lemma enqueuePages_tasks (peer : ℕ → Except String Unit) (task : ℕ → LateTask) :
    ∀ pages : List ℕ, (enqueuePages peer task pages).2 = (pages.takeWhile fun p => (peer p).isOk).map task
  | [] => rfl
  | p :: pages => by
    unfold enqueuePages
    cases h : peer p with
    | error e => simp [h, Except.isOk, Except.toBool]
    | ok => simp [h, Except.isOk, Except.toBool, enqueuePages_tasks]

/-- The page loop of a call that submits `task` at the arrays `now`. -/
lemma exec_enqueuePages (peer : ℕ → Except String Unit) (task : ℕ → LateTask)
    (now : CallerArrays) : ∀ (pages : List ℕ) (h : Host),
    exec (forEach pages fun p => do check (peer p); submit (task p now)) h =
      ((enqueuePages peer task pages).1,
        { h with queue := h.queue ++ (enqueuePages peer task pages).2.map (· now) })
  | [], h => by simp [forEach, enqueuePages]
  | p :: pages, h => by
    unfold enqueuePages
    rw [forEach, exec_bind, exec_bind, exec_check]
    cases hp : peer p with
    | error e => simp
    | ok =>
      simp only [exec_submit]
      rw [exec_enqueuePages]
      simp

def queued (now : CallerArrays) (e : Enqueued) (h : Host) : Except String Unit × Host :=
  (e.1, { h with queue := h.queue ++ e.2.map (· now) })

lemma queued_error (now : CallerArrays) (e : String) (h : Host) :
    queued now (.error e, []) h = (.error e, h) := by simp [queued]

lemma queued_empty (now : CallerArrays) (h : Host) : queued now (.ok (), []) h = (.ok (), h) := by simp [queued]

lemma exec_expectsAll (f : ℕ → Except String Unit) (n : ℕ) (h : Host) :
    exec (forEach (range n) fun p => check (f p)) h = (expectsAll n f, h) := by
  have hlist : ∀ l : List ℕ, exec (forEach l fun p => check (f p)) h = (l.foldlM (fun _ i => f i) (), h) := by
    intro l
    induction l with
    | nil => rfl
    | cons i l ih =>
      rw [forEach, exec_bind, exec_check, foldlM_cons]
      cases f i with
      | error e => rfl
      | ok => exact ih
  exact hlist _

lemma Transfer.exec_fusedAsync (now : CallerArrays) (h : Host) :
    exec (t.fused true) h = queued now t.fusedAsync h := by
  unfold fused fusedAsync
  rw [exec_bind, exec_check]
  cases t.geometry with
  | error e => exact (queued_error now e h).symm
  | ok =>
    by_cases hpages : t.numPages = 0
    · simp only [hpages, if_true]
      exact (queued_empty now h).symm
    simp only [hpages, if_false]
    rw [exec_bind, exec_check]
    cases t.slots with
    | error e => exact (queued_error now e h).symm
    | ok =>
      simp only [Bool.true_eq_false, if_false]
      rw [exec_bind, exec_expectsAll]
      cases expectsAll t.numPages t.peer with
      | error e => exact (queued_error now e h).symm
      | ok => rfl

lemma Transfer.exec_stagedAsync {alloc : Mem UInt8 → Mem UInt8} {stage : ℕ → List Copy}
    {task : ℕ → LateTask} {now : CallerArrays} (htask : ∀ p, task p now = stagedTask alloc stage p)
    (h : Host) : exec (t.staged alloc stage true) h = queued now (t.stagedAsync task) h := by
  unfold staged stagedAsync
  cases t.geometry with
  | error e => exact (queued_error now e h).symm
  | ok =>
    by_cases hpages : t.numPages = 0
    · simp only [hpages, if_true]
      exact (queued_empty now h).symm
    simp only [hpages, if_false]
    cases t.slots with
    | error e => exact (queued_error now e h).symm
    | ok =>
      simp only [Bool.true_eq_false, if_false, ← htask]
      exact exec_enqueuePages t.peer task now _ h

end

/-- The call of the earlier models, where there is one. -/
def AsyncCall.call : AsyncCall → Option Call
  | donate a => p2pKvDonateLayer a true
  | donateTwostage a scratch => p2pKvDonateLayerTwostage a scratch true
  | restore a => p2pKvRestoreLayer a true
  | restoreTwostage a scratch => p2pKvRestoreLayerTwostage a scratch true
  | _ => none

lemma AsyncCall.exec_call (c : AsyncCall) (call : Call) (hc : c.call = some call) (h : Host) :
    exec call h = queued c.arrays c.enqueue h := by
  cases c with
  | donate a =>
    cases hc
    exact Transfer.exec_fusedAsync _ h
  | donateTwostage a scratch =>
    cases hc
    exact Transfer.exec_stagedAsync (fun p => rfl) h
  | restore a =>
    cases hc
    exact Transfer.exec_fusedAsync _ h
  | restoreTwostage a scratch =>
    cases hc
    unfold p2pKvRestoreLayerTwostage
    by_cases hpages : a.numPages = 0
    · unfold AsyncCall.enqueue
      simp only [hpages]
      exact (queued_empty _ h).symm
    · rw [if_neg hpages, if_neg (by simp)]
      have hloop := exec_enqueuePages (fun _ => .ok ()) (lateRestoreTask a scratch) a.arrays (range a.numPages) h
      refine Eq.trans ?_ hloop
      congr 1
  | gatherRuns | gatherRuns2d | peerBatch | kvGather | kvGatherLayer | kvScatter
  | kvScatterLayer => cases hc

/-! ## Tasks that hold their metadata -/

lemma runLate_const (late : CallerArrays) : ∀ (tasks : List LateTask) (m : Mem UInt8),
    runLate tasks (fun _ => late) m = tasks.foldl (fun m t => t late m) m
  | [], _ => rfl
  | t :: tasks, m => runLate_const late tasks (t late m)

/-- Closures that captured all their metadata by value. -/
def Held (tasks : List LateTask) : Prop := ∀ t ∈ tasks, ∀ late late', t late = t late'

lemma Held.owns {S : ℕ → Prop} (now : CallerArrays) {tasks : List LateTask} (h : Held tasks) :
    OwnsArrays S now tasks := by
  have hrun : ∀ (later : ℕ → CallerArrays) (m : Mem UInt8), runLate tasks later m = runLate tasks (fun _ => now) m := by
    induction tasks with
    | nil => exact fun _ _ => rfl
    | cons t tasks ih =>
      intro later m
      show runLate tasks _ (t (later 0) m) = runLate tasks _ (t now m)
      rw [h t (by simp)]
      exact ih (fun t ht => h t (by simp [ht])) _ _
  exact fun later m x _ => congrFun (hrun later m) x

lemma held_nil : Held [] := fun _ ht => absurd ht not_mem_nil

lemma held_one (f : Mem UInt8 → Mem UInt8) : Held [fun _ => f] := by
  intro t ht _ _
  rw [mem_singleton.mp ht]

/-- Whatever a call enqueues is held. -/
def Holds (x : Except String (List LateTask)) : Prop := ∀ tasks, x = .ok tasks → Held tasks

lemma Holds.enqueue {x : Except String (List LateTask)} (h : Holds x) : Held (enqueue x).2 := by
  cases x with
  | error e => exact held_nil
  | ok tasks => exact h tasks rfl

lemma Holds.bind {α : Type} (x : Except String α) {k : α → Except String (List LateTask)}
    (h : ∀ r, Holds (k r)) : Holds (x >>= k) := by
  intro tasks htasks
  obtain ⟨r, _, hk⟩ := bind_ok.mp htasks
  exact h r tasks hk

lemma Holds.pure {tasks : List LateTask} (h : Held tasks) : Holds (pure tasks) := by
  intro _ htasks
  cases htasks
  exact h

/-- Every call ends so: nothing for no page, else its tasks. -/
lemma Holds.ite {p : Prop} [Decidable p] {x y : Except String (List LateTask)} (hx : Holds x)
    (hy : Holds y) : Holds (if p then x else y) := by
  by_cases h : p
  · rwa [if_pos h]
  · rwa [if_neg h]

/-! ## Tasks that hold a pointer -/

lemma exists_other_slot (s base sb x : ℕ) : ∃ u, u ≠ s ∧ ¬ (base + u * sb ≤ x ∧ x < base + u * sb + sb) := by
  by_contra hnone
  push Not at hnone
  have h0 := hnone 0
  have h1 := hnone 1
  have h2 := hnone 2
  omega

/-- All slots rewritten to `u`. -/
def allSlots (u : ℕ) : CallerArrays := { slotIds := some fun _ => u }

section

variable {a : KvArgs} {S : ℕ → Prop} {scratch : ℕ}

lemma allocate_const_off {x n : ℕ} {m : Mem UInt8} (h : ∀ y, y ≠ x → m y = 0) :
    ∀ y, y ≠ x → allocate scratch n m y = 0 := by
  intro y hy
  unfold allocate
  split
  · rfl
  · exact h y hy

lemma donate_unchanged (happ : a.Apart S) (hscratch : ∀ j < a.pageBytes, S (scratch + j))
    (hsize : 0 < a.pageSize) (hbytes : 0 < a.slotBytes) {pages : List ℕ} {p : ℕ}
    (hpages : ∀ q ∈ pages ++ [p], q < a.numPages ∧ a.peer q ≠ 0) (m : Mem UInt8) :
    runLate ((pages ++ [p]).map (lateDonateTask a scratch)) (fun _ => a.arrays) m (a.pageBase p) =
      m (a.k + (a.pageSlots p 0).toNat * a.slotBytes) := by
  obtain ⟨hp, hpeer⟩ := hpages p (by simp)
  have hpos : 0 < a.pageSize * (2 * a.slotBytes) := mul_pos hsize (by omega)
  have hpage : a.InPage p (a.pageBase p) := ⟨le_rfl, by
    show a.pageBase p < a.pageBase p + a.pageSize * (2 * a.slotBytes)
    omega⟩
  have hstep : ∀ q ∈ pages ++ [p], Implements S (lateDonateTask a scratch q a.arrays) (donatePage a q) := by
    intro q hq
    obtain ⟨hq, hqpeer⟩ := hpages q hq
    have hstage : Implements (β := UInt8) S _
        (donatePage a q) := stagedDonatePage_implements hq
      (fun x hx => ⟨fun hxp => happ.pages_slots q hq hqpeer x hxp hx, happ.slots_staging x hx⟩) hscratch
    exact hstage.after (allocate_eqOff hscratch)
  have hrun := Implements.foldl hstep m m (EqOff.refl m) _ (happ.pages_staging p hp hpeer _ hpage)
  rw [runLate_const, foldl_map]
  refine hrun.trans ?_
  rw [flatMap_append, runAll_append, flatMap_cons, flatMap_nil, append_nil]
  -- the last page takes the byte from its slot, which the pages before have left alone
  have hvalue : runAll (donatePage a p) (runAll (pages.flatMap (donatePage a)) m)
      (a.pageBase p + 0) = runAll (pages.flatMap (donatePage a)) m
        (gatherSource a.k a.v _ a.slotBytes 0) :=
    gatherPage_value (fun x hx hbox => happ.pages_slots p hp hpeer x hbox (donatePage_reads hp hx)) hpos
  have hsource : gatherSource a.k a.v (a.pageSlots p) a.slotBytes 0 = a.k + (a.pageSlots p 0).toNat * a.slotBytes := by
    unfold gatherSource
    simp [hbytes]
  rw [hsource] at hvalue
  refine hvalue.trans (runAll_frame ?_ m)
  rintro ⟨c, hc, hw⟩
  obtain ⟨q, hq, hc⟩ := mem_flatMap.mp hc
  obtain ⟨hq, hqpeer⟩ := hpages q (by simp [hq])
  exact happ.pages_slots q hq hqpeer _ (donatePage_writes ⟨c, hc, hw⟩)
    ⟨p * a.pageSize + 0, KvArgs.token_lt hp hsize, .inl ⟨le_rfl, by
      show a.k + (a.pageSlots p 0).toNat * a.slotBytes < a.k + (a.pageSlots p 0).toNat * a.slotBytes + a.slotBytes
      omega⟩⟩

/-- With all slots rewritten to `u`, a donation reads slot `u` and its scratch only. -/
lemma lateDonateTask_const_off {u x : ℕ} (hx : ¬ S x) (hscratch : ∀ j < a.pageBytes, S (scratch + j))
    (hk : ¬ (a.k + u * a.slotBytes ≤ x ∧ x < a.k + u * a.slotBytes + a.slotBytes))
    (hv : ¬ (a.v + u * a.slotBytes ≤ x ∧ x < a.v + u * a.slotBytes + a.slotBytes)) (p : ℕ)
    {m : Mem UInt8} (hm : ∀ y, y ≠ x → m y = 0) : ∀ y, y ≠ x → lateDonateTask a scratch p (allSlots u) m y = 0 := by
  refine runAll_const_off ?_ (allocate_const_off hm)
  rintro ⟨c, hc, hr⟩
  rcases mem_append.mp hc with hc | hc
  · obtain ⟨t, _, h | h⟩ := gatherPage_reads ⟨c, hc, hr⟩
    · exact hk h
    · exact hv h
  · rw [mem_singleton.mp hc] at hr
    obtain ⟨hle, hlt⟩ := hr
    have hlt : x < scratch + a.pageBytes := hlt
    have hle : scratch ≤ x := hle
    have := hscratch (x - scratch) (by omega)
    rw [Nat.add_sub_cancel' hle] at this
    exact hx this

/-- **A two-stage donation** with a page on the stream follows the caller's later slots. -/
theorem donate_borrows (happ : a.Apart S) (hscratch : ∀ j < a.pageBytes, S (scratch + j))
    (hsize : 0 < a.pageSize) (hbytes : 0 < a.slotBytes) {pages : List ℕ} {p : ℕ}
    (hpages : ∀ q ∈ pages ++ [p], q < a.numPages ∧ a.peer q ≠ 0) :
    ¬ OwnsArrays S a.arrays ((pages ++ [p]).map (lateDonateTask a scratch)) := by
  obtain ⟨hp, hpeer⟩ := hpages p (by simp)
  obtain ⟨x, hx⟩ : ∃ x, x = a.k + (a.pageSlots p 0).toNat * a.slotBytes := ⟨_, rfl⟩
  have hslots : a.InSlots x := by
    refine ⟨p * a.pageSize + 0, KvArgs.token_lt hp hsize, .inl ?_⟩
    show a.k + (a.pageSlots p 0).toNat * a.slotBytes ≤ x ∧ x < a.k + (a.pageSlots p 0).toNat * a.slotBytes + a.slotBytes
    omega
  have hpos : 0 < a.pageSize * (2 * a.slotBytes) := mul_pos hsize (by omega)
  have hpage : a.InPage p (a.pageBase p) := ⟨le_rfl, by
    show a.pageBase p < a.pageBase p + a.pageSize * (2 * a.slotBytes)
    omega⟩
  have hne : a.pageBase p ≠ x := fun he => happ.pages_slots p hp hpeer _ hpage (he ▸ hslots)
  obtain ⟨u, hu, hv⟩ := exists_other_slot (a.pageSlots p 0).toNat a.v a.slotBytes x
  have hk : ¬ (a.k + u * a.slotBytes ≤ x ∧ x < a.k + u * a.slotBytes + a.slotBytes) :=
    slot_ranges_disjoint (Ne.symm hu) (by omega)
  intro hown
  -- one byte set, the first byte the last page should carry
  have h := hown (fun _ => allSlots u) (fun y => if y = x then 1 else 0) _
    (happ.pages_staging p hp hpeer _ hpage)
  rw [donate_unchanged happ hscratch hsize hbytes hpages, ← hx, if_pos rfl, runLate_const] at h
  have hlate : ∀ (l : List LateTask), (∀ t ∈ l, ∃ q, t = lateDonateTask a scratch q) →
      ∀ m : Mem UInt8, (∀ y, y ≠ x → m y = 0) → ∀ y, y ≠ x → l.foldl (fun m t => t (allSlots u) m) m y = 0 := by
    intro l
    induction l with
    | nil => exact fun _ m hm => hm
    | cons t l ih =>
      intro hl m hm
      obtain ⟨q, rfl⟩ := hl t (by simp)
      exact ih (fun t ht => hl t (by simp [ht])) _
        (lateDonateTask_const_off (happ.slots_staging x hslots) hscratch hk hv q hm)
  rw [hlate _ (fun t ht => ?_) _ (fun y hy => if_neg hy) _ hne] at h
  · exact absurd h (by decide)
  · obtain ⟨q, _, rfl⟩ := mem_map.mp ht
    exact ⟨q, rfl⟩

lemma scatterPage_last (page k v : ℕ) (slots : ℕ → ℤ) (n sb : ℕ) : ∃ init, scatterPage page k v slots (n + 1) sb =
      init ++ [⟨v + (slots n).toNat * sb, page + n * (2 * sb) + sb, sb⟩] := by
  refine ⟨scatterPage page k v slots n sb ++ [⟨k + (slots n).toNat * sb, page + n * (2 * sb), sb⟩], ?_⟩
  unfold scatterPage
  rw [range_succ, flatMap_append]
  simp

lemma restore_unchanged (happ : a.Apart S) (hscratch : ∀ j < a.pageBytes, S (scratch + j))
    (hpeers : ∀ p < a.numPages, a.peer p ≠ 0) {n s : ℕ} (hn : a.numPages = n + 1)
    (hs : a.pageSize = s + 1) (hbytes : 0 < a.slotBytes) (m : Mem UInt8) :
    runLate ((range a.numPages).map (lateRestoreTask a scratch)) (fun _ => a.arrays) m
        (a.v + (a.pageSlots n s).toNat * a.slotBytes) = m (a.pageBase n + s * (2 * a.slotBytes) + a.slotBytes) := by
  have hslot : a.InSlots (a.v + (a.pageSlots n s).toNat * a.slotBytes) := by
    refine ⟨n * a.pageSize + s, KvArgs.token_lt (by omega) (by omega), .inr ⟨le_rfl, ?_⟩⟩
    show a.v + (a.pageSlots n s).toNat * a.slotBytes < a.v + (a.pageSlots n s).toNat * a.slotBytes + a.slotBytes
    omega
  have hsource : a.InPage n (a.pageBase n + s * (2 * a.slotBytes) + a.slotBytes) := by
    have htoken := Blocks.block_le (show s < a.pageSize by omega) (2 * a.slotBytes)
    refine ⟨by omega, ?_⟩
    show _ < a.pageBase n + a.pageSize * (2 * a.slotBytes)
    omega
  have hstep : ∀ q ∈ range a.numPages, Implements S (lateRestoreTask a scratch q a.arrays) (restorePage a q) := by
    intro q hq
    have hq := mem_range.mp hq
    have hstage : Implements (β := UInt8) S _
        (restorePage a q) := stagedRestorePage_implements hq
      (fun x hx => ⟨fun hxp => happ.pages_slots q hq (hpeers q hq) x hxp hx, happ.slots_staging x hx⟩)
      (fun x hx => happ.pages_staging q hq (hpeers q hq) x hx) hscratch
    exact hstage.after (allocate_eqOff hscratch)
  have hrun := Implements.foldl hstep m m (EqOff.refl m) _ (happ.slots_staging _ hslot)
  rw [runLate_const, foldl_map]
  refine hrun.trans ?_
  -- the last copy takes the byte from its page, which no copy before has written
  obtain ⟨init, hinit⟩ := scatterPage_last _ a.k a.v _ s a.slotBytes
  have hlast : restorePage a n = init ++ [⟨a.v + (a.pageSlots n s).toNat * a.slotBytes,
      a.pageBase n + s * (2 * a.slotBytes) + a.slotBytes, a.slotBytes⟩] := by
    unfold restorePage fusedCopyPage
    rw [hs, hinit]
  have hcopies : (range a.numPages).flatMap (restorePage a) = ((range n).flatMap (restorePage a) ++ init) ++
        [⟨a.v + (a.pageSlots n s).toNat * a.slotBytes,
          a.pageBase n + s * (2 * a.slotBytes) + a.slotBytes, a.slotBytes⟩] := by
    rw [hn, range_succ, flatMap_append, flatMap_cons, flatMap_nil, append_nil, hlast, append_assoc]
  have hframe : ¬ Writes ((range n).flatMap (restorePage a) ++ init)
      (a.pageBase n + s * (2 * a.slotBytes) + a.slotBytes) := by
    rintro ⟨c, hc, hw⟩
    refine happ.pages_slots n (by omega) (hpeers n (by omega)) _ hsource ?_
    refine restoreCopies_writes ⟨c, ?_, hw⟩
    show c ∈ (range a.numPages).flatMap (restorePage a)
    rw [hcopies]
    exact mem_append_left _ hc
  rw [hcopies, runAll_append, runAll_cons, runAll_nil, Copy.run_of_writes ⟨le_rfl, by
    show a.v + (a.pageSlots n s).toNat * a.slotBytes < a.v + (a.pageSlots n s).toNat * a.slotBytes + a.slotBytes
    omega⟩]
  rw [Nat.sub_self, Nat.add_zero, runAll_frame hframe]

lemma lateRestoreTask_frame {u x : ℕ} (hx : ¬ S x) (hscratch : ∀ j < a.pageBytes, S (scratch + j))
    (hk : ¬ (a.k + u * a.slotBytes ≤ x ∧ x < a.k + u * a.slotBytes + a.slotBytes))
    (hv : ¬ (a.v + u * a.slotBytes ≤ x ∧ x < a.v + u * a.slotBytes + a.slotBytes)) (p : ℕ)
    (m : Mem UInt8) : lateRestoreTask a scratch p (allSlots u) m x = m x := by
  refine (runAll_frame ?_ _).trans (allocate_eqOff hscratch m x hx)
  rintro ⟨c, hc, hw⟩
  rcases mem_cons.mp hc with rfl | hc
  · obtain ⟨hle, hlt⟩ := hw
    have hlt : x < scratch + a.pageBytes := hlt
    have hle : scratch ≤ x := hle
    have := hscratch (x - scratch) (by omega)
    rw [Nat.add_sub_cancel' hle] at this
    exact hx this
  · obtain ⟨t, _, h | h⟩ := scatterPage_writes ⟨c, hc, hw⟩
    · exact hk h
    · exact hv h

/-- **A two-stage restore** of a page with bytes follows the caller's later slots. -/
theorem restore_borrows (happ : a.Apart S) (hscratch : ∀ j < a.pageBytes, S (scratch + j))
    (hpeers : ∀ p < a.numPages, a.peer p ≠ 0) (hpages : 0 < a.numPages) (hsize : 0 < a.pageSize)
    (hbytes : 0 < a.slotBytes) : ¬ OwnsArrays S a.arrays ((range a.numPages).map (lateRestoreTask a scratch)) := by
  obtain ⟨n, hn⟩ := Nat.exists_eq_succ_of_ne_zero hpages.ne'
  obtain ⟨s, hs⟩ := Nat.exists_eq_succ_of_ne_zero hsize.ne'
  obtain ⟨x, hx⟩ : ∃ x, x = a.v + (a.pageSlots n s).toNat * a.slotBytes := ⟨_, rfl⟩
  obtain ⟨y, hy⟩ : ∃ y, y = a.pageBase n + s * (2 * a.slotBytes) + a.slotBytes := ⟨_, rfl⟩
  have hslot : a.InSlots x := by
    refine ⟨n * a.pageSize + s, KvArgs.token_lt (by omega) (by omega), .inr ?_⟩
    show a.v + (a.pageSlots n s).toNat * a.slotBytes ≤ x ∧ x < a.v + (a.pageSlots n s).toNat * a.slotBytes + a.slotBytes
    omega
  have hpage : a.InPage n y := by
    have htoken := Blocks.block_le (show s < a.pageSize by omega) (2 * a.slotBytes)
    refine ⟨by omega, ?_⟩
    show y < a.pageBase n + a.pageSize * (2 * a.slotBytes)
    omega
  have hne : x ≠ y := fun he => happ.pages_slots n (by omega) (hpeers n (by omega)) _ hpage (he ▸ hslot)
  obtain ⟨u, hu, hk⟩ := exists_other_slot (a.pageSlots n s).toNat a.k a.slotBytes x
  have hv : ¬ (a.v + u * a.slotBytes ≤ x ∧ x < a.v + u * a.slotBytes + a.slotBytes) :=
    slot_ranges_disjoint (Ne.symm hu) (by omega)
  intro hown
  -- one byte set, the one the last slot should receive
  have h := hown (fun _ => allSlots u) (fun z => if z = y then 1 else 0) x (happ.slots_staging x hslot)
  have hlate : ∀ (l : List ℕ) (m : Mem UInt8),
      l.foldl (fun m p => lateRestoreTask a scratch p (allSlots u) m) m x = m x := by
    intro l
    induction l with
    | nil => exact fun _ => rfl
    | cons p l ih =>
      intro m
      rw [foldl_cons, ih]
      exact lateRestoreTask_frame (happ.slots_staging x hslot) hscratch hk hv p m
  rw [runLate_const, foldl_map, hlate, if_neg hne, hx,
    restore_unchanged happ hscratch hpeers hn hs hbytes, ← hy, if_pos rfl] at h
  exact absurd h (by decide)

lemma restore_empty (h : a.pageSize = 0 ∨ a.slotBytes = 0) (p : ℕ) (late : CallerArrays)
    (m : Mem UInt8) : lateRestoreTask a scratch p late m = allocate scratch a.pageBytes m := by
  refine runAll_of_empty (fun c hc => ?_) _
  rcases mem_cons.mp hc with rfl | hc
  · show a.pageSize * (2 * a.slotBytes) = 0
    rcases h with h | h <;> simp [h]
  · obtain ⟨t, ht, hct⟩ := mem_scatterPage.mp hc
    have ht : t < a.pageSize := ht
    have hlen : c.len = a.slotBytes := by
      rcases hct with rfl | rfl <;> rfl
    omega

end

/-! ## Which calls own their metadata -/

lemma fusedAsync_held (t : Transfer) : Held t.fusedAsync.2 :=
  Holds.enqueue (.bind _ fun _ => .ite (.pure held_nil) (.bind _ fun _ => .bind _ fun _ =>
    .pure (held_one _)))

lemma stagedAsync_rejected {t : Transfer} (h : ¬ t.Accepts) (task : ℕ → LateTask) : (t.stagedAsync task).2 = [] := by
  unfold Transfer.stagedAsync
  cases hgeo : t.geometry with
  | error e => rfl
  | ok =>
    by_cases hpages : t.numPages = 0
    · simp only [hpages]
      rfl
    · cases hslots : t.slots with
      | error e =>
        simp only [hpages, if_false]
        rfl
      | ok => exact absurd ⟨hgeo, fun _ => hslots⟩ h

lemma stagedAsync_accepted {t : Transfer} (h : t.Accepts) (task : ℕ → LateTask) : (t.stagedAsync task).2 =
      ((range t.numPages).takeWhile fun p => (t.peer p).isOk).map task := by
  rw [← enqueuePages_tasks]
  unfold Transfer.stagedAsync
  rw [h.1]
  by_cases hpages : t.numPages = 0
  · simp only [hpages]
    rfl
  · rw [h.2 hpages]
    simp only [hpages, if_false]
    rfl

lemma isOk_iff {x : Except String Unit} : x.isOk = true ↔ x = .ok () := by
  cases x <;> simp [Except.isOk, Except.toBool]

lemma stagedAsync_tasks (t : Transfer) (task : ℕ → LateTask) :
    ((t.stagedAsync task).2 = [] ∧ (t.Accepts → 0 < t.numPages → t.peer 0 ≠ .ok ())) ∨
      ∃ pages p, (t.stagedAsync task).2 = (pages ++ [p]).map task ∧
        (∀ q ∈ pages ++ [p], q < t.numPages ∧ t.peer q = .ok ()) ∧ t.Accepts ∧ 0 < t.numPages ∧ t.peer 0 = .ok () := by
  by_cases hacc : t.Accepts
  swap
  · exact .inl ⟨stagedAsync_rejected hacc task, fun h => absurd h hacc⟩
  rw [stagedAsync_accepted hacc]
  obtain ⟨w, hw⟩ : ∃ w, w = (range t.numPages).takeWhile fun p => (t.peer p).isOk := ⟨_, rfl⟩
  have hmem : ∀ q ∈ w, q < t.numPages ∧ t.peer q = .ok () := by
    intro q hq
    rw [hw] at hq
    exact ⟨mem_range.mp (( takeWhile_prefix _).subset hq),
      isOk_iff.mp (mem_takeWhile_imp (p := fun p => (t.peer p).isOk) hq)⟩
  -- the first page decides whether there is a task
  have hfirst : 0 < t.numPages → t.peer 0 = .ok () → w ≠ [] := by
    intro hpos hok
    rw [hw, show t.numPages = t.numPages - 1 + 1 by omega, range_succ_eq_map,
      takeWhile_cons_of_pos (p := fun p => (t.peer p).isOk) (isOk_iff.mpr hok)]
    simp
  rw [← hw]
  rcases eq_nil_or_concat w with hnil | ⟨pages, p, hp⟩
  · exact .inl ⟨by rw [hnil]; rfl, fun _ hpos hok => hfirst hpos hok hnil⟩
  · rw [concat_eq_append] at hp
    have hp' := hmem p (by simp [hp])
    refine .inr ⟨pages, p, by rw [hp], by rw [← hp]; exact hmem, hacc, by omega, ?_⟩
    by_contra hnull
    have : w = [] := by
      rw [hw, show t.numPages = t.numPages - 1 + 1 by omega, range_succ_eq_map,
        takeWhile_cons_of_neg (p := fun p => (t.peer p).isOk) fun h => hnull (isOk_iff.mp h)]
    rw [hp] at this
    simp at this

/-- **Which calls own their metadata.**  Two-stage calls with bytes on the stream do not; all others
    do. -/
theorem async_metadata_owned_iff (c : AsyncCall) (hlayout : c.Layout) : c.OwnsMetadata ↔ ¬ c.BorrowsSlots := by
  have howned : Held c.enqueue.2 → ¬ c.BorrowsSlots → (c.OwnsMetadata ↔ ¬ c.BorrowsSlots) :=
    fun h hb => ⟨fun _ => hb, fun _ => h.owns c.arrays⟩
  cases c with
  | gatherRuns dst g =>
    exact howned (Holds.enqueue (.bind _ fun runs => .ite (.pure held_nil) (.pure (held_one _)))) id
  | gatherRuns2d dst g numRuns =>
    exact howned (Holds.enqueue (.bind _ fun runs => .ite (.pure held_nil) (.pure (held_one _)))) id
  | peerBatch dst g =>
    refine howned (Holds.enqueue (.bind _ fun runs => .ite (.pure held_nil) (.pure ?_))) id
    intro t ht late late'
    obtain ⟨r, _, rfl⟩ := mem_map.mp ht
    rfl
  | donate a => exact howned (fusedAsync_held _) id
  | restore a => exact howned (fusedAsync_held _) id
  | kvGather a scratch =>
    exact howned (Holds.enqueue (.bind _ fun _ => .bind _ fun _ => .ite (.pure held_nil)
      (.bind _ fun _ => .pure (held_one _)))) id
  | kvScatter a scratch =>
    exact howned (Holds.enqueue (.bind _ fun _ => .bind _ fun _ => .ite (.pure held_nil)
      (.bind _ fun _ => .pure (held_one _)))) id
  | kvGatherLayer a numSlots dst =>
    exact howned (Holds.enqueue (.bind _ fun _ => .bind _ fun _ => .bind _ fun _ =>
      .ite (.pure held_nil) (.bind _ fun _ => .pure (held_one _)))) id
  | kvScatterLayer a int64 numSlots src =>
    exact howned (Holds.enqueue (.bind _ fun _ => .bind _ fun _ => .bind _ fun _ =>
      .ite (.pure held_nil) (.bind _ fun _ => .pure (held_one _)))) id
  | donateTwostage a scratch =>
    have hbox : ∀ j < a.pageBytes, (donateTwostage a scratch).Staging (scratch + j) :=
      fun j hj => ⟨by omega, by omega⟩
    rcases stagedAsync_tasks (donateTransfer a) (lateDonateTask a scratch) with
      ⟨hnone, hidle⟩ | ⟨pages, p, htasks, hpages, hacc, hnum, hpeer⟩
    · refine howned (by rw [AsyncCall.enqueue, hnone]; exact held_nil) fun ⟨hacc, hnum, hpeer⟩ => ?_
      exact hidle hacc hnum (peerCheck_ok.mpr hpeer)
    · obtain ⟨hsize, hbytes⟩ := kvGeometry_pos hacc.1 hnum.ne'
      have hborrow : ¬ OwnsArrays (donateTwostage a scratch).Staging a.arrays
          ((pages ++ [p]).map (lateDonateTask a scratch)) := by
        refine donate_borrows hlayout hbox hsize hbytes fun q hq => ?_
        obtain ⟨hq, hok⟩ := hpages q hq
        exact ⟨hq, peerCheck_ok.mp hok⟩
      refine ⟨fun hown => absurd hown ?_, fun hnot => absurd ⟨hacc, hnum, peerCheck_ok.mp hpeer⟩ hnot⟩
      unfold OwnsMetadata
      rw [AsyncCall.enqueue, htasks]
      exact hborrow
  | restoreTwostage a scratch =>
    have hbox : ∀ j < a.pageBytes, (restoreTwostage a scratch).Staging (scratch + j) :=
      fun j hj => ⟨by omega, by omega⟩
    obtain ⟨happ, hpeers⟩ := hlayout
    have htasks : (restoreTwostage a scratch).enqueue.2 =
        (range a.numPages).map (lateRestoreTask a scratch) := by
      rw [AsyncCall.enqueue, enqueuePages_tasks]
      congr 1
      exact takeWhile_eq_self_iff.mpr fun p _ => rfl
    by_cases hborrow : (restoreTwostage a scratch).BorrowsSlots
    · obtain ⟨hnum, hsize, hbytes⟩ := hborrow
      refine ⟨fun hown => absurd hown ?_, fun hnot => absurd ⟨hnum, hsize, hbytes⟩ hnot⟩
      unfold OwnsMetadata
      rw [htasks]
      exact restore_borrows happ hbox hpeers hnum hsize hbytes
    · refine howned ?_ hborrow
      rw [htasks]
      intro t ht _ _
      obtain ⟨p, hp, rfl⟩ := mem_map.mp ht
      have hp := mem_range.mp hp
      have hempty : a.pageSize = 0 ∨ a.slotBytes = 0 := by
        by_contra hsome
        exact hborrow ⟨by omega, by omega, by omega⟩
      funext m
      rw [restore_empty hempty, restore_empty hempty]

theorem async_metadata_owned_iff_null_page :
    ¬ (donateTwostage (smallLayer [0, 1] [300, 0] 1) 1000).OwnsMetadata := by
  intro hown
  have hlayout : (donateTwostage (smallLayer [0, 1] [300, 0] 1) 1000).Layout := nullPage_apart
  refine (async_metadata_owned_iff _ hlayout).mp hown ⟨⟨?_, fun _ => ?_⟩, ?_, ?_⟩
  all_goals decide

/-- One page of one token, in slot 0 at the call and rewritten to slot 1 before the task runs: the
    page gets slot 1's byte 102 for slot 0's byte 100, and the restore leaves slot 0 alone. -/
theorem borrowed_slots : ¬ (donateTwostage (smallLayer [0] [300] 1) 1000).OwnsMetadata ∧
      ¬ (restoreTwostage (smallLayer [0] [300] 1) 1000).OwnsMetadata := by
  constructor
  · intro hown
    have hpage : ¬ (donateTwostage (smallLayer [0] [300] 1) 1000).Staging 300 :=
      fun h => absurd h.1 (by decide)
    exact absurd (hown (fun _ => allSlots 1) (fun x => UInt8.ofNat x) 300 hpage) (by decide +kernel)
  · intro hown
    have hslot : ¬ (restoreTwostage (smallLayer [0] [300] 1) 1000).Staging 100 :=
      fun h => absurd h.1 (by decide)
    exact absurd (hown (fun _ => allSlots 1) (fun x => UInt8.ofNat x) 100 hslot) (by decide +kernel)

end VKernels.Comm
