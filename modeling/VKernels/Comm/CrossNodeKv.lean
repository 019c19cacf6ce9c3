import VKernels.Comm.KvAsync
import VKernels.Comm.PipelineBoundary

/-!
# Cross-node KV transfer

Model of the host references `comm/fabric_import.cpp` and `comm/cross_node_kv.cpp`, with the
validators of `comm/slot_map.hpp`.

* `CrossNodeKvRestorePlan`, `CrossNodeKvDonatePlan` and their striped twins, with constructors and
  `execute`.  `kvGatherInto` and `kvScatterFrom` are the packed halves over a vector of their own.

## Results

* `CrossNodeArgs.prepare_ok` — what an accepted constructor has checked.
* `CrossNodeKvRestorePlan.perform_direct`, `CrossNodeKvDonatePlan.perform_store` — the closures of
  the direct path are the copies of the same-node restore and donate.
-/

namespace VKernels.Comm

open ByteCopies Effects

/-! ## Streams -/

section

variable {β : Type}

/-- `stream->submit(run)`. -/
def enqueueTask (run : Eff (World β) Unit) : Eff (Node β) Unit := change fun n =>
  { n with stream := { n.stream with tasks := n.stream.tasks ++ [run] } }

/-- The worker's loop over the queued tasks: a failure is remembered, the next task still runs. -/
def drainTasks : List (Eff (World β) Unit) → Option Stop → Eff (World β) (Option Stop)
  | [], failure => pure failure
  | t :: tasks, failure => byState fun w =>
    match perform t w with
    | (.ok (), w') => do
        change fun _ => w'
        drainTasks tasks failure
    | (.error .blocked, w') => do
        change fun _ => w'
        throw .blocked
    | (.error e, w') => do
        change fun _ => w'
        drainTasks tasks (failure <|> some e)

/-- `Stream::wait`. -/
def streamWait : Eff (Node β) Unit := byState fun n => do
  let failure ← zoom Node.world (fun w n => { n with world := w })
    (drainTasks n.stream.tasks n.stream.failure)
  change fun n => { n with stream := .idle β }
  match failure with
  | none => pure ()
  | some e => throw e

/-- The end of every host-staged `execute`: an eager break while the graph captures, else the
    stream, else at once. -/
def hostStaged (graph stream : Bool) (run : Eff (World β) Unit) : Eff (Node β) Unit :=
  byState fun n =>
    if graph = true ∧ n.graph.inCapture = true then eagerBreak graph run
    else if stream then enqueueTask run
    else runNow run

end

/-- A call of the same-node layer, without a stream. -/
def ofCall (c : Call) : Eff (World UInt8) Unit := byState fun w =>
  match exec c ⟨w.mem, []⟩ with
  | (.ok (), h) => change fun w => { w with mem := h.mem }
  | (.error e, h) => do
      change fun w => { w with mem := h.mem }
      throw (.threw e)

/-! ## Fabric imports -/

inductive FabricImportTransport where
  | fabricMapped
  | sameNodePeer
  | hostBounce
  deriving DecidableEq, Repr

def isImportGraphCapturable (t : FabricImportTransport) : Bool :=
  t = .fabricMapped ∨ t = .sameNodePeer

/-- Published memory: `bytes` is the address of the handle's vector. -/
structure FabricHandle where
  bytes : ℕ
  size : ℕ
  deriving DecidableEq, Repr

/-- `mirror` is the address of the import's own vector; a null device pointer is 0. -/
structure FabricImport where
  transport : FabricImportTransport
  size : ℕ
  mirror : ℕ
  devicePtr : ℕ
  deriving DecidableEq, Repr

namespace FabricImport

/-- The import object of the constructor; `mirror` is where its vector is allocated. -/
def ofHandle (transport : FabricImportTransport) (handle : FabricHandle) (mirror : ℕ) : FabricImport where
  transport := transport
  size := handle.size
  mirror := mirror
  devicePtr :=
    match transport with
    | .sameNodePeer => handle.bytes
    | .fabricMapped => mirror
    | .hostBounce => 0

/-- What the constructor copies: the mirror is taken from the handle's bytes, once. -/
def populate (self : FabricImport) (handle : FabricHandle) : List Copy :=
  match self.transport with
  | .sameNodePeer => []
  | .fabricMapped | .hostBounce => [⟨self.mirror, handle.bytes, self.size⟩]

def hasDevicePtr (self : FabricImport) : Bool := self.devicePtr ≠ 0

def writeBack (self : FabricImport) (remote : FabricHandle) : Eff (World UInt8) Unit :=
  if self.transport ≠ .fabricMapped then pure () else do
    require (self.size ≤ remote.size)
      "write_back: remote FabricHandle smaller than the imported mirror" "remote.size() >= size_"
    deviceOp (⟨remote.bytes, self.mirror, self.size⟩ : Copy).run

end FabricImport

/-! ## Validation -/

/-- The arguments of the four plan constructors. -/
structure CrossNodeArgs where
  numSlots : ℕ
  numKvHeads : ℕ
  headDim : ℕ
  elemSize : ℕ
  slotIds : Arr ℤ
  numPages : ℕ
  pageSize : ℕ

/-- `checked_mul`. -/
def checkedMul (a b : ℕ) (what : String) : Except String ℕ :=
  if b ≠ 0 ∧ (2 ^ 64 - 1) / b < a then .error (what ++ " overflows size_t") else .ok (a * b)

namespace CrossNodeArgs

variable (a : CrossNodeArgs)

def slot (i : ℕ) : ℤ := (a.slotIds.getD fun _ => 0) i

def slotBytes : ℕ := perSlotBytes a.numKvHeads a.headDim a.elemSize

def tokenStride : ℕ := tokenStrideBytes a.numKvHeads a.headDim a.elemSize

def pageLayerBytes : ℕ := a.pageSize * a.tokenStride

def totalBytes : ℕ := a.numPages * a.pageLayerBytes

/-- `validate_kv_plan_shape`. -/
def validateKvPlanShape : Except String Unit := do
  expects (0 < a.numSlots ∨ a.numPages = 0) "num_slots must be positive"
    "num_slots > 0 || num_pages == 0"
  expects (0 < a.pageSize ∨ a.numPages = 0) "page_size must be positive"
    "page_size > 0 || num_pages == 0"
  expects (0 < a.numKvHeads ∨ a.numPages = 0) "num_kv_heads must be positive"
    "num_kv_heads > 0 || num_pages == 0"
  expects (0 < a.headDim ∨ a.numPages = 0) "head_dim must be positive"
    "head_dim > 0 || num_pages == 0"
  expects (a.elemSize = 2) "elem_size must be 2 for BF16/FP16" "elem_size == 2"

/-- `validate_unique_slots`, for a scatter. -/
def validateUniqueSlots : Except String Unit :=
  slotRounds a.slot (fun slot => expects (slot.toNat < a.numSlots) "slot_ids must be < num_slots"
    "static_cast<std::size_t>(slot) < num_slots") (a.numPages * a.pageSize)

/-- `validate_slot_bounds`, for a gather. -/
def validateSlotBounds : Except String Unit :=
  expectsAll (a.numPages * a.pageSize) fun i => do
    expects (0 ≤ a.slot i) "slot_ids must be non-negative" "slot >= 0"
    expects ((a.slot i).toNat < a.numSlots) "slot_ids must be < num_slots"
      "static_cast<std::size_t>(slot) < num_slots"

/-- The statements of the four constructors up to the stripes or the direct plan; `none` is the
    early return of the empty plan.  `what` names the plan in the overflow texts. -/
def prepare (what : String) (importCheck slots : Except String Unit) :
    Except String (Option Unit) := do
  a.validateKvPlanShape
  if a.numPages = 0 then return none
  expects a.slotIds.isSome "slot_ids must be non-null" "slot_ids != nullptr"
  importCheck
  let _ ← checkedMul a.numPages a.pageSize (what ++ " token count")
  slots
  let pageLayerBytes ← checkedMul a.pageSize a.tokenStride (what ++ " page bytes")
  let _ ← checkedMul a.numPages pageLayerBytes (what ++ " total bytes")
  return some ()

/-- The pages of the direct path, laid out from the import's device pointer; `offset` is added to
    every one. -/
def direct (base k v offset : ℕ) : KvArgs where
  k := k
  v := v
  slotIds := a.slotIds
  peerPtrs := some fun p => base + p * a.pageLayerBytes
  pageOffsets := some fun _ => offset
  numPages := a.numPages
  pageSize := a.pageSize
  numKvHeads := a.numKvHeads
  headDim := a.headDim
  elemSize := a.elemSize

end CrossNodeArgs

section

variable {a : CrossNodeArgs} {what : String} {importOk slots : Except String Unit}

lemma checkedMul_ok {x y r : ℕ} {text : String} (h : checkedMul x y text = .ok r) : r = x * y ∧ x * y < 2 ^ 64 := by
  unfold checkedMul at h
  by_cases hover : y ≠ 0 ∧ (2 ^ 64 - 1) / y < x
  · rw [if_pos hover] at h
    cases h
  · rw [if_neg hover] at h
    cases h
    refine ⟨rfl, ?_⟩
    rcases eq_zero_or_pos y with rfl | hy
    · simp
    · have hle : x ≤ (2 ^ 64 - 1) / y := by
        by_contra hlt
        exact hover ⟨by omega, by omega⟩
      have := (Nat.le_div_iff_mul_le hy).mp hle
      omega

/-- What an accepted constructor has checked. -/
structure CrossNodeArgs.Checked (a : CrossNodeArgs) : Prop where
  numSlots : 0 < a.numSlots
  pageSize : 0 < a.pageSize
  slotBytes : 0 < a.slotBytes
  slotIds : a.slotIds.isSome
  total : a.totalBytes < 2 ^ 64

lemma CrossNodeArgs.prepare_ok {r : Option Unit} (h : a.prepare what importOk slots = .ok r) :
    (a.numPages = 0 ∧ r = none) ∨ (a.numPages ≠ 0 ∧ r = some () ∧ a.Checked ∧ importOk = .ok () ∧ slots = .ok ()) := by
  obtain ⟨_, hshape, h⟩ := bind_ok.mp h
  obtain ⟨hnum, hshape⟩ := expects_ok.mp hshape
  simp only [expects_ok] at hshape
  obtain ⟨hpage, hheads, hdim, hshape⟩ := hshape
  have helem : a.elemSize = 2 := by
    by_contra hne
    simp [expects, hne] at hshape
  by_cases hpages : a.numPages = 0
  · simp only [hpages, if_true] at h
    cases h
    exact .inl ⟨hpages, rfl⟩
  · simp only [hpages, if_false] at h
    obtain ⟨hids, h⟩ := expects_ok.mp h
    obtain ⟨_, himport, h⟩ := bind_ok.mp h
    obtain ⟨_, _, h⟩ := bind_ok.mp h
    obtain ⟨_, hslots, h⟩ := bind_ok.mp h
    obtain ⟨_, hbytes, h⟩ := bind_ok.mp h
    obtain ⟨_, htotal, h⟩ := bind_ok.mp h
    cases h
    obtain ⟨rfl, _⟩ := checkedMul_ok hbytes
    refine .inr ⟨hpages, rfl, ⟨hnum.resolve_right hpages, hpage.resolve_right hpages, ?_, hids,
      (checkedMul_ok htotal).2⟩, himport, hslots⟩
    unfold slotBytes perSlotBytes
    rw [helem]
    have := mul_pos (hheads.resolve_right hpages) (hdim.resolve_right hpages)
    omega

end

/-! ## The packed halves -/

/-- `kv_gather` into a vector of `total_bytes` of its own, addressed from 0.  Its checks repeat the
    plan's. -/
def kvGatherInto (a : CrossNodeArgs) (kSrc vSrc : ℕ) (m : Mem UInt8) : Mem UInt8 :=
  runBetween (kvGatherCopies (a.direct 0 kSrc vSrc 0) 0) m fun _ => 0

/-- `kv_scatter` out of a vector, addressed from 0.  Its checks repeat the plan's. -/
def kvScatterFrom (a : CrossNodeArgs) (kDst vDst : ℕ) (buf m : Mem UInt8) : Mem UInt8 :=
  runBetween (kvScatterCopies (a.direct 0 kDst vDst 0) 0) buf m

def vectorOf (chunk : List UInt8) : Mem UInt8 := fun j => chunk.getD j 0

/-! ## Stripes -/

structure CrossNodeKvStripeConfig where
  laneCount : ℕ
  minChunkBytes : ℕ
  deriving DecidableEq, Repr

structure CrossNodeKvStripeChunk where
  offset : ℕ
  bytes : ℕ
  lane : ℕ
  deriving DecidableEq, Repr

/-- The loop of `compute_cross_node_kv_stripes` with `n` lanes to go. -/
def stripeChunks (base rem : ℕ) : ℕ → ℕ → ℕ → List CrossNodeKvStripeChunk
  | 0, _, _ => []
  | n + 1, l, offset =>
    let bytes := base + if l < rem then 1 else 0
    ⟨offset, bytes, l⟩ :: stripeChunks base rem n (l + 1) (offset + bytes)

/-- A small transfer stays on lane 0; `size_t` wraps the product. -/
def computeCrossNodeKvStripes (totalBytes : ℕ) (config : CrossNodeKvStripeConfig) :
    Except String (List CrossNodeKvStripeChunk) := do
  expects (0 < config.laneCount) "stripe lane_count must be positive" "config.lane_count > 0"
  expects (0 < config.minChunkBytes) "stripe min_chunk_bytes must be positive"
    "config.min_chunk_bytes > 0"
  if totalBytes = 0 then return []
  if totalBytes < wrap (config.laneCount * config.minChunkBytes) then return [⟨0, totalBytes, 0⟩]
  return stripeChunks (totalBytes / config.laneCount) (totalBytes % config.laneCount)
    config.laneCount 0 0

/-! ## Plans -/

/-- The import check of the graph-capturable transports; `what` is the direction. -/
def importCheck (what : String) (transport : FabricImportTransport)
    (fabric : Option FabricImport) : Except String Unit :=
  if isImportGraphCapturable transport then
    expects (fabric.any FabricImport.hasDevicePtr)
      ("graph-capturable cross-node " ++ what ++ " needs a FabricImport with a device pointer")
      "import_ != nullptr && import_->has_device_ptr()"
  else .ok ()

/-- The device pointer of an import that may be null. -/
def devicePtr (fabric : Option FabricImport) : ℕ := (fabric.map FabricImport.devicePtr).getD 0

structure CrossNodeKvRestorePlan where
  args : CrossNodeArgs
  transport : FabricImportTransport
  fabric : Option FabricImport
  directPlan : Option P2PKvRestorePlan

structure CrossNodeKvDonatePlan where
  args : CrossNodeArgs
  transport : FabricImportTransport
  fabric : Option FabricImport
  directPlan : Option P2PKvDonatePlan

structure CrossNodeKvStripedPlan where
  args : CrossNodeArgs
  stripe : CrossNodeKvStripeConfig
  stripes : List CrossNodeKvStripeChunk

namespace CrossNodeKvRestorePlan

def construct (a : CrossNodeArgs) (transport : FabricImportTransport)
    (fabric : Option FabricImport) : Except String CrossNodeKvRestorePlan := do
  let prepared ← a.prepare "cross-node restore" (importCheck "restore" transport fabric)
    a.validateUniqueSlots
  if prepared.isNone ∨ isImportGraphCapturable transport = false then
    return ⟨a, transport, fabric, none⟩
  let direct ← P2PKvRestorePlan.construct a.numSlots (a.direct (devicePtr fabric) 0 0 0) .device
  return ⟨a, transport, fabric, some direct⟩

variable (self : CrossNodeKvRestorePlan)

/-- `direct_plan_->execute`; an accepted plan of a direct transport has one. -/
def direct (kDst vDst offset : ℕ) : Eff (World UInt8) Unit :=
  match self.directPlan with
  | none => throw (.threw "direct_plan_ is null")
  | some plan => ofCall (plan.execute kDst vDst offset false)

/-- The closure of the host-bounce path. -/
def bounce (kDst vDst channel : ℕ) : Eff (World UInt8) Unit := do
  let buf ← recv channel
  require (self.args.totalBytes ≤ buf.length)
    "cross-node restore recv: channel chunk smaller than one layer"
    "buf.size() >= self->total_bytes_"
  deviceOp (kvScatterFrom self.args kDst vDst (vectorOf buf))

def execute (kDst vDst sourceLayerOffsetBytes : ℕ) (stream graph : Bool) (channel : Option ℕ) :
    Eff (Node UInt8) Unit := do
  require (kDst ≠ 0 ∨ self.args.numPages = 0) "k_dst must be non-null"
    "k_dst != nullptr || num_pages_ == 0"
  require (vDst ≠ 0 ∨ self.args.numPages = 0) "v_dst must be non-null"
    "v_dst != nullptr || num_pages_ == 0"
  if self.args.numPages = 0 then pure ()
  else if isImportGraphCapturable self.transport then
    byState fun n =>
      if graph = true ∧ n.graph.inCapture = true then
        GraphCapture.submit (self.direct kDst vDst sourceLayerOffsetBytes)
      else if stream then enqueueTask (self.direct kDst vDst sourceLayerOffsetBytes)
      else runNow (self.direct kDst vDst sourceLayerOffsetBytes)
  else
    match channel with
    | none => throw (.threw
        "host-bounce cross-node restore needs a channel: channel != nullptr")
    | some channel => hostStaged graph stream (self.bounce kDst vDst channel)

end CrossNodeKvRestorePlan

namespace CrossNodeKvDonatePlan

def construct (a : CrossNodeArgs) (transport : FabricImportTransport)
    (fabric : Option FabricImport) : Except String CrossNodeKvDonatePlan := do
  let prepared ← a.prepare "cross-node donate" (importCheck "donate" transport fabric)
    a.validateSlotBounds
  if prepared.isNone ∨ isImportGraphCapturable transport = false then
    return ⟨a, transport, fabric, none⟩
  let direct ← P2PKvDonatePlan.construct a.numSlots (a.direct (devicePtr fabric) 0 0 0) .device
  return ⟨a, transport, fabric, some direct⟩

variable (self : CrossNodeKvDonatePlan)

/-- `direct_plan_->execute`; an accepted plan of a direct transport has one. -/
def store (kSrc vSrc offset : ℕ) : Eff (World UInt8) Unit :=
  match self.directPlan with
  | none => throw (.threw "direct_plan_ is null")
  | some plan => ofCall (plan.execute kSrc vSrc offset false)

def writeBack (remote : FabricHandle) : Eff (World UInt8) Unit :=
  match self.fabric with
  | none => throw (.threw "import_ is null")
  | some fabric => fabric.writeBack remote

/-- The closure `direct`. -/
def direct (kSrc vSrc : ℕ) (remote : FabricHandle) (offset : ℕ) : Eff (World UInt8) Unit := do
  self.store kSrc vSrc offset
  self.writeBack remote

/-- The closure of the host-bounce path. -/
def bounce (kSrc vSrc channel : ℕ) : Eff (World UInt8) Unit := byState fun w =>
  send channel (readChunk 0 self.args.totalBytes (kvGatherInto self.args kSrc vSrc w.mem))

/-- With a stream and outside a capture the store is a task, waited for before the write-back. -/
def execute (kSrc vSrc : ℕ) (remote : FabricHandle) (destinationLayerOffsetBytes : ℕ)
    (stream graph : Bool) (channel : Option ℕ) : Eff (Node UInt8) Unit := do
  require (kSrc ≠ 0 ∨ self.args.numPages = 0) "k_src must be non-null"
    "k_src != nullptr || num_pages_ == 0"
  require (vSrc ≠ 0 ∨ self.args.numPages = 0) "v_src must be non-null"
    "v_src != nullptr || num_pages_ == 0"
  if self.args.numPages = 0 then pure ()
  else if isImportGraphCapturable self.transport then
    byState fun n =>
      if graph = true ∧ n.graph.inCapture = true then
        GraphCapture.submit (self.direct kSrc vSrc remote destinationLayerOffsetBytes)
      else if stream then do
        enqueueTask (self.store kSrc vSrc destinationLayerOffsetBytes)
        streamWait
        runNow (self.writeBack remote)
      else runNow (self.direct kSrc vSrc remote destinationLayerOffsetBytes)
  else
    match channel with
    | none => throw (.threw "host-bounce cross-node donate needs a channel: channel != nullptr")
    | some channel => hostStaged graph stream (self.bounce kSrc vSrc channel)

end CrossNodeKvDonatePlan

/-! ## Accepted plans and the direct closures -/

section

variable {a : CrossNodeArgs} {transport : FabricImportTransport} {fabric : Option FabricImport}

variable {self : CrossNodeKvRestorePlan}

lemma CrossNodeKvRestorePlan.construct_fields (h : construct a transport fabric = .ok self) :
    self.args = a ∧ self.transport = transport ∧ self.fabric = fabric := by
  obtain ⟨r, _, h⟩ := bind_ok.mp h
  split at h
  · cases h
    exact ⟨rfl, rfl, rfl⟩
  · obtain ⟨_, _, h⟩ := bind_ok.mp h
    cases h
    exact ⟨rfl, rfl, rfl⟩

lemma CrossNodeKvDonatePlan.construct_fields {self : CrossNodeKvDonatePlan}
    (h : construct a transport fabric = .ok self) :
    self.args = a ∧ self.transport = transport ∧ self.fabric = fabric := by
  obtain ⟨r, _, h⟩ := bind_ok.mp h
  split at h
  · cases h
    exact ⟨rfl, rfl, rfl⟩
  · obtain ⟨_, _, h⟩ := bind_ok.mp h
    cases h
    exact ⟨rfl, rfl, rfl⟩

lemma perform_ofCall {c : Call} {w : World UInt8} {m : Mem UInt8}
    (h : exec c ⟨w.mem, []⟩ = (.ok (), ⟨m, []⟩)) :
    perform (ofCall c) w = (.ok (), { w with mem := m }) := by
  unfold ofCall
  rw [perform_byState, h]
  rfl

lemma CrossNodeKvRestorePlan.perform_direct
    (h : construct a transport fabric = .ok self) (hcap : isImportGraphCapturable transport = true)
    (hpages : a.numPages ≠ 0) {kDst vDst : ℕ} (hk : kDst ≠ 0) (hv : vDst ≠ 0) (offset : ℕ)
    (w : World UInt8) : perform (self.direct kDst vDst offset) w = (.ok (), { w with
      mem := runAll (restoreCopies (a.direct (devicePtr fabric) kDst vDst offset)) w.mem }) := by
  obtain ⟨r, hr, h⟩ := bind_ok.mp h
  rcases CrossNodeArgs.prepare_ok hr with ⟨h0, _⟩ | ⟨_, rfl, _⟩
  · exact absurd h0 hpages
  simp only [Option.isNone_some, Bool.false_eq_true, hcap, Bool.true_eq_false, or_self,
    if_false] at h
  obtain ⟨_, hplan, h⟩ := bind_ok.mp h
  cases h
  obtain ⟨_, _, hplan⟩ := bind_ok.mp hplan
  have hpages' : (a.direct (devicePtr fabric) 0 0 0).numPages ≠ 0 := hpages
  simp only [hpages', if_false] at hplan
  obtain ⟨_, _, hplan⟩ := bind_ok.mp hplan
  cases hplan
  refine perform_ofCall ?_
  unfold P2PKvRestorePlan.execute
  rw [if_neg (by exact hpages), exec_checked (expects_of hk _ _), exec_checked (expects_of hv _ _)]
  rfl

lemma CrossNodeKvDonatePlan.perform_store {self : CrossNodeKvDonatePlan}
    (h : construct a transport fabric = .ok self) (hcap : isImportGraphCapturable transport = true)
    (hpages : a.numPages ≠ 0) {kSrc vSrc : ℕ} (hk : kSrc ≠ 0) (hv : vSrc ≠ 0) (offset : ℕ)
    (w : World UInt8) : perform (self.store kSrc vSrc offset) w = (.ok (), { w with
      mem := runAll (donateCopies (a.direct (devicePtr fabric) kSrc vSrc offset)) w.mem }) := by
  obtain ⟨r, hr, h⟩ := bind_ok.mp h
  rcases CrossNodeArgs.prepare_ok hr with ⟨h0, _⟩ | ⟨_, rfl, _⟩
  · exact absurd h0 hpages
  simp only [Option.isNone_some, Bool.false_eq_true, hcap, Bool.true_eq_false, or_self,
    if_false] at h
  obtain ⟨_, hplan, h⟩ := bind_ok.mp h
  cases h
  obtain ⟨_, _, hplan⟩ := bind_ok.mp hplan
  have hpages' : (a.direct (devicePtr fabric) 0 0 0).numPages ≠ 0 := hpages
  simp only [hpages', if_false] at hplan
  obtain ⟨_, _, hplan⟩ := bind_ok.mp hplan
  cases hplan
  refine perform_ofCall ?_
  unfold P2PKvDonatePlan.execute P2PKvDonatePlan.executeChecks
  rw [exec_bind, exec_check, expects_of (.inr hk), expects_of (.inr hv)]
  rw [if_neg (by exact hpages)]
  rfl

end

namespace CrossNodeKvStripedPlan

/-- The two striped constructors: `what` is the direction, `slots` its slot check. -/
def construct (what : String) (a : CrossNodeArgs) (slots : Except String Unit)
    (stripe : CrossNodeKvStripeConfig) : Except String CrossNodeKvStripedPlan := do
  match ← a.prepare ("cross-node striped " ++ what) (.ok ()) slots with
  | none => return ⟨a, stripe, []⟩
  | some () => do
      let stripes ← computeCrossNodeKvStripes a.totalBytes stripe
      return ⟨a, stripe, stripes⟩

def constructRestore (a : CrossNodeArgs) (stripe : CrossNodeKvStripeConfig) :
    Except String CrossNodeKvStripedPlan := construct "restore" a a.validateUniqueSlots stripe

def constructDonate (a : CrossNodeArgs) (stripe : CrossNodeKvStripeConfig) :
    Except String CrossNodeKvStripedPlan := construct "donate" a a.validateSlotBounds stripe

variable (self : CrossNodeKvStripedPlan)

/-- `lane_ptrs[c.lane]`. -/
def laneOf (lanes : List ℕ) (c : CrossNodeKvStripeChunk) : ℕ := lanes.getD c.lane 0

/-- The receive loop over the chunks; `buf` is the reassembled layer so far. -/
def recvStripes (lanes : List ℕ) : List CrossNodeKvStripeChunk → Mem UInt8 → Eff (World UInt8) (Mem UInt8)
  | [], buf => pure buf
  | c :: stripes, buf => do
      let chunk ← recv (laneOf lanes c)
      require (chunk.length = c.bytes) "striped restore recv: lane chunk size mismatch"
        "chunk.size() == c.bytes"
      recvStripes lanes stripes (storeChunk c.offset c.bytes chunk buf)

/-- The closure of the striped restore. -/
def restore (kDst vDst : ℕ) (lanes : List ℕ) : Eff (World UInt8) Unit := do
  let buf ← recvStripes lanes self.stripes fun _ => 0
  deviceOp (kvScatterFrom self.args kDst vDst buf)

/-- The closure of the striped donate. -/
def donate (kSrc vSrc : ℕ) (lanes : List ℕ) : Eff (World UInt8) Unit := byState fun w =>
  each self.stripes fun c =>
    send (laneOf lanes c) (readChunk c.offset c.bytes (kvGatherInto self.args kSrc vSrc w.mem))

def executeRestore (kDst vDst : ℕ) (stream graph : Bool) (lanes : List ℕ) :
    Eff (Node UInt8) Unit := do
  require (kDst ≠ 0 ∨ self.args.numPages = 0) "k_dst must be non-null"
    "k_dst != nullptr || num_pages_ == 0"
  require (vDst ≠ 0 ∨ self.args.numPages = 0) "v_dst must be non-null"
    "v_dst != nullptr || num_pages_ == 0"
  if self.args.numPages = 0 then pure ()
  else do
    require (self.stripe.laneCount ≤ lanes.length)
      "striped restore needs one channel per configured lane"
      "lanes.size() >= stripe_.lane_count"
    hostStaged graph stream (self.restore kDst vDst lanes)

def executeDonate (kSrc vSrc : ℕ) (stream graph : Bool) (lanes : List ℕ) :
    Eff (Node UInt8) Unit := do
  require (kSrc ≠ 0 ∨ self.args.numPages = 0) "k_src must be non-null"
    "k_src != nullptr || num_pages_ == 0"
  require (vSrc ≠ 0 ∨ self.args.numPages = 0) "v_src must be non-null"
    "v_src != nullptr || num_pages_ == 0"
  if self.args.numPages = 0 then pure ()
  else do
    require (self.stripe.laneCount ≤ lanes.length)
      "striped donate needs one channel per configured lane"
      "lanes.size() >= stripe_.lane_count"
    hostStaged graph stream (self.donate kSrc vSrc lanes)

end CrossNodeKvStripedPlan

end VKernels.Comm
