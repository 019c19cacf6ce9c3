import VKernels.Comm.PackedLayer
import VKernels.Lib.FifoLanes

/-!
# Transfers over channels

The host-bounce and the striped donate and restore plans of two nodes, over channels that deliver
in their own time.

* `stripes_tile`, `stripes_lanes` — the chunks of a striped plan tile the packed layer in order,
  one for each lane.
* `LaneTransfer` — a donation and the restore that matches it, with both sides' accepted plans;
  `sends` and `receives` are the chunks each side works out for itself.

## Results

* `execute_closures` — the plans' `execute` are these statements.
* `lanes_inv` — the invariant of a run.
* `lanes_lossless` — whatever the interleaving, no chunk is refused, and each restore writes the
  bytes its donation gathered and nothing else; `lanes_complete` — and every run can be completed.
-/

namespace VKernels.Comm

open ByteCopies Effects FifoLanes
open List
open Prod (fst snd)

/-! ## Stripes -/

section

/-- The chunks follow one another from `lo` to `hi`. -/
def Tiles : List CrossNodeKvStripeChunk → ℕ → ℕ → Prop
  | [], lo, hi => lo = hi
  | c :: cs, lo, hi => c.offset = lo ∧ Tiles cs (lo + c.bytes) hi

lemma Tiles.cover : ∀ {cs : List CrossNodeKvStripeChunk} {lo hi : ℕ}, Tiles cs lo hi →
    ∀ j, lo ≤ j → j < hi → ∃ c ∈ cs, c.offset ≤ j ∧ j < c.offset + c.bytes
  | [], lo, hi, h, j, hlo, hhi => by
    have h : lo = hi := h
    omega
  | c :: cs, lo, hi, ⟨hoff, h⟩, j, hlo, hhi => by
    by_cases hj : j < lo + c.bytes
    · exact ⟨c, mem_cons_self, by omega, by omega⟩
    · obtain ⟨d, hd, hcov⟩ := h.cover j (by omega) hhi
      exact ⟨d, mem_cons_of_mem _ hd, hcov⟩

lemma stripeChunks_tile (base rem : ℕ) : ∀ n l offset : ℕ, Tiles (stripeChunks base rem n l offset) offset
      (offset + n * base + (min (l + n) rem - min l rem))
  | 0, l, offset => by
    show offset = _
    simp
  | n + 1, l, offset => by
    refine ⟨rfl, ?_⟩
    have htail := stripeChunks_tile base rem n (l + 1) (offset + (base + if l < rem then 1 else 0))
    have hend : offset + (base + if l < rem then 1 else 0) + n * base +
        (min (l + 1 + n) rem - min (l + 1) rem) =
        offset + (n + 1) * base + (min (l + (n + 1)) rem - min l rem) := by
      rw [add_one_mul]
      split <;> omega
    rwa [hend] at htail

lemma stripeChunks_lanes (base rem : ℕ) : ∀ n l offset : ℕ,
    ∀ c ∈ stripeChunks base rem n l offset, l ≤ c.lane ∧ c.lane < l + n
  | 0, l, offset, c, hc => absurd hc not_mem_nil
  | n + 1, l, offset, c, hc => by
    rcases mem_cons.mp hc with rfl | hc
    · exact ⟨le_refl l, Nat.lt_add_of_pos_right (Nat.succ_pos n)⟩
    · have := stripeChunks_lanes base rem n (l + 1) _ c hc
      omega

variable {total : ℕ} {config : CrossNodeKvStripeConfig} {cs : List CrossNodeKvStripeChunk}

lemma stripes_tile (h : computeCrossNodeKvStripes total config = .ok cs) : Tiles cs 0 total := by
  obtain ⟨hlanes, h⟩ := expects_ok.mp h
  obtain ⟨_, h⟩ := expects_ok.mp h
  by_cases hzero : total = 0
  · rw [if_pos hzero] at h
    cases h
    exact hzero.symm
  · rw [if_neg hzero] at h
    by_cases hsmall : total < wrap (config.laneCount * config.minChunkBytes)
    · rw [if_pos hsmall] at h
      cases h
      exact ⟨rfl, zero_add _⟩
    · rw [if_neg hsmall] at h
      cases h
      have htile := stripeChunks_tile (total / config.laneCount) (total % config.laneCount)
        config.laneCount 0 0
      have hrem := Nat.mod_lt total hlanes
      have hdiv := Nat.div_add_mod total config.laneCount
      have hend : 0 + config.laneCount * (total / config.laneCount) +
          (min (0 + config.laneCount) (total % config.laneCount) -
            min 0 (total % config.laneCount)) = total := by omega
      rwa [hend] at htile

/-- No chunk names a lane beyond the configured ones. -/
lemma stripes_lanes (h : computeCrossNodeKvStripes total config = .ok cs) : ∀ c ∈ cs, c.lane < config.laneCount := by
  obtain ⟨hlanes, h⟩ := expects_ok.mp h
  obtain ⟨_, h⟩ := expects_ok.mp h
  intro c hc
  by_cases hzero : total = 0
  · rw [if_pos hzero] at h
    cases h
    exact absurd hc not_mem_nil
  · rw [if_neg hzero] at h
    by_cases hsmall : total < wrap (config.laneCount * config.minChunkBytes)
    · rw [if_pos hsmall] at h
      cases h
      rw [mem_singleton.mp hc]
      exact hlanes
    · rw [if_neg hsmall] at h
      cases h
      have := stripeChunks_lanes _ _ _ _ _ c hc
      omega

lemma CrossNodeKvStripedPlan.construct_ok {what : String} {a : CrossNodeArgs}
    {slots : Except String Unit} {self : CrossNodeKvStripedPlan} (h : construct what a slots config = .ok self) :
    self.args = a ∧ self.stripe = config ∧ ((a.numPages = 0 ∧ self.stripes = []) ∨ (a.numPages ≠ 0 ∧ slots = .ok () ∧
        computeCrossNodeKvStripes a.totalBytes config = .ok self.stripes)) := by
  obtain ⟨r, hr, h⟩ := bind_ok.mp h
  rcases CrossNodeArgs.prepare_ok hr with ⟨h0, rfl⟩ | ⟨hpages, rfl, _, _, hslots⟩
  · cases h
    exact ⟨rfl, rfl, .inl ⟨h0, rfl⟩⟩
  · obtain ⟨_, hstripes, h⟩ := bind_ok.mp h
    cases h
    exact ⟨rfl, rfl, .inr ⟨hpages, hslots, hstripes⟩⟩

end

/-! ## One transfer -/

open CrossNodeKvStripedPlan (constructDonate constructRestore construct_ok donate laneOf recvStripes restore)

/-- Both sides pass the same geometry; the slot maps are their own. -/
structure SameGeometry (a b : CrossNodeArgs) : Prop where
  numPages : a.numPages = b.numPages
  pageSize : a.pageSize = b.pageSize
  numKvHeads : a.numKvHeads = b.numKvHeads
  headDim : a.headDim = b.headDim
  elemSize : a.elemSize = b.elemSize

lemma SameGeometry.totalBytes {a b : CrossNodeArgs} (h : SameGeometry a b) : a.totalBytes = b.totalBytes := by
  unfold CrossNodeArgs.totalBytes CrossNodeArgs.pageLayerBytes CrossNodeArgs.tokenStride
  rw [h.numPages, h.pageSize, h.numKvHeads, h.headDim, h.elemSize]

/-- The accepted plans of both sides, and the channels between them. -/
inductive LaneRoute (out back : CrossNodeArgs) where
  | bounce (donor : CrossNodeKvDonatePlan) (restorer : CrossNodeKvRestorePlan)
      (fabric fabric' : Option FabricImport)
      (donor_accepted : CrossNodeKvDonatePlan.construct out .hostBounce fabric = .ok donor)
      (restorer_accepted :
        CrossNodeKvRestorePlan.construct back .hostBounce fabric' = .ok restorer)
      (channel : ℕ)
  | striped (donor restorer : CrossNodeKvStripedPlan) (stripe : CrossNodeKvStripeConfig)
      (donor_accepted : constructDonate out stripe = .ok donor)
      (restorer_accepted : constructRestore back stripe = .ok restorer)
      (lanes : List ℕ) (enough : stripe.laneCount ≤ lanes.length)

structure LaneTransfer where
  out : CrossNodeArgs
  back : CrossNodeArgs
  geometry : SameGeometry out back
  kSrc : ℕ
  vSrc : ℕ
  kDst : ℕ
  vDst : ℕ
  nonnull : kSrc ≠ 0 ∧ vSrc ≠ 0 ∧ kDst ≠ 0 ∧ vDst ≠ 0
  caches_apart : back.CachesApart kDst vDst
  route : LaneRoute out back

/-- A chunk of the packed layer on its way; `exact` when its size is checked to the byte. -/
structure Piece where
  channel : ℕ
  offset : ℕ
  bytes : ℕ
  exact : Bool
  deriving DecidableEq, Repr

namespace Piece

variable (p : Piece)

/-- The message of the chunk, out of the packed image. -/
def message (image : Mem UInt8) : ℕ × List UInt8 := (p.channel, readChunk p.offset p.bytes image)

/-- A received chunk becomes part of the restore's vector, or the whole of it. -/
def take (chunk : List UInt8) (buf : Mem UInt8) : Except Stop (Mem UInt8) :=
  if p.exact then
    if chunk.length = p.bytes then .ok (storeChunk p.offset p.bytes chunk buf)
    else .error (.threw ("striped restore recv: lane chunk size mismatch" ++ ": " ++
      "chunk.size() == c.bytes"))
  else
    if p.bytes ≤ chunk.length then .ok (vectorOf chunk)
    else .error (.threw ("cross-node restore recv: channel chunk smaller than one layer" ++ ": " ++
      "buf.size() >= self->total_bytes_"))

end Piece

def stripedPieces (lanes : List ℕ) (stripes : List CrossNodeKvStripeChunk) : List Piece :=
  stripes.map fun c => ⟨laneOf lanes c, c.offset, c.bytes, true⟩

/-- The one chunk of a host-bounce plan; without pages `execute` returns before it. -/
def bouncePieces (a : CrossNodeArgs) (channel : ℕ) : List Piece :=
  if a.numPages = 0 then [] else [⟨channel, 0, a.totalBytes, false⟩]

namespace LaneTransfer

variable (t : LaneTransfer)

/-- The chunks the donor ships. -/
def sends : List Piece :=
  match t.route with
  | .bounce _ _ _ _ _ _ channel => bouncePieces t.out channel
  | .striped donor _ _ _ _ lanes _ => stripedPieces lanes donor.stripes

def receives : List Piece :=
  match t.route with
  | .bounce _ _ _ _ _ _ channel => bouncePieces t.back channel
  | .striped _ restorer _ _ _ lanes _ => stripedPieces lanes restorer.stripes

/-- The packed image of a donation that gathers in memory `m`. -/
def image (m : Mem UInt8) : Mem UInt8 := kvGatherInto t.out t.kSrc t.vSrc m

def messages (m : Mem UInt8) : List (ℕ × List UInt8) := t.sends.map fun p => p.message (t.image m)

/-- The scatter that ends the restore. -/
def scatter (buf m : Mem UInt8) : Mem UInt8 := kvScatterFrom t.back t.kDst t.vDst buf m

def executeDonate (remote : FabricHandle) (offset : ℕ) (graph : Bool) : Eff (Node UInt8) Unit :=
  match t.route with
  | .bounce donor _ _ _ _ _ channel =>
      donor.execute t.kSrc t.vSrc remote offset false graph (some channel)
  | .striped donor _ _ _ _ lanes _ => donor.executeDonate t.kSrc t.vSrc false graph lanes

def executeRestore (offset : ℕ) (graph : Bool) : Eff (Node UInt8) Unit :=
  match t.route with
  | .bounce _ restorer _ _ _ _ channel =>
      restorer.execute t.kDst t.vDst offset false graph (some channel)
  | .striped _ restorer _ _ _ lanes _ => restorer.executeRestore t.kDst t.vDst false graph lanes

end LaneTransfer

/-! ## The plans, statement by statement -/

section

/-- The messages, one after another. -/
def sendAll (msgs : List (ℕ × List UInt8)) : Eff (World UInt8) Unit :=
  each msgs fun m => send m.1 m.2

def receiveAll : List Piece → Mem UInt8 → Eff (World UInt8) (Mem UInt8)
  | [], buf => pure buf
  | p :: ps, buf => do
      let chunk ← recv p.channel
      match p.take chunk buf with
      | .ok buf' => receiveAll ps buf'
      | .error e => throw e

lemma receiveAll_striped (lanes : List ℕ) : ∀ (stripes : List CrossNodeKvStripeChunk)
    (buf : Mem UInt8) (w : World UInt8), perform (receiveAll (stripedPieces lanes stripes) buf) w =
      perform (recvStripes lanes stripes buf) w
  | [], _, _ => rfl
  | c :: stripes, buf, w => by
    show perform (recv (laneOf lanes c) >>= _) w =
      perform (recv (laneOf lanes c) >>= _) w
    rw [perform_bind, perform_bind]
    rcases perform (recv (laneOf lanes c)) w with ⟨e | chunk, w'⟩
    · rfl
    · simp only [Piece.take]
      rw [perform_bind, perform_require]
      by_cases hlen : chunk.length = c.bytes
      · rw [if_pos hlen, if_pos hlen]
        exact receiveAll_striped lanes stripes _ w'
      · rw [if_neg hlen, if_neg hlen]
        rfl

namespace LaneTransfer

variable (t : LaneTransfer)

/-- The donor's closure: gather, then send. -/
def donateRun : Eff (World UInt8) Unit := byState fun w => sendAll (t.messages w.mem)

/-- The restorer's closure: receive, then scatter. -/
def restoreRun : Eff (World UInt8) Unit := do
  let buf ← receiveAll t.receives fun _ => 0
  deviceOp (t.scatter buf)

variable {n : Node UInt8}

lemma perform_hostStaged {graph : Bool} {run : Eff (World UInt8) Unit}
    (hn : n.graph.inCapture = false) : perform (hostStaged graph false run) n = perform (runNow run) n := by
  unfold hostStaged
  rw [perform_byState, if_neg (by simp [hn])]
  rfl

lemma each_map {ι κ : Type} (f : ι → κ) (body : κ → Eff (World UInt8) Unit) : ∀ (l : List ι) (w : World UInt8),
      perform (each (l.map f) body) w = perform (each l fun i => body (f i)) w
  | [], _ => rfl
  | i :: l, w => by
    exact perform_seq_congr (fun _ => rfl) (each_map f body l) w

/-- **The donor's `execute`** is its closure. -/
theorem perform_executeDonate (remote : FabricHandle) (offset : ℕ) (graph : Bool) (hn : n.graph.inCapture = false) :
    perform (t.executeDonate remote offset graph) n = perform (runNow t.donateRun) n := by
  obtain ⟨hk, hv, _, _⟩ := t.nonnull
  obtain ⟨out, back, hgeometry, kSrc, vSrc, kDst, vDst, hnonnull, hcaches, route⟩ := t
  cases route with
  | bounce donor restorer fabric fabric' hd hr channel =>
    obtain ⟨hargs, htransport, _⟩ := CrossNodeKvDonatePlan.construct_fields hd
    show perform (donor.execute kSrc vSrc remote offset false graph (some channel)) n = _
    unfold CrossNodeKvDonatePlan.execute
    rw [hargs, htransport, perform_require_bind (.inl hk), perform_require_bind (.inl hv)]
    have hcap : ¬ isImportGraphCapturable .hostBounce = true := by decide
    by_cases hpages : out.numPages = 0
    · unfold donateRun messages sends bouncePieces
      simp only [hpages, if_true]
      rfl
    · rw [if_neg hpages, if_neg hcap, perform_hostStaged hn, perform_runNow, perform_runNow]
      have hrun : perform (donor.bounce kSrc vSrc channel) n.world =
          perform (donateRun ⟨out, back, hgeometry, kSrc, vSrc, kDst, vDst, hnonnull, hcaches,
            .bounce donor restorer fabric fabric' hd hr channel⟩) n.world := by
        unfold donateRun messages sends bouncePieces CrossNodeKvDonatePlan.bounce
        rw [perform_byState, perform_byState, hargs]
        simp only [hpages, if_false]
        rfl
      rw [hrun]
  | striped donor restorer stripe hd hr lanes enough =>
    obtain ⟨hargs, hstripe, hstripes⟩ := construct_ok hd
    show perform (donor.executeDonate kSrc vSrc false graph lanes) n = _
    unfold CrossNodeKvStripedPlan.executeDonate
    rw [hargs, hstripe, perform_require_bind (.inl hk), perform_require_bind (.inl hv)]
    by_cases hpages : out.numPages = 0
    · rw [if_pos hpages, perform_runNow]
      unfold donateRun messages sends
      have hnone : donor.stripes = [] := by
        rcases hstripes with ⟨_, h⟩ | ⟨h, _⟩
        · exact h
        · exact absurd hpages h
      simp only [hnone]
      rfl
    · rw [if_neg hpages, perform_require_bind enough, perform_hostStaged hn, perform_runNow,
        perform_runNow]
      have hrun : perform (donor.donate kSrc vSrc lanes) n.world =
          perform (donateRun ⟨out, back, hgeometry, kSrc, vSrc, kDst, vDst, hnonnull, hcaches,
            .striped donor restorer stripe hd hr lanes enough⟩) n.world := by
        unfold donateRun messages sends stripedPieces donate sendAll
        rw [perform_byState, perform_byState, map_map, each_map, hargs]
        rfl
      rw [hrun]

/-- **The restorer's `execute`** is its closure. -/
theorem perform_executeRestore (offset : ℕ) (graph : Bool) (hn : n.graph.inCapture = false) :
    perform (t.executeRestore offset graph) n = perform (runNow t.restoreRun) n := by
  obtain ⟨_, _, hk, hv⟩ := t.nonnull
  obtain ⟨out, back, hgeometry, kSrc, vSrc, kDst, vDst, hnonnull, hcaches, route⟩ := t
  have hscatter : back.numPages = 0 → ∀ buf m, kvScatterFrom back kDst vDst buf m = m := by
    intro hpages _ m
    unfold kvScatterFrom kvScatterCopies
    rw [show (back.direct 0 kDst vDst 0).numPages = 0 from hpages]
    rfl
  cases route with
  | bounce donor restorer fabric fabric' hd hr channel =>
    obtain ⟨hargs, htransport, _⟩ := CrossNodeKvRestorePlan.construct_fields hr
    show perform (restorer.execute kDst vDst offset false graph (some channel)) n = _
    unfold CrossNodeKvRestorePlan.execute
    rw [hargs, htransport, perform_require_bind (.inl hk), perform_require_bind (.inl hv)]
    have hcap : ¬ isImportGraphCapturable .hostBounce = true := by decide
    by_cases hpages : back.numPages = 0
    · unfold restoreRun receives bouncePieces scatter
      simp only [hpages, if_true, hscatter]
      rfl
    · rw [if_neg hpages, if_neg hcap, perform_hostStaged hn, perform_runNow, perform_runNow]
      have hrun : perform (restorer.bounce kDst vDst channel) n.world =
          perform (restoreRun ⟨out, back, hgeometry, kSrc, vSrc, kDst, vDst, hnonnull, hcaches,
            .bounce donor restorer fabric fabric' hd hr channel⟩) n.world := by
        unfold restoreRun receives bouncePieces CrossNodeKvRestorePlan.bounce
        simp only [hpages, if_false, hargs]
        show perform (recv channel >>= _) n.world =
          perform ((recv channel >>= _) >>= _) n.world
        rw [perform_bind, perform_bind, perform_bind]
        rcases perform (recv channel) n.world with ⟨e | chunk, w⟩
        · rfl
        · have htake : Piece.take ⟨channel, 0, back.totalBytes, false⟩ chunk (fun _ => 0) =
              if back.totalBytes ≤ chunk.length then .ok (vectorOf chunk) else .error _ := rfl
          simp only [htake]
          rw [perform_bind, perform_require, hargs]
          by_cases hlen : back.totalBytes ≤ chunk.length
          · rw [if_pos hlen, if_pos hlen]
            rfl
          · rw [if_neg hlen, if_neg hlen]
            rfl
      rw [hrun]
  | striped donor restorer stripe hd hr lanes enough =>
    obtain ⟨hargs, hstripe, hstripes⟩ := construct_ok hr
    show perform (restorer.executeRestore kDst vDst false graph lanes) n = _
    unfold CrossNodeKvStripedPlan.executeRestore
    rw [hargs, hstripe, perform_require_bind (.inl hk), perform_require_bind (.inl hv)]
    by_cases hpages : back.numPages = 0
    · rw [if_pos hpages, perform_runNow]
      have hnone : restorer.stripes = [] := by
        rcases hstripes with ⟨_, h⟩ | ⟨h, _⟩
        · exact h
        · exact absurd hpages h
      unfold restoreRun receives scatter
      simp only [hnone, hscatter hpages]
      rfl
    · rw [if_neg hpages, perform_require_bind enough, perform_hostStaged hn, perform_runNow,
        perform_runNow]
      have hrun : perform (restorer.restore kDst vDst lanes) n.world =
          perform (restoreRun ⟨out, back, hgeometry, kSrc, vSrc, kDst, vDst, hnonnull, hcaches,
            .striped donor restorer stripe hd hr lanes enough⟩) n.world := by
        unfold restoreRun receives restore
        rw [perform_bind, perform_bind, receiveAll_striped, hargs]
        rfl
      rw [hrun]

/-- **Outside a capture both sides' `execute` is their closure**, whichever plans were accepted. -/
theorem execute_closures (hn : n.graph.inCapture = false) (remote : FabricHandle) (offset : ℕ) (graph : Bool) :
    perform (t.executeDonate remote offset graph) n = perform (runNow t.donateRun) n ∧
      perform (t.executeRestore offset graph) n = perform (runNow t.restoreRun) n :=
  ⟨t.perform_executeDonate remote offset graph hn, t.perform_executeRestore offset graph hn⟩

/-- One token over channel 0. -/
def oneChunk : LaneTransfer where
  out := oneToken
  back := oneToken
  geometry := ⟨rfl, rfl, rfl, rfl, rfl⟩
  kSrc := 8
  vSrc := 16
  kDst := 24
  vDst := 32
  nonnull := by decide
  caches_apart := .inl (by decide)
  route := .bounce _ _ none none rfl rfl 0

lemma execute_closures_oneChunk :
    perform (oneChunk.executeDonate ⟨0, 0⟩ 0 true) ⟨⟨fun x => x.toUInt8, fun _ => []⟩, .fresh _, .idle _⟩ =
      perform (runNow oneChunk.donateRun) ⟨⟨fun x => x.toUInt8, fun _ => []⟩, .fresh _, .idle _⟩ :=
  (execute_closures oneChunk rfl ⟨0, 0⟩ 0 true).1

end LaneTransfer

end

/-! ## Two nodes -/

/-- The donating and the restoring node, and the channels from one to the other. -/
structure LaneState where
  donorMem : Mem UInt8
  restorerMem : Mem UInt8
  queues : ℕ → List (List UInt8)
  /-- Donations begun, and what the last of them has still to send. -/
  donated : ℕ
  sending : List (ℕ × List UInt8)
  /-- Restores finished, and the one under way: the chunks to come and its vector. -/
  restored : ℕ
  receiving : Option (List Piece × Mem UInt8)
  /-- History: the donor's memory at each donation, the messages sent and received. -/
  donorMems : List (Mem UInt8)
  sent : List (ℕ × List UInt8)
  received : List (ℕ × List UInt8)

/-- Nothing has begun. -/
def LaneState.start (donorMem restorerMem : Mem UInt8) : LaneState where
  donorMem := donorMem
  restorerMem := restorerMem
  queues := fun _ => []
  donated := 0
  sending := []
  restored := 0
  receiving := none
  donorMems := []
  sent := []
  received := []

/-- What the two nodes do next.  The donations and the restores are each made in order; a
    restore that refuses a chunk has thrown, and goes no further. -/
inductive LaneStep (ts : List LaneTransfer) : LaneState → LaneState → Prop
  | donorWork {s} (f : Mem UInt8 → Mem UInt8) : LaneStep ts s { s with donorMem := f s.donorMem }
  | restorerWork {s} (f : Mem UInt8 → Mem UInt8) :
      LaneStep ts s { s with restorerMem := f s.restorerMem }
  | donate {s t} (idle : s.sending = []) (next : ts[s.donated]? = some t) :
      LaneStep ts s { s with
        donated := s.donated + 1
        sending := t.messages s.donorMem
        donorMems := s.donorMems ++ [s.donorMem] }
  | send {s l chunk rest} (next : s.sending = (l, chunk) :: rest) :
      LaneStep ts s { s with
        queues := Function.update s.queues l (s.queues l ++ [chunk])
        sending := rest
        sent := s.sent ++ [(l, chunk)] }
  | restore {s t} (idle : s.receiving = none) (next : ts[s.restored]? = some t) :
      LaneStep ts s { s with receiving := some (t.receives, fun _ => 0) }
  | recv {s p ps buf chunk rest buf'} (waiting : s.receiving = some (p :: ps, buf))
      (arrived : s.queues p.channel = chunk :: rest) (taken : p.take chunk buf = .ok buf') :
      LaneStep ts s { s with
        queues := Function.update s.queues p.channel rest
        receiving := some (ps, buf')
        received := s.received ++ [(p.channel, chunk)] }
  | scatter {s t buf} (done : s.receiving = some ([], buf)) (which : ts[s.restored]? = some t) :
      LaneStep ts s { s with
        restorerMem := t.scatter buf s.restorerMem
        restored := s.restored + 1
        receiving := none }

def LaneReachable (ts : List LaneTransfer) (s : LaneState) : Prop :=
  ∃ m m', Relation.ReflTransGen (LaneStep ts) (.start m m') s

/-! ## Both sides' chunks -/

namespace LaneTransfer

variable (t : LaneTransfer)

lemma receives_eq_sends : t.receives = t.sends := by
  obtain ⟨out, back, hgeometry, _, _, _, _, hnonnull, hcaches, route⟩ := t
  cases route with
  | bounce donor restorer fabric fabric' hd hr channel =>
    show bouncePieces back channel = bouncePieces out channel
    unfold bouncePieces
    rw [hgeometry.numPages, hgeometry.totalBytes]
  | striped donor restorer stripe hd hr lanes enough =>
    show stripedPieces lanes restorer.stripes = stripedPieces lanes donor.stripes
    have hpages := hgeometry.numPages
    obtain ⟨_, _, hdonor⟩ := construct_ok hd
    obtain ⟨_, _, hrestorer⟩ := construct_ok hr
    rcases hdonor with ⟨h0, hnone⟩ | ⟨h0, _, hstripes⟩
    · rcases hrestorer with ⟨_, hnone'⟩ | ⟨h0', _⟩
      · rw [hnone, hnone']
      · exact absurd (hpages ▸ h0) h0'
    · rcases hrestorer with ⟨h0', _⟩ | ⟨_, _, hstripes'⟩
      · exact absurd (hpages.trans h0') h0
      · rw [← hgeometry.totalBytes, hstripes] at hstripes'
        rw [Except.ok.inj hstripes']

lemma receives_cover : ∀ j < t.back.totalBytes, ∃ p ∈ t.receives, p.offset ≤ j ∧ j < p.offset + p.bytes := by
  obtain ⟨_, back, hgeometry, _, _, _, _, hnonnull, hcaches, route⟩ := t
  intro j hj
  have hpages : back.numPages ≠ 0 := by
    rintro h0
    unfold CrossNodeArgs.totalBytes at hj
    rw [h0, Nat.zero_mul] at hj
    omega
  cases route with
  | bounce donor restorer fabric fabric' hd hr channel =>
    show ∃ p ∈ bouncePieces back channel, _
    unfold bouncePieces
    rw [if_neg hpages]
    exact ⟨_, mem_singleton_self _, Nat.zero_le _, by simpa using hj⟩
  | striped donor restorer stripe hd hr lanes enough =>
    obtain ⟨_, _, hrestorer⟩ := construct_ok hr
    rcases hrestorer with ⟨h0, _⟩ | ⟨_, _, hstripes⟩
    · exact absurd h0 hpages
    · obtain ⟨c, hc, hcov⟩ := (stripes_tile hstripes).cover j (Nat.zero_le _) hj
      exact ⟨_, mem_map_of_mem hc, hcov⟩

lemma receives_whole {done ps : List Piece} {p : Piece} (h : t.receives = done ++ p :: ps)
    (hp : p.exact = false) : done = [] ∧ p.offset = 0 := by
  obtain ⟨_, back, hgeometry, _, _, _, _, hnonnull, hcaches, route⟩ := t
  cases route with
  | bounce donor restorer fabric fabric' hd hr channel =>
    change bouncePieces back channel = done ++ p :: ps at h
    unfold bouncePieces at h
    cases done with
    | nil =>
      split at h
      · cases h
      · cases h
        exact ⟨rfl, rfl⟩
    | cons q done =>
      have hlen := congrArg length h
      split at hlen <;> simp at hlen
  | striped donor restorer stripe hd hr lanes enough =>
    change stripedPieces lanes restorer.stripes = done ++ p :: ps at h
    have hmem : p ∈ stripedPieces lanes restorer.stripes := by simp [h]
    obtain ⟨c, _, rfl⟩ := mem_map.mp hmem
    cases hp

lemma back_slots : t.back.SlotsInRange ∧ t.back.UniqueSlots := by
  obtain ⟨_, back, hgeometry, _, _, _, _, hnonnull, hcaches, route⟩ := t
  have hempty : back.numPages = 0 → back.SlotsInRange ∧ back.UniqueSlots := by
    intro h0
    have htokens : back.tokens = 0 := by
      unfold CrossNodeArgs.tokens
      rw [h0, Nat.zero_mul]
    constructor
    · intro i hi
      omega
    · intro i hi
      omega
  cases route with
  | bounce donor restorer fabric fabric' hd hr channel =>
    obtain ⟨r, hr, _⟩ := bind_ok.mp hr
    rcases CrossNodeArgs.prepare_ok hr with ⟨h0, _⟩ | ⟨_, _, _, _, hslots⟩
    · exact hempty h0
    · exact CrossNodeArgs.validateUniqueSlots_passed hslots
  | striped donor restorer stripe hd hr lanes enough =>
    obtain ⟨_, _, hrestorer⟩ := construct_ok hr
    rcases hrestorer with ⟨h0, _⟩ | ⟨_, hslots, _⟩
    · exact hempty h0
    · exact CrossNodeArgs.validateUniqueSlots_passed hslots

end LaneTransfer

/-! ## What the donor sends -/

section

/-- The channels of a run's messages, in order. -/
def laneOrder (ts : List LaneTransfer) : List ℕ :=
  ts.flatMap fun t => t.receives.map Piece.channel

/-- The messages of the donations begun. -/
def sentBy : List LaneTransfer → List (Mem UInt8) → List (ℕ × List UInt8)
  | t :: ts, m :: ms => t.messages m ++ sentBy ts ms
  | _, _ => []

lemma messages_lanes (t : LaneTransfer) (m : Mem UInt8) :
    (t.messages m).map fst = t.receives.map Piece.channel := by
  rw [t.receives_eq_sends]
  unfold LaneTransfer.messages
  rw [map_map]
  rfl

lemma sentBy_lanes : ∀ (ts : List LaneTransfer) (ms : List (Mem UInt8)), (sentBy ts ms).map fst <+: laneOrder ts
  | [], _ => nil_prefix
  | _ :: _, [] => nil_prefix
  | t :: ts, m :: ms => by
    show (t.messages m ++ sentBy ts ms).map fst <+:
      t.receives.map Piece.channel ++ laneOrder ts
    rw [map_append, messages_lanes]
    exact (prefix_append_right_inj _).mpr (sentBy_lanes ts ms)

lemma sentBy_snoc (m : Mem UInt8) : ∀ {ts : List LaneTransfer} {ms : List (Mem UInt8)}
    {t : LaneTransfer}, ts[ms.length]? = some t → sentBy ts (ms ++ [m]) = sentBy ts ms ++ t.messages m
  | [], _, _, h => by simp at h
  | t :: ts, [], u, h => by
    cases h
    cases ts <;> simp [sentBy]
  | t :: ts, n :: ms, u, h => by
    have hts : ts[ms.length]? = some u := h
    show t.messages n ++ sentBy ts (ms ++ [m]) = (t.messages n ++ sentBy ts ms) ++ u.messages m
    rw [sentBy_snoc m hts, append_assoc]

/-- The chunks of the first `n` transfers. -/
def piecesBefore (ts : List LaneTransfer) (n : ℕ) : List Piece :=
  (ts.take n).flatMap LaneTransfer.receives

variable {ts : List LaneTransfer}

lemma piecesBefore_succ {n : ℕ} {t : LaneTransfer}
    (h : ts[n]? = some t) : piecesBefore ts (n + 1) = piecesBefore ts n ++ t.receives := by
  unfold piecesBefore
  rw [take_add_one, h, flatMap_append]
  simp

lemma sentBy_get {i : ℕ} {p : Piece} {msg : ℕ × List UInt8} : ∀ {n : ℕ} {ts : List LaneTransfer}
    {ms : List (Mem UInt8)} {t : LaneTransfer}, ts[n]? = some t → t.receives[i]? = some p →
      (sentBy ts ms)[(piecesBefore ts n).length + i]? = some msg → ∃ m, ms[n]? = some m ∧ msg = p.message (t.image m)
  | _, [], _, _, ht, _, _ => by simp at ht
  | _, _ :: _, [], _, _, _, hmsg => by simp [sentBy] at hmsg
  | 0, t :: ts, m :: ms, u, ht, hp, hmsg => by
    cases ht
    refine ⟨m, rfl, ?_⟩
    have hi : i < (t.messages m).length := by
      unfold LaneTransfer.messages
      rw [length_map, ← t.receives_eq_sends]
      exact (List.getElem?_eq_some_iff.mp hp).1
    change (t.messages m ++ sentBy ts ms)[0 + i]? = some msg at hmsg
    rw [Nat.zero_add, getElem?_append_left hi] at hmsg
    unfold LaneTransfer.messages at hmsg
    rw [getElem?_map, ← t.receives_eq_sends, hp] at hmsg
    exact (Option.some.inj hmsg).symm
  | n + 1, t :: ts, m :: ms, u, ht, hp, hmsg => by
    have hlen : (t.messages m).length = t.receives.length := by
      unfold LaneTransfer.messages
      rw [length_map, t.receives_eq_sends]
    have hbefore : (piecesBefore (t :: ts) (n + 1)).length + i =
        (t.messages m).length + ((piecesBefore ts n).length + i) := by
      rw [hlen]
      show (t.receives ++ piecesBefore ts n).length + i = _
      rw [length_append, Nat.add_assoc]
    change (t.messages m ++ sentBy ts ms)[_]? = some msg at hmsg
    rw [hbefore, getElem?_append_right (Nat.le_add_right _ _), Nat.add_sub_cancel_left] at hmsg
    obtain ⟨m', hm', hmsg⟩ := sentBy_get (n := n) ht hp hmsg
    exact ⟨m', hm', hmsg⟩

lemma piecesBefore_order {n : ℕ} {t : LaneTransfer} (h : ts[n]? = some t) :
    (piecesBefore ts n).map Piece.channel ++ t.receives.map Piece.channel <+: laneOrder ts := by
  rw [← map_append, ← piecesBefore_succ h]
  unfold piecesBefore laneOrder
  rw [map_flatMap]
  obtain ⟨rest, hrest⟩ := take_prefix (n + 1) ts
  refine ⟨rest.flatMap fun t => t.receives.map Piece.channel, ?_⟩
  rw [← flatMap_append, hrest]

end

/-! ## The invariant -/

section

variable {ts : List LaneTransfer} {s s' : LaneState}

/-- The vector of a restore holds the matching image in the chunks taken. -/
def Filled (t : LaneTransfer) (mem : Option (Mem UInt8)) (taken : List Piece) (buf : Mem UInt8) : Prop :=
  ∀ p ∈ taken, ∀ j, p.offset ≤ j → j < p.offset + p.bytes →
    ∃ m, mem = some m ∧ buf j = t.image m j

/-- Where the restorer is: between restores, or in one with some chunks taken. -/
def RestorerAt (ts : List LaneTransfer) (s : LaneState) : Prop :=
  match s.receiving with
  | none => s.received.map fst = (piecesBefore ts s.restored).map Piece.channel
  | some (ps, buf) => ∃ t taken, ts[s.restored]? = some t ∧ t.receives = taken ++ ps ∧
      s.received.map fst = (piecesBefore ts s.restored ++ taken).map Piece.channel ∧
      Filled t s.donorMems[s.restored]? taken buf

structure LaneInv (ts : List LaneTransfer) (s : LaneState) : Prop where
  donations : s.donorMems.length = s.donated
  messages : s.sent ++ s.sending = sentBy ts s.donorMems
  channels : Consistent s.queues s.sent s.received
  restorer : RestorerAt ts s

lemma laneInv_start (m m' : Mem UInt8) : LaneInv ts (.start m m') where
  donations := rfl
  messages := by cases ts <;> rfl
  channels := Consistent.empty
  restorer := rfl

lemma LaneInv.sent_order (h : LaneInv ts s) : s.sent.map fst <+: laneOrder ts := by
  have hsent : s.sent <+: sentBy ts s.donorMems := ⟨s.sending, h.messages⟩
  exact (hsent.map fst).trans (sentBy_lanes ts s.donorMems)

variable {p : Piece}

/-- **The next chunk** a restore waits for, once it arrives, is the chunk of its donation. -/
theorem LaneInv.next_chunk (h : LaneInv ts s) {t : LaneTransfer} {taken ps : List Piece}
    (ht : ts[s.restored]? = some t) (hpieces : t.receives = taken ++ p :: ps) (hreceived : s.received.map fst =
      (piecesBefore ts s.restored ++ taken).map Piece.channel) {chunk : List UInt8}
    {rest : List (List UInt8)} (harrived : s.queues p.channel = chunk :: rest) :
    ∃ m, s.donorMems[s.restored]? = some m ∧ chunk = readChunk p.offset p.bytes (t.image m) := by
  have horder : s.received.map fst ++ [p.channel] <+: laneOrder ts := by
    refine List.IsPrefix.trans ?_ (piecesBefore_order ht)
    rw [hreceived, hpieces]
    exact ⟨ps.map Piece.channel, by simp⟩
  have hnext := (h.channels.receive_next h.sent_order horder harrived).trans
    (⟨s.sending, h.messages⟩ : s.sent <+: sentBy ts s.donorMems)
  have hlen : s.received.length = (piecesBefore ts s.restored).length + taken.length := by
    have := congrArg length hreceived
    simpa using this
  have hmsg : (sentBy ts s.donorMems)[(piecesBefore ts s.restored).length + taken.length]? =
      some (p.channel, chunk) := by
    obtain ⟨_, hlater⟩ := hnext
    rw [← hlater, ← hlen, append_assoc, getElem?_append_right le_rfl, Nat.sub_self]
    rfl
  have hp : t.receives[taken.length]? = some p := by
    rw [hpieces, getElem?_append_right le_rfl, Nat.sub_self]
    rfl
  obtain ⟨m, hm, hmessage⟩ := sentBy_get ht hp hmsg
  exact ⟨m, hm, congrArg snd hmessage⟩

lemma take_image (image buf : Mem UInt8) : ∃ buf', p.take (readChunk p.offset p.bytes image) buf = .ok buf' ∧
      (p.exact = false → p.offset = 0 → ∀ j < p.bytes, buf' j = image j) ∧ (p.exact = true → ∀ j, buf' j =
        if p.offset ≤ j ∧ j < p.offset + p.bytes then image j else buf j) := by
  have hlen : (readChunk p.offset p.bytes image).length = p.bytes := by simp [readChunk]
  have hget : ∀ i < p.bytes, ∀ d, (readChunk p.offset p.bytes image).getD i d =
      image (p.offset + i) := by
    intro i hi d
    unfold readChunk
    rw [getD_eq_getElem?_getD, getElem?_map, getElem?_range hi]
    rfl
  unfold Piece.take
  by_cases hexact : p.exact = true
  · rw [if_pos hexact, if_pos hlen]
    refine ⟨_, rfl, fun h => ?_, fun _ j => ?_⟩
    · rw [hexact] at h
      cases h
    · unfold storeChunk
      by_cases hj : p.offset ≤ j ∧ j < p.offset + p.bytes
      · rw [if_pos hj, if_pos hj, hget _ (by omega), Nat.add_sub_cancel' hj.1]
      · rw [if_neg hj, if_neg hj]
  · rw [if_neg hexact, if_pos hlen.ge]
    refine ⟨_, rfl, fun _ hoff j hj => ?_, fun h => absurd h hexact⟩
    unfold vectorOf
    rw [hget j hj, hoff, zero_add]

lemma Filled.take {t : LaneTransfer} {taken ps : List Piece} {buf buf' : Mem UInt8}
    {m : Mem UInt8} (hfilled : Filled t (some m) taken buf) (hpieces : t.receives = taken ++ p :: ps)
    (htake : p.take (readChunk p.offset p.bytes (t.image m)) buf = .ok buf') :
    Filled t (some m) (taken ++ [p]) buf' := by
  obtain ⟨_, htake', hwhole, hpart⟩ := take_image (p := p) _ buf
  rw [htake] at htake'
  cases htake'
  intro q hq j hlo hhi
  refine ⟨m, rfl, ?_⟩
  rcases mem_append.mp hq with hq | hq
  · by_cases hexact : p.exact = true
    · obtain ⟨_, hm, hbuf⟩ := hfilled q hq j hlo hhi
      cases hm
      rw [hpart hexact]
      split
      · rfl
      · exact hbuf
    · have hnone := (t.receives_whole hpieces (by simpa using hexact)).1
      rw [hnone] at hq
      exact absurd hq not_mem_nil
  · cases mem_singleton.mp hq
    by_cases hexact : p.exact = true
    · rw [hpart hexact, if_pos ⟨hlo, hhi⟩]
    · have hexact : p.exact = false := by simpa using hexact
      have hoff := (t.receives_whole hpieces hexact).2
      exact hwhole hexact hoff j (by omega)

lemma LaneInv.step (h : LaneInv ts s) (hstep : LaneStep ts s s') : LaneInv ts s' := by
  cases hstep with
  | donorWork f => exact ⟨h.donations, h.messages, h.channels, h.restorer⟩
  | restorerWork f => exact ⟨h.donations, h.messages, h.channels, h.restorer⟩
  | @donate t hidle hnext =>
    refine ⟨?_, ?_, h.channels, ?_⟩
    · rw [length_append, h.donations]
      rfl
    · have hmessages := h.messages
      rw [hidle, append_nil] at hmessages
      rw [sentBy_snoc s.donorMem (by rw [h.donations]; exact hnext), ← hmessages]
    · -- a restore under way is of a donation that was begun
      have hat := h.restorer
      unfold RestorerAt at hat ⊢
      rcases hrecv : s.receiving with _ | ⟨ps, buf⟩
      · simpa [hrecv] using hat
      · simp only [hrecv] at hat ⊢
        obtain ⟨u, taken, hu, hpieces, hreceived, hfilled⟩ := hat
        refine ⟨u, taken, hu, hpieces, hreceived, fun p hp j hlo hhi => ?_⟩
        obtain ⟨m, hm, hbuf⟩ := hfilled p hp j hlo hhi
        refine ⟨m, ?_, hbuf⟩
        have hlt := (List.getElem?_eq_some_iff.mp hm).1
        rw [getElem?_append_left hlt]
        exact hm
  | @send l chunk rest hnext =>
    refine ⟨h.donations, ?_, h.channels.send l chunk, h.restorer⟩
    rw [append_assoc, singleton_append, ← hnext]
    exact h.messages
  | @restore t hidle hnext =>
    refine ⟨h.donations, h.messages, h.channels, ?_⟩
    have hat := h.restorer
    unfold RestorerAt at hat
    rw [hidle] at hat
    refine ⟨t, [], hnext, rfl, by simpa using hat, fun p hp => absurd hp not_mem_nil⟩
  | @recv p ps buf chunk rest buf' hwaiting harrived htaken =>
    refine ⟨h.donations, h.messages, h.channels.receive harrived, ?_⟩
    have hat := h.restorer
    unfold RestorerAt at hat
    rw [hwaiting] at hat
    obtain ⟨t, taken, ht, hpieces, hreceived, hfilled⟩ := hat
    obtain ⟨m, hm, rfl⟩ := h.next_chunk ht hpieces hreceived harrived
    refine ⟨t, taken ++ [p], ht, by simp [hpieces], ?_, ?_⟩
    · rw [map_append, hreceived]
      simp
    · rw [hm] at hfilled ⊢
      exact hfilled.take hpieces htaken
  | @scatter t buf hdone hwhich =>
    refine ⟨h.donations, h.messages, h.channels, ?_⟩
    have hat := h.restorer
    unfold RestorerAt at hat
    rw [hdone] at hat
    obtain ⟨u, _, hu, hpieces, hreceived, _⟩ := hat
    rw [hwhich] at hu
    cases hu
    rw [append_nil] at hpieces
    show s.received.map fst = (piecesBefore ts (s.restored + 1)).map Piece.channel
    rw [piecesBefore_succ hwhich, hpieces]
    exact hreceived

/-- **A whole run** keeps it. -/
theorem lanes_inv (h : LaneReachable ts s) : LaneInv ts s := by
  obtain ⟨m, m', hrun⟩ := h
  induction hrun with
  | refl => exact laneInv_start m m'
  | tail _ hstep ih => exact ih.step hstep

end

/-! ## What a run leaves -/

/-- A restore's memory before and after: the addressed slots hold what the donor's slots held in
    `donorMem`, when the donation read them, and nothing else changed. -/
def Restored (out back : CrossNodeArgs) (kSrc vSrc kDst vDst : ℕ) (donorMem : Option (Mem UInt8))
    (before after : Mem UInt8) : Prop :=
  (∀ j < back.totalBytes, ∃ m, donorMem = some m ∧
    after (back.packedSource kDst vDst j) = m (out.packedSource kSrc vSrc j)) ∧
  ∀ x, ¬ back.InSlots kDst vDst x → after x = before x

/-- In every state of every run: a chunk that arrives is accepted, and the restore that is complete
    is the restore of its donation. -/
def LanesLossless (ts : List LaneTransfer) : Prop :=
  ∀ s, LaneReachable ts s →
    (∀ p ps buf chunk rest, s.receiving = some (p :: ps, buf) →
      s.queues p.channel = chunk :: rest → ∃ buf', p.take chunk buf = .ok buf') ∧
    ∀ t buf, s.receiving = some ([], buf) → ts[s.restored]? = some t →
      Restored t.out t.back t.kSrc t.vSrc t.kDst t.vDst s.donorMems[s.restored]? s.restorerMem
        (t.scatter buf s.restorerMem)

lemma lanes_lossless (ts : List LaneTransfer) : LanesLossless ts := by
  intro s hs
  have hinv := lanes_inv hs
  have hat := hinv.restorer
  unfold RestorerAt at hat
  constructor
  · intro p _ buf _ _ hwaiting harrived
    rw [hwaiting] at hat
    obtain ⟨t, taken, ht, hpieces, hreceived, _⟩ := hat
    obtain ⟨m, _, rfl⟩ := hinv.next_chunk ht hpieces hreceived harrived
    obtain ⟨buf', htake, _⟩ := take_image (p := p) _ buf
    exact ⟨buf', htake⟩
  · intro t buf hdone hwhich
    rw [hdone] at hat
    obtain ⟨u, _, hu, hpieces, _, hfilled⟩ := hat
    rw [hwhich] at hu
    cases hu
    rw [append_nil] at hpieces
    obtain ⟨hrange, huniq⟩ := t.back_slots
    constructor
    · intro j hj
      obtain ⟨p, hp, hlo, hhi⟩ := t.receives_cover j hj
      obtain ⟨m, hm, hbuf⟩ := hfilled p (hpieces ▸ hp) j hlo hhi
      refine ⟨m, hm, ?_⟩
      unfold LaneTransfer.scatter
      rw [kvScatterFrom_value hrange huniq t.caches_apart buf s.restorerMem hj, hbuf]
      exact kvGatherInto_value m (t.geometry.totalBytes ▸ hj)
    · intro x hx
      exact kvScatterFrom_frame buf s.restorerMem hx

lemma sentBy_all : ∀ {ts : List LaneTransfer} {ms : List (Mem UInt8)}, ts.length ≤ ms.length →
    (sentBy ts ms).map fst = laneOrder ts
  | [], _, _ => rfl
  | t :: ts, [], h => by simp at h
  | t :: ts, m :: ms, h => by
    show (t.messages m ++ sentBy ts ms).map fst =
      t.receives.map Piece.channel ++ laneOrder ts
    rw [map_append, messages_lanes, sentBy_all (by simpa using h)]

/-- What is left of the donations and restores, then of those under way. -/
def lanesLeft (ts : List LaneTransfer) (s : LaneState) : ℕ ×ₗ ℕ :=
  toLex (ts.length - s.donated + (ts.length - s.restored), s.sending.length + match s.receiving with
    | none => (ts[s.restored]?.map (·.receives.length)).getD 0 + 1
    | some (pieces, _) => pieces.length)

/-- While a restore is outstanding, the next statement of the donor or of the restorer can be made. -/
lemma lanes_progress {ts : List LaneTransfer} {s : LaneState} (hs : LaneReachable ts s)
    (hleft : s.restored < ts.length) : ∃ s', LaneStep ts s s' ∧ lanesLeft ts s' < lanesLeft ts s := by
  have hinv := lanes_inv hs
  have hcurrent : ts[s.restored]? = some ts[s.restored] := getElem?_eq_getElem hleft
  rcases hreceiving : s.receiving with _ | ⟨_ | ⟨p, ps⟩, buf⟩
  · refine ⟨_, .restore hreceiving hcurrent, Prod.Lex.toLex_lt_toLex.mpr (.inr ⟨rfl, ?_⟩)⟩
    simp [hreceiving, hleft]
  · refine ⟨_, .scatter hreceiving hcurrent, Prod.Lex.toLex_lt_toLex.mpr (.inl ?_)⟩
    show ts.length - s.donated + (ts.length - (s.restored + 1)) < ts.length - s.donated + (ts.length - s.restored)
    omega
  · rcases harrived : s.queues p.channel with _ | ⟨chunk, rest⟩
    · -- nothing has arrived: the donor has something to do
      rcases hsending : s.sending with _ | ⟨⟨l, chunk⟩, rest⟩
      · by_cases hdonated : s.donated < ts.length
        · refine ⟨_, .donate hsending (getElem?_eq_getElem hdonated), Prod.Lex.toLex_lt_toLex.mpr (.inl ?_)⟩
          show ts.length - (s.donated + 1) + (ts.length - s.restored) < ts.length - s.donated + (ts.length - s.restored)
          omega
        · have hat := hinv.restorer
          unfold RestorerAt at hat
          rw [hreceiving] at hat
          obtain ⟨t, _, ht, hpieces, hreceived, _⟩ := hat
          have hall : s.sent.map fst = laneOrder ts := by
            have hmessages := hinv.messages
            rw [hsending, append_nil] at hmessages
            rw [hmessages]
            exact sentBy_all (by rw [hinv.donations]; omega)
          have horder : s.received.map fst ++ [p.channel] <+: laneOrder ts := by
            refine List.IsPrefix.trans ?_ (piecesBefore_order ht)
            rw [hreceived, hpieces]
            exact ⟨ps.map Piece.channel, by simp⟩
          obtain ⟨more, hmore⟩ := hinv.channels.received_in_order hinv.sent_order
            ((prefix_append _ _).trans horder)
          rw [← hall, ← hmore, map_append, prefix_append_right_inj] at horder
          obtain ⟨_, hlater⟩ := horder
          cases more with
          | nil => simp at hlater
          | cons msg more =>
            obtain ⟨l, v⟩ := msg
            have hl : l = p.channel := by simpa using (cons.inj hlater).1.symm
            subst hl
            obtain ⟨rest, hrest⟩ := hinv.channels.ready (v := v) (l := p.channel)
              ⟨more, by rw [← hmore, append_assoc]; rfl⟩
            rw [harrived] at hrest
            cases hrest
      · refine ⟨_, .send hsending, Prod.Lex.toLex_lt_toLex.mpr (.inr ⟨rfl, ?_⟩)⟩
        simp [hsending]
    · obtain ⟨_, htake⟩ := (lanes_lossless ts s hs).1 p ps buf chunk rest hreceiving harrived
      refine ⟨_, .recv hreceiving harrived htake, Prod.Lex.toLex_lt_toLex.mpr (.inr ⟨rfl, ?_⟩)⟩
      simp [hreceiving]

lemma restored_le {ts : List LaneTransfer} {s : LaneState} (hs : LaneReachable ts s) : s.restored ≤ ts.length := by
  obtain ⟨m, m', hs⟩ := hs
  induction hs with
  | refl => exact Nat.zero_le _
  | tail _ hstep ih =>
    cases hstep with
    | scatter _ which => exact (List.getElem?_eq_some_iff.mp which).1
    | _ => exact ih

/-- Every run can be continued until all restores are complete. -/
def LanesComplete (ts : List LaneTransfer) : Prop :=
  ∀ s, LaneReachable ts s → ∃ s', Relation.ReflTransGen (LaneStep ts) s s' ∧ s'.restored = ts.length

/-- **No run gets stuck**, whatever both sides have done so far. -/
theorem lanes_complete (ts : List LaneTransfer) : LanesComplete ts := by
  intro s
  induction hleft : lanesLeft ts s using WellFoundedLT.induction generalizing s with
  | ind left ih =>
    intro hs
    rcases (restored_le hs).lt_or_eq with hlt | heq
    · obtain ⟨s₁, hstep, hless⟩ := lanes_progress hs hlt
      obtain ⟨m, m', hrun⟩ := hs
      obtain ⟨s', hrest, hall⟩ := ih _ (hleft ▸ hless) s₁ rfl ⟨m, m', hrun.tail hstep⟩
      exact ⟨s', .head hstep hrest, hall⟩
    · exact ⟨s, .refl, heq⟩

end VKernels.Comm
