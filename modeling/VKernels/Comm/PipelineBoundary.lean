import VKernels.Lib.Effects
import VKernels.Lib.ByteCopies

/-!
# Graph capture and pipeline boundaries

Model of the host reference `comm/pipeline_boundary.cpp` over the channels of `comm/channel.hpp`.

* `GraphCapture` — recording, segments and `replay`.  `eagerBreak` is the way every host-staged
  path runs its transfer while the graph captures.
* `PipelineBoundaryPlan` — `classifyBoundary`, the constructor and `execute`.
* `Item` — a device operation or a boundary of a program; `record` and `eager` run a program into
  a graph and outside one.

## Results

* `record_effect` — recording runs the host-staged transfers and defers everything else.
* `capture_replay` — what a recording and any number of replays do, when that is what the program
  does eagerly, and that replays exchange no message.
* `deferred_send` — a device operation before a host-staged send: the recording sends the old
  bytes.
-/

namespace VKernels.Comm

open ByteCopies Effects
open List

/-! ## Memory and channels -/

/-- `queues c` are the messages of channel `c`, oldest first, with those that arrive while a call
    waits on the channel. -/
structure World (β : Type) where
  mem : Mem β
  queues : ℕ → List (List β)

section

variable {β : Type}

/-- `Channel::send`. -/
def send (channel : ℕ) (chunk : List β) : Eff (World β) Unit := change fun w =>
  { w with queues := Function.update w.queues channel (w.queues channel ++ [chunk]) }

lemma perform_send (channel : ℕ) (chunk : List β) (w : World β) :
    perform (send channel chunk) w = (.ok (), { w with
      queues := Function.update w.queues channel (w.queues channel ++ [chunk]) }) := rfl

/-- `Channel::recv` waits for a message. -/
def recv (channel : ℕ) : Eff (World β) (List β) := byState fun w =>
  match w.queues channel with
  | [] => throw .blocked
  | chunk :: rest => do
      change fun w => { w with queues := Function.update w.queues channel rest }
      return chunk

/-- `std::vector<T>(p, p + n)`. -/
def readChunk (p n : ℕ) (m : Mem β) : List β := (range n).map fun i => m (p + i)

/-- `memcpy(p, chunk.data(), n * sizeof(T))`. -/
def storeChunk (p n : ℕ) (chunk : List β) (m : Mem β) : Mem β := fun x =>
  if p ≤ x ∧ x < p + n then chunk.getD (x - p) (m x) else m x

/-- A device operation: it works on memory and on nothing else. -/
def deviceOp (f : Mem β → Mem β) : Eff (World β) Unit := change fun w => { w with mem := f w.mem }

/-! ## The graph -/

structure GraphCapture (β : Type) where
  inCapture : Bool
  segments : ℕ
  replays : ℕ
  ops : List (Eff (World β) Unit)

def GraphCapture.fresh (β : Type) : GraphCapture β := ⟨false, 0, 0, []⟩

/-- A stream's queue and the first exception since the last wait. -/
structure TaskStream (β : Type) where
  tasks : List (Eff (World β) Unit)
  failure : Option Stop

def TaskStream.idle (β : Type) : TaskStream β := ⟨[], none⟩

/-- One rank: its memory and channels, the graph and the stream it was given. -/
structure Node (β : Type) where
  world : World β
  graph : GraphCapture β
  stream : TaskStream β

/-- What the calling thread does at once. -/
def runNow (op : Eff (World β) Unit) : Eff (Node β) Unit := zoom Node.world (fun w n => { n with world := w }) op

def onGraph (f : GraphCapture β → GraphCapture β) : Eff (Node β) Unit := change fun n =>
  { n with graph := f n.graph }

namespace GraphCapture

/-- `GraphCapture::begin`. -/
def captureBegin : Eff (Node β) Unit := byState fun n =>
  if n.graph.inCapture then throw (.threw "GraphCapture::begin: already capturing")
  else onGraph fun g => { g with inCapture := true }

/-- `GraphCapture::end`. -/
def captureEnd : Eff (Node β) Unit := byState fun n =>
  if n.graph.inCapture then onGraph fun g => { g with inCapture := false, segments := g.segments + 1 }
  else throw (.threw "GraphCapture::end: not capturing")

/-- `GraphCapture::submit`: recorded while capturing, run now otherwise. -/
def submit (op : Eff (World β) Unit) : Eff (Node β) Unit := byState fun n =>
  if n.graph.inCapture then onGraph fun g => { g with ops := g.ops ++ [op] }
  else runNow op

def replay : Eff (Node β) Unit := byState fun n =>
  if n.graph.inCapture then throw (.threw "GraphCapture::replay: still capturing")
  else do
    each n.graph.ops runNow
    onGraph fun g => { g with replays := g.replays + 1 }

end GraphCapture

open GraphCapture (captureBegin captureEnd fresh replay)

/-- The eager break of the host-staged paths: while the graph captures, the segment is ended, the
    transfer run, and the next segment begun.  `graph` says that a graph was given. -/
def eagerBreak (graph : Bool) (run : Eff (World β) Unit) : Eff (Node β) Unit := byState fun n =>
  if graph = true ∧ n.graph.inCapture = true then do
    captureEnd
    runNow run
    captureBegin
  else runNow run

/-! ## The plan -/

inductive PipelineTransport where
  | sameNodePeer
  | crossNodeNccl
  | hostStaged
  deriving DecidableEq, Repr

structure PipelineBoundaryConfig where
  sameNode : Bool
  ncclGraphSupported : Bool
  glooFallback : Bool

/-- Gloo takes precedence over NCCL. -/
def classifyBoundary (cfg : PipelineBoundaryConfig) : PipelineTransport :=
  if cfg.sameNode then .sameNodePeer
  else if cfg.glooFallback then .hostStaged
  else if cfg.ncclGraphSupported then .crossNodeNccl
  else .hostStaged

def PipelineTransport.isGraphCapturable (t : PipelineTransport) : Bool :=
  t = .sameNodePeer ∨ t = .crossNodeNccl

def eagerBreakDuringCapture (cfg : PipelineBoundaryConfig) : Bool :=
  !(classifyBoundary cfg).isGraphCapturable

inductive BoundaryDirection where
  | send
  | recv
  deriving DecidableEq, Repr

structure PipelineBoundaryPlan where
  world : ℤ
  rank : ℤ
  payloadElems : ℕ
  transport : PipelineTransport
  dir : BoundaryDirection
  peerBuf : ℕ
  deriving DecidableEq, Repr

namespace PipelineBoundaryPlan

/-- The constructor; the enumerations hold only known values. -/
def construct (world rank : ℤ) (payloadElems : ℕ) (transport : PipelineTransport)
    (dir : BoundaryDirection) (peerBuf : ℕ) : Except Stop PipelineBoundaryPlan := do
  let expects (cond : Bool) (msg text : String) : Except Stop Unit :=
    if cond then .ok () else .error (.threw (msg ++ ": " ++ text))
  expects (0 < world) "world must be positive" "world > 0"
  expects (0 ≤ rank ∧ rank < world) "rank out of range" "rank >= 0 && rank < world"
  expects (0 < payloadElems) "payload_elems must be positive" "payload_elems > 0"
  if transport.isGraphCapturable then
    expects (peerBuf ≠ 0) "device-path boundary needs a peer buffer" "peer_buf != nullptr"
  return ⟨world, rank, payloadElems, transport, dir, peerBuf⟩

variable {β : Type} (self : PipelineBoundaryPlan)

def isGraphCapturable : Bool := self.transport.isGraphCapturable

def isSend : Bool := self.dir = .send

/-- The one device copy of a graph-capturable boundary. -/
def copy (myBuf : ℕ) : Copy :=
  if self.isSend then ⟨self.peerBuf, myBuf, self.payloadElems⟩
  else ⟨myBuf, self.peerBuf, self.payloadElems⟩

/-- The host transfer of a send boundary. -/
def sendPayload (myBuf next : ℕ) : Eff (World β) Unit := byState fun w =>
  send next (readChunk myBuf self.payloadElems w.mem)

/-- The host transfer of a receive boundary. -/
def recvPayload (myBuf prev : ℕ) : Eff (World β) Unit := do
  let got ← recv prev
  require (self.payloadElems ≤ got.length)
    "pipeline boundary recv: channel chunk smaller than payload" "got.size() >= n"
  deviceOp (storeChunk myBuf self.payloadElems got)

/-- The closure of the host-staged path; a pointer that is `none` is null. -/
def staged (myBuf : ℕ) (next prev : Option ℕ) : Except Stop (Eff (World β) Unit) :=
  if self.isSend then
    match next with
    | none => .error (.threw "send boundary needs a next channel: next != nullptr")
    | some next => .ok (self.sendPayload myBuf next)
  else
    match prev with
    | none => .error (.threw "recv boundary needs a prev channel: prev != nullptr")
    | some prev => .ok (self.recvPayload myBuf prev)

/-- `execute`; `graph` says whether one was given. -/
def execute (myBuf : ℕ) (graph : Bool) (next prev : Option ℕ) : Eff (Node β) Unit := do
  require (myBuf ≠ 0) "my_buf must be non-null" "my_buf != nullptr"
  if self.isGraphCapturable then
    let copy := deviceOp (self.copy myBuf).run
    if graph then GraphCapture.submit copy else runNow copy
  else
    match self.staged myBuf next prev with
    | .error e => throw e
    | .ok run => eagerBreak graph run

end PipelineBoundaryPlan

/-! ## Programs -/

inductive Item (β : Type) where
  | device (f : Mem β → Mem β)
  | boundary (plan : PipelineBoundaryPlan) (myBuf : ℕ) (next prev : Option ℕ)

section

def Item.run : Item β → Eff (Node β) Unit
  | device f => GraphCapture.submit (deviceOp f)
  | boundary plan myBuf next prev => plan.execute myBuf true next prev

def eager (prog : List (Item β)) : Eff (Node β) Unit := each prog Item.run

/-- The program between `begin` and `end`. -/
def record (prog : List (Item β)) : Eff (Node β) Unit := do
  captureBegin
  eager prog
  captureEnd

/-- Recorded, then replayed `replays` times. -/
def recordAndReplay (prog : List (Item β)) (replays : ℕ) : Eff (Node β) Unit := do
  record prog
  repeatEff replay replays

/-- What the host does for an item when it meets it, capturing or not. -/
def Item.hostPart : Item β → Eff (World β) Unit
  | device _ => pure ()
  | boundary plan myBuf next prev => do
      require (myBuf ≠ 0) "my_buf must be non-null" "my_buf != nullptr"
      if plan.isGraphCapturable then pure ()
      else
        match plan.staged myBuf next prev with
        | .error e => throw e
        | .ok run => run

def Item.devicePart : Item β → List (Eff (World β) Unit)
  | device f => [deviceOp f]
  | boundary plan myBuf _ _ =>
    if plan.isGraphCapturable then [deviceOp (plan.copy myBuf).run] else []

def deviceParts (prog : List (Item β)) : List (Eff (World β) Unit) := prog.flatMap Item.devicePart

/-- Running recorded operations one after another. -/
def runOps (ops : List (Eff (World β) Unit)) : Eff (World β) Unit := each ops id

/-- Every host transfer commutes with the device work before it. -/
def Reorderable (prog : List (Item β)) : Prop :=
  ∀ pre i post, prog = pre ++ i :: post → ∀ d ∈ deviceParts pre, ∀ w,
    perform (d >>= fun _ => i.hostPart) w = perform (i.hostPart >>= fun _ => d) w

/-- The outcome of a call and the world it leaves, without the graph's own counters. -/
def effect (c : Eff (Node β) Unit) (n : Node β) : Except Stop Unit × World β :=
  ((perform c n).1, (perform c n).2.world)

/-! ### Outside a capture -/

/-- Outside a capture `c` does what `op` does, at once. -/
def RunsNow (c : Eff (Node β) Unit) (op : Eff (World β) Unit) : Prop :=
  ∀ n, n.graph.inCapture = false → perform c n = perform (runNow op) n

lemma perform_runNow (op : Eff (World β) Unit) (n : Node β) :
    perform (runNow op) n = ((perform op n.world).1, { n with world := (perform op n.world).2 }) := rfl

variable {c c' : Eff (Node β) Unit} {op op' : Eff (World β) Unit} {n : Node β}

lemma RunsNow.bind (h : RunsNow c op) (h' : RunsNow c' op') : RunsNow (c >>= fun _ => c') (op >>= fun _ => op') := by
  intro n hn
  rw [perform_bind, h n hn, perform_runNow, perform_runNow, perform_bind]
  rcases hop : perform op n.world with ⟨_ | _, w⟩
  · rfl
  · exact h' _ hn

lemma runsNow_pure : RunsNow (pure () : Eff (Node β) Unit) (pure ()) := fun _ _ => rfl

lemma runsNow_require (cond : Prop) [Decidable cond] (msg text : String) :
    RunsNow (require cond msg text : Eff (Node β) Unit) (require cond msg text) := by
  intro n _
  rw [perform_runNow, perform_require, perform_require]

lemma runsNow_submit (op : Eff (World β) Unit) : RunsNow (GraphCapture.submit op) op := by
  intro n hn
  show perform (if n.graph.inCapture then _ else runNow op) n = _
  rw [hn]
  rfl

lemma runsNow_eagerBreak (graph : Bool) (op : Eff (World β) Unit) : RunsNow (eagerBreak graph op) op := by
  intro n hn
  show perform (if graph = true ∧ n.graph.inCapture = true then _ else runNow op) n = _
  rw [if_neg (by simp [hn])]

lemma RunsNow.each {ι : Type} {body : ι → Eff (Node β) Unit} {op : ι → Eff (World β) Unit}
    (h : ∀ i, RunsNow (body i) (op i)) : ∀ l : List ι, RunsNow (each l body) (each l op)
  | [] => runsNow_pure
  | i :: l => (h i).bind (RunsNow.each h l)

lemma perform_runNow_congr
    (h : perform op n.world = perform op' n.world) : perform (runNow op) n = perform (runNow op') n := by
  rw [perform_runNow, perform_runNow, h]

lemma perform_runOps_one (op : Eff (World β) Unit) (w : World β) :
    perform (runOps [op]) w = perform op w := perform_seq_pure op w

lemma Item.run_now (i : Item β) : RunsNow i.run (i.hostPart >>= fun _ => runOps i.devicePart) := by
  cases i with
  | device f => exact runsNow_submit (deviceOp f)
  | boundary plan myBuf next prev =>
    have hbody : RunsNow (if plan.isGraphCapturable then GraphCapture.submit (deviceOp (plan.copy myBuf).run)
          else match plan.staged myBuf next prev with
            | .error e => throw e
            | .ok run => eagerBreak true run : Eff (Node β) Unit)
        ((if plan.isGraphCapturable then pure ()
          else match plan.staged myBuf next prev with
            | .error e => throw e
            | .ok run => run) >>= fun _ => runOps (boundary plan myBuf next prev).devicePart) := by
      by_cases hcap : plan.isGraphCapturable
      · simp only [hcap, if_true, devicePart]
        intro n hn
        rw [runsNow_submit _ n hn]
        exact perform_runNow_congr (perform_runOps_one _ _).symm
      · simp only [hcap, if_false, devicePart, Bool.false_eq_true]
        intro n hn
        cases plan.staged myBuf next prev with
        | error e => rfl
        | ok run =>
          refine (runsNow_eagerBreak true run n hn).trans (perform_runNow_congr ?_)
          exact (perform_seq_pure run n.world).symm
    intro n hn
    refine (((runsNow_require _ _ _).bind hbody) n hn).trans (perform_runNow_congr ?_)
    exact (perform_seq_assoc _ _ _ _).symm

/-! ### While capturing -/

/-- While the graph captures, `c` does `now` at once and records `later`. -/
def Records (c : Eff (Node β) Unit) (now : Eff (World β) Unit) (later : List (Eff (World β) Unit)) :
    Prop := ∀ n, n.graph.inCapture = true → effect c n = perform now n.world ∧
      ((perform c n).1 = .ok () → (perform c n).2.graph.inCapture = true ∧
        (perform c n).2.graph.ops = n.graph.ops ++ later)

lemma Records.bind {now now' : Eff (World β) Unit}
    {later later' : List (Eff (World β) Unit)} (h : Records c now later) (h' : Records c' now' later') :
    Records (c >>= fun _ => c') (now >>= fun _ => now') (later ++ later') := by
  intro n hn
  obtain ⟨heff, hok⟩ := h n hn
  unfold effect at heff ⊢
  rw [perform_bind, perform_bind, ← heff]
  rcases hc : perform c n with ⟨_ | _, n'⟩
  · exact ⟨rfl, fun h => by cases h⟩
  · rw [hc] at hok
    obtain ⟨hin, hops⟩ := hok rfl
    obtain ⟨heff', hok'⟩ := h' n' hin
    refine ⟨heff', fun hdone => ?_⟩
    obtain ⟨hin', hops'⟩ := hok' hdone
    exact ⟨hin', by rw [hops', hops, append_assoc]⟩

lemma records_pure : Records (pure () : Eff (Node β) Unit) (pure ()) [] :=
  fun _ hn => ⟨rfl, fun _ => ⟨hn, (append_nil _).symm⟩⟩

lemma records_throw (e : Stop) : Records (throw e : Eff (Node β) Unit) (throw e) [] :=
  fun _ _ => ⟨rfl, fun h => by cases h⟩

lemma records_require (cond : Prop) [Decidable cond] (msg text : String) :
    Records (require cond msg text : Eff (Node β) Unit) (require cond msg text) [] := by
  intro n hn
  unfold effect
  rw [perform_require, perform_require]
  exact ⟨rfl, fun _ => ⟨hn, (append_nil _).symm⟩⟩

lemma records_submit (op : Eff (World β) Unit) : Records (GraphCapture.submit op) (pure ()) [op] := by
  intro n hn
  have hrun : perform (GraphCapture.submit op) n =
      (.ok (), { n with graph := { n.graph with ops := n.graph.ops ++ [op] } }) := by
    show perform (if n.graph.inCapture then _ else _) n = _
    rw [if_pos hn]
    rfl
  unfold effect
  rw [hrun]
  exact ⟨rfl, fun _ => ⟨hn, rfl⟩⟩

lemma perform_eagerBreak (hn : n.graph.inCapture = true) :
    perform (eagerBreak true op) n = match perform op n.world with
      | (.ok (), w) => (.ok (), { n with
          world := w, graph := { n.graph with inCapture := true, segments := n.graph.segments + 1 } })
      | (.error e, w) => (.error e, { n with
          world := w, graph := { n.graph with inCapture := false, segments := n.graph.segments + 1 } }) := by
  show perform (if true = true ∧ n.graph.inCapture = true then _ else _) n = _
  rw [if_pos ⟨rfl, hn⟩]
  have hend : perform captureEnd n = (.ok (), { n with
      graph := { n.graph with inCapture := false, segments := n.graph.segments + 1 } }) := by
    show perform (if n.graph.inCapture then _ else _) n = _
    rw [if_pos hn]
    rfl
  rw [perform_bind_ok hend, perform_bind, perform_runNow]
  rcases perform op n.world with ⟨_ | _, w⟩
  · rfl
  · rfl

lemma records_eagerBreak (op : Eff (World β) Unit) : Records (eagerBreak true op) op [] := by
  intro n hn
  unfold effect
  rw [perform_eagerBreak hn]
  rcases perform op n.world with ⟨_ | _, w⟩
  · exact ⟨rfl, fun h => by cases h⟩
  · exact ⟨rfl, fun _ => ⟨rfl, (append_nil _).symm⟩⟩

lemma Item.run_records (i : Item β) : Records i.run i.hostPart i.devicePart := by
  cases i with
  | device f => exact records_submit (deviceOp f)
  | boundary plan myBuf next prev =>
    have hbody : Records (if plan.isGraphCapturable then GraphCapture.submit (deviceOp (plan.copy myBuf).run)
          else match plan.staged myBuf next prev with
            | .error e => throw e
            | .ok run => eagerBreak true run : Eff (Node β) Unit)
        (if plan.isGraphCapturable then pure ()
          else match plan.staged myBuf next prev with
            | .error e => throw e
            | .ok run => run) (boundary plan myBuf next prev).devicePart := by
      by_cases hcap : plan.isGraphCapturable
      · simp only [hcap, if_true, devicePart]
        exact records_submit _
      · simp only [hcap, if_false, devicePart, Bool.false_eq_true]
        cases plan.staged myBuf next prev with
        | error e => exact records_throw e
        | ok run => exact records_eagerBreak run
    exact (records_require _ _ _).bind hbody

lemma eager_records : ∀ prog : List (Item β), Records (eager prog) (each prog Item.hostPart) (deviceParts prog)
  | [] => records_pure
  | i :: prog => i.run_records.bind (eager_records prog)

/-- **What a recording does**: the host parts at once and in order; the device parts are recorded. -/
theorem record_effect (prog : List (Item β)) (w : World β) (stream : TaskStream β) :
    effect (record prog) ⟨w, .fresh β, stream⟩ = perform (each prog Item.hostPart) w ∧
      ((perform (record prog) ⟨w, .fresh β, stream⟩).1 = .ok () →
        (perform (record prog) ⟨w, .fresh β, stream⟩).2.graph.inCapture = false ∧
        (perform (record prog) ⟨w, .fresh β, stream⟩).2.graph.ops = deviceParts prog) := by
  have hbegin : perform captureBegin ⟨w, .fresh β, stream⟩ =
      (.ok (), ⟨w, { fresh β with inCapture := true }, stream⟩) := rfl
  obtain ⟨heff, hok⟩ := eager_records prog ⟨w, { fresh β with inCapture := true }, stream⟩ rfl
  unfold effect at heff ⊢
  unfold record
  rw [perform_bind_ok hbegin, perform_bind, ← heff]
  rcases hrun : perform (eager prog) ⟨w, { fresh β with inCapture := true }, stream⟩ with
    ⟨_ | _, n⟩
  · exact ⟨rfl, fun h => by cases h⟩
  · rw [hrun] at hok
    obtain ⟨hin, hops⟩ := hok rfl
    have hend : perform captureEnd n = (.ok (), { n with
        graph := { n.graph with inCapture := false, segments := n.graph.segments + 1 } }) := by
      have hin : n.graph.inCapture = true := hin
      show perform (if n.graph.inCapture then _ else _) n = _
      rw [if_pos hin]
      rfl
    dsimp only
    rw [hend]
    exact ⟨rfl, fun _ => ⟨rfl, hops⟩⟩

/-! ### Replay -/

lemma perform_replay (hn : n.graph.inCapture = false) :
    effect replay n = perform (runOps n.graph.ops) n.world ∧ ((perform replay n).1 = .ok () →
        (perform replay n).2.graph.inCapture = false ∧
        (perform replay n).2.graph.ops = n.graph.ops) := by
  have hloop : ∀ (ops : List (Eff (World β) Unit)) (n : Node β),
      perform (each ops runNow) n = perform (runNow (runOps ops)) n := by
    intro ops
    induction ops with
    | nil => exact fun _ => rfl
    | cons op ops ih =>
      intro n
      show perform (runNow op >>= fun _ => each ops runNow) n = perform (runNow (op >>= fun _ => runOps ops)) n
      rw [perform_bind, perform_runNow, perform_runNow, perform_bind]
      rcases perform op n.world with ⟨_ | _, w⟩
      · rfl
      · exact ih _
  have hrun : perform replay n = perform (do
      each n.graph.ops runNow
      onGraph fun g => { g with replays := g.replays + 1 }) n := by
    show perform (if n.graph.inCapture then _ else _) n = _
    rw [hn]
    rfl
  unfold effect
  rw [hrun, perform_bind, hloop, perform_runNow]
  rcases perform (runOps n.graph.ops) n.world with ⟨_ | _, w⟩
  · exact ⟨rfl, fun h => by cases h⟩
  · exact ⟨rfl, fun _ => ⟨hn, rfl⟩⟩

lemma perform_replays : ∀ (k : ℕ) {n : Node β}, n.graph.inCapture = false →
    effect (repeatEff replay k) n = perform (repeatEff (runOps n.graph.ops) k) n.world
  | 0, _, _ => rfl
  | k + 1, n, hn => by
    obtain ⟨heff, hok⟩ := perform_replay hn
    unfold effect at heff ⊢
    show ((perform (replay >>= fun _ => repeatEff replay k) n).1,
      (perform (replay >>= fun _ => repeatEff replay k) n).2.world) =
        perform (runOps n.graph.ops >>= fun _ => repeatEff _ k) n.world
    rw [perform_bind, perform_bind, ← heff]
    rcases hrun : perform replay n with ⟨_ | _, _⟩
    · rfl
    · rw [hrun] at hok
      obtain ⟨hin, hops⟩ := hok rfl
      rw [← hops]
      exact perform_replays k hin

lemma recordAndReplay_effect (prog : List (Item β)) (k : ℕ) (w : World β) (stream : TaskStream β) :
    effect (recordAndReplay prog k) ⟨w, .fresh β, stream⟩ =
      perform (each prog Item.hostPart >>= fun _ => repeatEff (runOps (deviceParts prog)) k) w := by
  obtain ⟨heff, hok⟩ := record_effect prog w stream
  unfold effect at heff ⊢
  unfold recordAndReplay
  rw [perform_bind, perform_bind, ← heff]
  rcases hrun : perform (record prog) ⟨w, .fresh β, stream⟩ with ⟨_ | _, n⟩
  · rfl
  · rw [hrun] at hok
    obtain ⟨hin, hops⟩ := hok rfl
    rw [← hops]
    exact perform_replays k hin

/-! ### Replay and the eager program -/

/-- Device work never fails and leaves the channels alone. -/
lemma perform_deviceParts {prog : List (Item β)} (h : op ∈ deviceParts prog) : ∃ f, op = deviceOp f := by
  obtain ⟨i, _, hop⟩ := mem_flatMap.mp h
  cases i with
  | device f => exact ⟨f, mem_singleton.mp hop⟩
  | boundary plan myBuf next _ =>
    by_cases hcap : plan.isGraphCapturable
    · simp only [Item.devicePart, hcap, if_true] at hop
      exact ⟨_, mem_singleton.mp hop⟩
    · simp only [Item.devicePart, hcap, Bool.false_eq_true, if_false] at hop
      exact absurd hop not_mem_nil

lemma runOps_queues {ops : List (Eff (World β) Unit)} (h : ∀ op ∈ ops, ∃ f, op = deviceOp f) :
    ∀ w : World β, (perform (runOps ops) w).1 = .ok () ∧ (perform (runOps ops) w).2.queues = w.queues := by
  induction ops with
  | nil => exact fun w => ⟨rfl, rfl⟩
  | cons op ops ih =>
    intro w
    obtain ⟨f, rfl⟩ := h op (by simp)
    have hstep : perform (runOps (deviceOp f :: ops)) w = perform (runOps ops) { w with mem := f w.mem } := rfl
    exact ih (fun op hop => h op (by simp [hop])) _

/-- **No messages in a replay**, however often the graph is replayed. -/
theorem replays_queues (prog : List (Item β)) (k : ℕ) (w : World β) :
    (perform (repeatEff (runOps (deviceParts prog)) k) w).1 = .ok () ∧
      (perform (repeatEff (runOps (deviceParts prog)) k) w).2.queues = w.queues := by
  induction k generalizing w with
  | zero => exact ⟨rfl, rfl⟩
  | succ k ih =>
    obtain ⟨hok, hq⟩ := runOps_queues (fun op hop => perform_deviceParts hop) w
    have hstep : perform (repeatEff (runOps (deviceParts prog)) (k + 1)) w =
        perform (repeatEff (runOps (deviceParts prog)) k) (perform (runOps (deviceParts prog)) w).2 := by
      refine perform_bind_ok (a := ()) ?_
      rw [← hok]
    rw [hstep]
    exact ⟨(ih _).1, (ih _).2.trans hq⟩

/-- A list of operations that each commute with `op`. -/
lemma runOps_comm {op : Eff (World β) Unit} : ∀ {ops : List (Eff (World β) Unit)},
    (∀ d ∈ ops, ∀ w, perform (d >>= fun _ => op) w = perform (op >>= fun _ => d) w) → ∀ w,
      perform (runOps ops >>= fun _ => op) w = perform (op >>= fun _ => runOps ops) w
  | [], _, w => (perform_seq_pure op w).symm
  | d :: ops, h, w => by
    have hd := h d (by simp)
    have hops : ∀ w, perform (runOps ops >>= fun _ => op) w =
        perform (op >>= fun _ => runOps ops) w := runOps_comm fun d hd => h d (by simp [hd])
    calc perform (runOps (d :: ops) >>= fun _ => op) w
        = perform (d >>= fun _ => (runOps ops >>= fun _ => op)) w := perform_seq_assoc d _ op w
      _ = perform (d >>= fun _ => (op >>= fun _ => runOps ops)) w :=
          perform_seq_congr (fun _ => rfl) hops w
      _ = perform ((d >>= fun _ => op) >>= fun _ => runOps ops) w := (perform_seq_assoc d op _ w).symm
      _ = perform ((op >>= fun _ => d) >>= fun _ => runOps ops) w := perform_seq_congr hd (fun _ => rfl) w
      _ = perform (op >>= fun _ => runOps (d :: ops)) w := perform_seq_assoc op d _ w

lemma eager_reordered (prog : List (Item β)) (h : Reorderable prog) (w : World β) :
    perform (each prog fun i => i.hostPart >>= fun _ => runOps i.devicePart) w =
      perform (each prog Item.hostPart >>= fun _ => runOps (deviceParts prog)) w := by
  -- from the end: the last item's transfer moves over the device work before it
  induction prog using reverseRecOn generalizing w with
  | nil => rfl
  | append_singleton prog i ih =>
    have hpre : Reorderable prog := by
      intro pre j post hprog
      exact h pre j (post ++ [i]) (by rw [hprog]; simp)
    have hcomm := runOps_comm (h prog i [] rfl)
    have hparts : ∀ w, perform (runOps (deviceParts (prog ++ [i]))) w =
        perform (runOps (deviceParts prog) >>= fun _ => runOps i.devicePart) w := by
      intro w
      unfold runOps
      rw [← each_append]
      simp [deviceParts]
    have hhosts : ∀ w, perform (each (prog ++ [i]) Item.hostPart) w =
        perform (each prog Item.hostPart >>= fun _ => i.hostPart) w := by
      intro w
      rw [each_append]
      exact perform_seq_congr (fun _ => rfl) (perform_seq_pure _) w
    calc perform (each (prog ++ [i]) fun i => i.hostPart >>= fun _ => runOps i.devicePart) w
        = perform ((each prog fun i => i.hostPart >>= fun _ => runOps i.devicePart) >>= fun _ =>
            (i.hostPart >>= fun _ => runOps i.devicePart)) w := by
          rw [each_append]
          exact perform_seq_congr (fun _ => rfl) (perform_seq_pure _) w
      _ = perform ((each prog Item.hostPart >>= fun _ => runOps (deviceParts prog)) >>= fun _ =>
            (i.hostPart >>= fun _ => runOps i.devicePart)) w :=
          perform_seq_congr (ih hpre) (fun _ => rfl) w
      _ = perform (each prog Item.hostPart >>= fun _ => (runOps (deviceParts prog) >>= fun _ =>
            (i.hostPart >>= fun _ => runOps i.devicePart))) w := perform_seq_assoc _ _ _ w
      _ = perform (each prog Item.hostPart >>= fun _ => (i.hostPart >>= fun _ =>
            (runOps (deviceParts prog) >>= fun _ => runOps i.devicePart))) w := by
          refine perform_seq_congr (fun _ => rfl) (fun w => ?_) w
          rw [← perform_seq_assoc, ← perform_seq_assoc]
          exact perform_seq_congr hcomm (fun _ => rfl) w
      _ = perform ((each prog Item.hostPart >>= fun _ => i.hostPart) >>= fun _ =>
            (runOps (deviceParts prog) >>= fun _ => runOps i.devicePart)) w :=
          (perform_seq_assoc _ _ _ w).symm
      _ = perform (each (prog ++ [i]) Item.hostPart >>= fun _ =>
            runOps (deviceParts (prog ++ [i]))) w :=
          perform_seq_congr (fun w => (hhosts w).symm) (fun w => (hparts w).symm) w

lemma eager_effect (prog : List (Item β)) (w : World β) (stream : TaskStream β) :
    effect (eager prog) ⟨w, .fresh β, stream⟩ =
      perform (each prog fun i => i.hostPart >>= fun _ => runOps i.devicePart) w := by
  unfold effect eager
  rw [RunsNow.each Item.run_now prog ⟨w, .fresh β, stream⟩ rfl, perform_runNow]

/-- Device operations and device-path boundaries only. -/
def Item.Capturable : Item β → Prop
  | device _ => True
  | boundary plan myBuf _ _ => plan.isGraphCapturable = true ∧ myBuf ≠ 0

lemma Item.Capturable.hostPart {i : Item β} (h : i.Capturable) (w : World β) :
    perform i.hostPart w = (.ok (), w) := by
  cases i with
  | device f => rfl
  | boundary plan myBuf next _ =>
    obtain ⟨hcap, hbuf⟩ := h
    unfold Item.hostPart
    rw [perform_require_bind hbuf, if_pos hcap, perform_pure]

lemma reorderable_of_capturable {staged prog : List (Item β)}
    (hstaged : deviceParts staged = []) (hprog : ∀ i ∈ prog, i.Capturable) : Reorderable (staged ++ prog) := by
  intro pre i _ hsplit d hd w
  have hi : i ∈ prog := by
    rcases append_eq_append_iff.mp hsplit with ⟨mid, hpre, hmid⟩ | ⟨mid, hstage, hmid⟩
    · rw [hmid]
      simp
    · -- all of `pre` is in the staged part, which has no device work
      have : deviceParts staged = deviceParts pre ++ deviceParts mid := by
        rw [hstage]
        simp [deviceParts]
      rw [hstaged] at this
      rw [(append_eq_nil_iff.mp this.symm).1] at hd
      exact absurd hd not_mem_nil
  have hhost := (hprog i hi).hostPart
  obtain ⟨f, rfl⟩ := perform_deviceParts hd
  rw [perform_bind, perform_bind, hhost]
  exact hhost _

/-- **Capture and replay.**  A recording with its replays runs the host-staged transfers in program
    order and then, once for each replay, the device operations and device-path boundaries in
    program order; with one replay that is the eager program whenever the transfers commute with
    the device work before them; and a replay sends and receives nothing. -/
theorem capture_replay (prog : List (Item β)) (w : World β) (stream : TaskStream β) :
    (∀ replays, effect (recordAndReplay prog replays) ⟨w, .fresh β, stream⟩ =
      perform (each prog Item.hostPart >>= fun _ => repeatEff (runOps (deviceParts prog)) replays) w) ∧
    (Reorderable prog → effect (recordAndReplay prog 1) ⟨w, .fresh β, stream⟩ =
      effect (eager prog) ⟨w, .fresh β, stream⟩) ∧
    ((perform (record prog) ⟨w, .fresh β, stream⟩).1 = .ok () → ∀ replays,
      (perform (recordAndReplay prog replays) ⟨w, .fresh β, stream⟩).1 = .ok () ∧
      (perform (recordAndReplay prog replays) ⟨w, .fresh β, stream⟩).2.world.queues =
        (perform (record prog) ⟨w, .fresh β, stream⟩).2.world.queues) := by
  refine ⟨fun k => recordAndReplay_effect prog k w stream, fun h => ?_, fun hok k => ?_⟩
  · rw [recordAndReplay_effect, eager_effect, eager_reordered prog h]
    exact perform_seq_congr (fun _ => rfl) (perform_seq_pure _) w
  · have hrec := (record_effect prog w stream).1
    have hall := recordAndReplay_effect prog k w stream
    unfold effect at hrec hall
    rw [perform_bind, ← hrec] at hall
    rw [hok] at hall
    obtain ⟨hdone, hq⟩ := replays_queues prog k (perform (record prog) ⟨w, .fresh β, stream⟩).2.world
    obtain ⟨h1, h2⟩ := Prod.mk.inj hall
    exact ⟨h1.trans hdone, (congrArg World.queues h2).trans hq⟩

/-- Rank 0 of 2 with a payload of one element, host-staged. -/
def stagedSend : PipelineBoundaryPlan := ⟨2, 0, 1, .hostStaged, .send, 0⟩

theorem capture_replay_send_first (w : World ℕ) : effect (recordAndReplay
        [.boundary stagedSend 8 (some 0) none, .device fun m => Function.update m 8 1] 1) ⟨w, .fresh ℕ, .idle ℕ⟩ =
      effect (eager [.boundary stagedSend 8 (some 0) none, .device fun m => Function.update m 8 1])
        ⟨w, .fresh ℕ, .idle ℕ⟩ := by
  refine (capture_replay _ w (.idle ℕ)).2.1 (reorderable_of_capturable
    (show deviceParts [.boundary stagedSend 8 (some 0) none] = [] from rfl) ?_)
  simp [Item.Capturable]

/-- Write 1 into the buffer, then send it: the recording sends the 0 that was there before. -/
theorem deferred_send : (effect (recordAndReplay
        [.device fun m => Function.update m 8 1, .boundary stagedSend 8 (some 0) none] 1)
        ⟨⟨fun _ => 0, fun _ => []⟩, .fresh ℕ, .idle ℕ⟩).2.queues 0 = [[0]] ∧ (effect (eager
        [.device fun m => Function.update m 8 1, .boundary stagedSend 8 (some 0) none])
        ⟨⟨fun _ => 0, fun _ => []⟩, .fresh ℕ, .idle ℕ⟩).2.queues 0 = [[1]] := by
  constructor
  · decide +kernel
  · decide +kernel

end

end

end VKernels.Comm
