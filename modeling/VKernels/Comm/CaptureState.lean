import VKernels.Comm.CrossNodeKv

/-!
# Capture state across host-staged transfers

* `KeepsCapture` — when the call returns or throws, the graph captures exactly if it did before.
* `Malformed` — the call receives a message of the wrong length.

## Results

* `hostStaged_keepsCapture` — an eager break resumes the capture unless its transfer throws.
* `capture_state_kept_iff` — a call keeps the capture state exactly when it does not meet a
  malformed message while the graph captures: no path resumes the capture on the throwing exit.
* `short_message_ends_capture` — a receive boundary that leaves the graph outside the capture.
-/

namespace VKernels.Comm

open ByteCopies Effects

/-- The calls that may break a capture, over floats or over bytes. -/
inductive StagedCall : Type → Type 1 where
  | boundary {β : Type} (plan : PipelineBoundaryPlan) (myBuf : ℕ) (next prev : Option ℕ) :
      StagedCall β
  | restore (plan : CrossNodeKvRestorePlan) (kDst vDst offset : ℕ) (channel : Option ℕ) :
      StagedCall UInt8
  | donate (plan : CrossNodeKvDonatePlan) (kSrc vSrc : ℕ) (remote : FabricHandle) (offset : ℕ)
      (channel : Option ℕ) : StagedCall UInt8
  | stripedRestore (plan : CrossNodeKvStripedPlan) (kDst vDst : ℕ) (lanes : List ℕ) :
      StagedCall UInt8
  | stripedDonate (plan : CrossNodeKvStripedPlan) (kSrc vSrc : ℕ) (lanes : List ℕ) :
      StagedCall UInt8

/-- The chunk loop of a striped restore meets a message of the wrong length. -/
def MisSized (lanes : List ℕ) : List CrossNodeKvStripeChunk → (ℕ → List (List UInt8)) → Prop
  | [], _ => False
  | c :: stripes, queues =>
    match queues (CrossNodeKvStripedPlan.laneOf lanes c) with
    | [] => False
    | chunk :: rest => chunk.length ≠ c.bytes ∨
        MisSized lanes stripes (Function.update queues (CrossNodeKvStripedPlan.laneOf lanes c) rest)

/-- The next message of the channel is shorter than `n`. -/
def ShortMessage {β : Type} (queues : ℕ → List (List β)) (channel : Option ℕ) (n : ℕ) : Prop :=
  ∃ ch chunk rest, channel = some ch ∧ queues ch = chunk :: rest ∧ chunk.length < n

namespace StagedCall

variable {β : Type}

/-- `graph` says whether a graph was given, `stream` whether a stream was. -/
def execute (stream graph : Bool) : StagedCall β → Eff (Node β) Unit
  | boundary plan myBuf next prev => plan.execute myBuf graph next prev
  | restore plan kDst vDst offset channel => plan.execute kDst vDst offset stream graph channel
  | donate plan kSrc vSrc remote offset channel =>
    plan.execute kSrc vSrc remote offset stream graph channel
  | stripedRestore plan kDst vDst lanes => plan.executeRestore kDst vDst stream graph lanes
  | stripedDonate plan kSrc vSrc lanes => plan.executeDonate kSrc vSrc stream graph lanes

def Malformed (w : World β) : StagedCall β → Prop
  | boundary plan myBuf _ prev => plan.isGraphCapturable = false ∧ plan.isSend = false ∧
      myBuf ≠ 0 ∧ ShortMessage w.queues prev plan.payloadElems
  | restore plan kDst vDst _ channel => isImportGraphCapturable plan.transport = false ∧
      plan.args.numPages ≠ 0 ∧ kDst ≠ 0 ∧ vDst ≠ 0 ∧
      ShortMessage w.queues channel plan.args.totalBytes
  | donate _ _ _ _ _ _ => False
  | stripedRestore plan kDst vDst lanes => plan.args.numPages ≠ 0 ∧ kDst ≠ 0 ∧ vDst ≠ 0 ∧
      plan.stripe.laneCount ≤ lanes.length ∧ MisSized lanes plan.stripes w.queues
  | stripedDonate _ _ _ _ => False

end StagedCall

section

variable {β : Type}

def KeepsCapture (c : Eff (Node β) Unit) (n : Node β) : Prop :=
  (perform c n).1 ≠ .error .blocked →
    (perform c n).2.graph.inCapture = n.graph.inCapture

def Throws (run : Eff (World β) Unit) (w : World β) : Prop :=
  ∃ e, (perform run w).1 = .error (.threw e)

lemma keepsCapture_of_never {c : Eff (Node β) Unit} (h : Never Node.graph c) (n : Node β) : KeepsCapture c n := by
  intro _
  rw [h n]

lemma never_graph_runNow (run : Eff (World β) Unit) : Never Node.graph (runNow run) :=
  fun _ => rfl

lemma never_graph_enqueueTask (run : Eff (World β) Unit) : Never Node.graph (enqueueTask run) :=
  fun _ => rfl

lemma never_graph_streamWait : Never Node.graph (streamWait : Eff (Node β) Unit) := by
  refine never_byState fun n => ?_
  refine Never.bind (fun _ => rfl) fun failure => ?_
  refine Never.bind (fun _ => rfl) fun _ => ?_
  cases failure with
  | none => exact never_pure ()
  | some e => exact never_throw e

lemma submit_keepsCapture (op : Eff (World β) Unit) (n : Node β) : KeepsCapture (GraphCapture.submit op) n := by
  have hrun : perform (GraphCapture.submit op) n = perform (if n.graph.inCapture then
      onGraph fun g => { g with ops := g.ops ++ [op] } else runNow op) n := rfl
  intro _
  rw [hrun]
  split
  · rfl
  · rfl

lemma hostStaged_keepsCapture (graph stream : Bool) (run : Eff (World β) Unit) (n : Node β) :
    KeepsCapture (hostStaged graph stream run) n ↔
      ¬ (graph = true ∧ n.graph.inCapture = true ∧ Throws run n.world) := by
  have hrun : perform (hostStaged graph stream run) n =
      perform (if graph = true ∧ n.graph.inCapture = true then eagerBreak graph run
        else if stream then enqueueTask run else runNow run) n := rfl
  by_cases hcap : graph = true ∧ n.graph.inCapture = true
  · obtain ⟨rfl, hin⟩ := hcap
    rw [if_pos ⟨rfl, hin⟩] at hrun
    unfold KeepsCapture Throws
    rw [hrun, perform_eagerBreak hin]
    rcases perform run n.world with ⟨e | _, w⟩
    · cases e with
      | threw e => simp [hin]
      | blocked => simp
    · simp [hin]
  · rw [if_neg hcap] at hrun
    refine ⟨fun _ h => hcap ⟨h.1, h.2.1⟩, fun _ _ => ?_⟩
    rw [hrun]
    split
    · rfl
    · rfl

lemma eagerBreak_keepsCapture (graph : Bool) (run : Eff (World β) Unit) (n : Node β) :
    KeepsCapture (eagerBreak graph run) n ↔ ¬ (graph = true ∧ n.graph.inCapture = true ∧ Throws run n.world) := by
  rw [← hostStaged_keepsCapture]
  have hrun : perform (hostStaged graph false run) n = perform (eagerBreak graph run) n := by
    show perform (if graph = true ∧ n.graph.inCapture = true then eagerBreak graph run
      else runNow run) n = perform (if graph = true ∧ n.graph.inCapture = true then _
      else runNow run) n
    by_cases hcap : graph = true ∧ n.graph.inCapture = true
    · rw [if_pos hcap, if_pos hcap]
      show perform (if graph = true ∧ n.graph.inCapture = true then _ else _) n = _
      rw [if_pos hcap]
    · rw [if_neg hcap, if_neg hcap]
  unfold KeepsCapture
  rw [hrun]

lemma require_keepsCapture {cond : Prop} [Decidable cond] {msg text : String}
    {k : Eff (Node β) Unit} {n : Node β} {P : Prop} (h : cond → (KeepsCapture k n ↔ ¬ (n.graph.inCapture = true ∧ P))) :
    KeepsCapture (require cond msg text >>= fun _ => k) n ↔ ¬ (n.graph.inCapture = true ∧ cond ∧ P) := by
  by_cases hc : cond
  · unfold KeepsCapture
    rw [perform_require_bind hc]
    rw [← KeepsCapture, h hc]
    simp [hc]
  · refine ⟨fun _ h => hc h.2.1, fun _ _ => ?_⟩
    rw [perform_require_fails hc]

variable {ch : ℕ} {w : World β}

lemma perform_recv_empty (h : w.queues ch = []) : perform (recv ch) w = (.error .blocked, w) := by
  unfold recv
  rw [perform_byState, h, perform_throw]

lemma perform_recv_cons {chunk : List β} {rest : List (List β)}
    (h : w.queues ch = chunk :: rest) : perform (recv ch) w =
      (.ok chunk, { w with queues := Function.update w.queues ch rest }) := by
  unfold recv
  rw [perform_byState, h]
  rfl

/-- A receive, a length check and an update of memory. -/
lemma throws_recv (ch n : ℕ) (msg text : String) (k : List β → Mem β → Mem β) (w : World β) :
    Throws (do
      let got ← recv ch
      require (n ≤ got.length) msg text
      deviceOp (k got)) w ↔ ShortMessage w.queues (some ch) n := by
  unfold Throws
  cases hq : w.queues ch with
  | nil =>
    rw [perform_bind_error (perform_recv_empty hq)]
    refine ⟨fun ⟨e, he⟩ => ?_, ?_⟩
    · cases he
    · rintro ⟨ch', chunk, rest, hch, hcons, _⟩
      cases hch
      rw [hq] at hcons
      cases hcons
  | cons chunk rest =>
    rw [perform_bind_ok (perform_recv_cons hq)]
    by_cases hlen : n ≤ chunk.length
    · rw [perform_require_bind hlen]
      refine ⟨fun ⟨e, he⟩ => ?_, ?_⟩
      · cases he
      · rintro ⟨_, _, _, hch, hcons, hshort⟩
        cases hch
        rw [hq] at hcons
        cases hcons
        omega
    · rw [perform_require_fails hlen]
      exact ⟨fun _ => ⟨ch, chunk, rest, rfl, hq, by omega⟩, fun _ => ⟨_, rfl⟩⟩

lemma not_throws_send {f : World β → List β} : ¬ Throws (byState fun w => send ch (f w)) w := by
  rintro ⟨e, he⟩
  cases he

end

namespace CrossNodeKvStripedPlan

lemma recvStripes_throws (lanes : List ℕ) : ∀ (stripes : List CrossNodeKvStripeChunk)
    (buf : Mem UInt8) (w : World UInt8), (∃ e, (perform (recvStripes lanes stripes buf) w).1 = .error (.threw e)) ↔
      MisSized lanes stripes w.queues
  | [], buf, w => by
    refine ⟨fun ⟨e, he⟩ => ?_, fun h => h.elim⟩
    cases he
  | c :: stripes, buf, w => by
    unfold recvStripes MisSized
    cases hq : w.queues _ with
    | nil =>
      rw [perform_bind_error (perform_recv_empty hq)]
      refine ⟨fun ⟨e, he⟩ => ?_, fun h => h.elim⟩
      cases he
    | cons chunk rest =>
      rw [perform_bind_ok (perform_recv_cons hq)]
      have hstep := perform_bind (σ := World UInt8)
        (require (chunk.length = c.bytes) "striped restore recv: lane chunk size mismatch"
          "chunk.size() == c.bytes")
        (fun _ => recvStripes lanes stripes (storeChunk c.offset c.bytes chunk buf))
        { w with queues := Function.update w.queues (laneOf lanes c) rest }
      rw [hstep, perform_require]
      by_cases hlen : chunk.length = c.bytes
      · rw [if_pos hlen]
        have ih := recvStripes_throws lanes stripes (storeChunk c.offset c.bytes chunk buf)
          { w with queues := Function.update w.queues (laneOf lanes c) rest }
        refine ih.trans ⟨fun h => .inr h, fun h => h.resolve_left fun hne => hne hlen⟩
      · rw [if_neg hlen]
        exact ⟨fun _ => .inl hlen, fun _ => ⟨_, rfl⟩⟩

lemma restore_throws (self : CrossNodeKvStripedPlan) (kDst vDst : ℕ) (lanes : List ℕ) (w : World UInt8) :
    Throws (self.restore kDst vDst lanes) w ↔ MisSized lanes self.stripes w.queues := by
  rw [← recvStripes_throws]
  unfold Throws restore
  rw [perform_bind]
  rcases perform (recvStripes lanes self.stripes fun _ => 0) w with ⟨e | _, _⟩
  · refine ⟨fun ⟨e, he⟩ => ⟨e, ?_⟩, fun ⟨e, he⟩ => ⟨e, ?_⟩⟩
    · cases he
      rfl
    · cases he
      rfl
  · refine ⟨fun ⟨e, he⟩ => ?_, fun ⟨e, he⟩ => ?_⟩
    · cases he
    · cases he

lemma donate_not_throws (self : CrossNodeKvStripedPlan) (kSrc vSrc : ℕ) (lanes : List ℕ)
    (w : World UInt8) : ¬ Throws (self.donate kSrc vSrc lanes) w := by
  rintro ⟨e, he⟩
  rw [donate, perform_byState, perform_each_ok fun c _ w => perform_send _ _ w] at he
  cases he

end CrossNodeKvStripedPlan

lemma checked_keepsCapture {k v pages : ℕ} {kMsg kText vMsg vText : String}
    {body : Eff (Node UInt8) Unit} {n : Node UInt8} {P : Prop}
    (h : pages ≠ 0 → (KeepsCapture body n ↔ ¬ (n.graph.inCapture = true ∧ P))) :
    KeepsCapture (do
      require (k ≠ 0 ∨ pages = 0) kMsg kText
      require (v ≠ 0 ∨ pages = 0) vMsg vText
      if pages = 0 then pure () else body) n ↔
    ¬ (n.graph.inCapture = true ∧ pages ≠ 0 ∧ k ≠ 0 ∧ v ≠ 0 ∧ P) := by
  have hbody : KeepsCapture (if pages = 0 then pure () else body) n ↔ ¬ (n.graph.inCapture = true ∧ pages ≠ 0 ∧ P) := by
    by_cases hpages : pages = 0
    · rw [if_pos hpages]
      exact iff_of_true (keepsCapture_of_never (never_pure ()) n) fun h => h.2.1 hpages
    · rw [if_neg hpages]
      refine (h hpages).trans (not_congr ?_)
      tauto
  refine (require_keepsCapture fun _ => require_keepsCapture fun _ => hbody).trans (not_congr ?_)
  tauto

lemma direct_keepsCapture (stream graph : Bool) (op : Eff (World UInt8) Unit)
    {task : Eff (Node UInt8) Unit} (htask : Never Node.graph task) (n : Node UInt8) : KeepsCapture (byState fun n =>
      if graph = true ∧ n.graph.inCapture = true then GraphCapture.submit op else if stream then task
      else runNow op) n := by
  by_cases hcap : graph = true ∧ n.graph.inCapture = true
  · unfold KeepsCapture
    rw [perform_byState, if_pos hcap]
    exact submit_keepsCapture op n
  · unfold KeepsCapture
    rw [perform_byState, if_neg hcap]
    split
    · exact keepsCapture_of_never htask n
    · exact keepsCapture_of_never (never_graph_runNow op) n

/-- **When the capture state is kept.** -/
theorem capture_state_kept_iff {β : Type} (c : StagedCall β) (stream graph : Bool) (n : Node β) :
    KeepsCapture (c.execute stream graph) n ↔ ¬ (n.graph.inCapture = true ∧ graph = true ∧ c.Malformed n.world) := by
  cases c with
  | boundary plan myBuf next prev =>
    refine (require_keepsCapture (P := graph = true ∧ plan.isGraphCapturable = false ∧
      plan.isSend = false ∧ ShortMessage n.world.queues prev plan.payloadElems) fun _ => ?_).trans (not_congr ?_)
    · by_cases hcap : plan.isGraphCapturable = true
      · simp only [hcap, if_true]
        refine iff_of_true ?_ (by simp)
        split
        · exact submit_keepsCapture _ n
        · exact keepsCapture_of_never (never_graph_runNow _) n
      · simp only [hcap]
        unfold PipelineBoundaryPlan.staged
        by_cases hsend : plan.isSend = true
        · simp only [hsend, if_true]
          refine iff_of_true ?_ (by simp)
          cases next with
          | none => exact keepsCapture_of_never (never_throw _) n
          | some next =>
            exact (eagerBreak_keepsCapture graph _ n).mpr fun h => not_throws_send h.2.2
        · simp only [hsend]
          cases prev with
          | none =>
            refine iff_of_true (keepsCapture_of_never (never_throw _) n) ?_
            rintro ⟨_, _, _, _, ch, _, _, hch, _⟩
            cases hch
          | some prev =>
            refine (eagerBreak_keepsCapture graph _ n).trans (not_congr ?_)
            have hshort := throws_recv prev plan.payloadElems
              "pipeline boundary recv: channel chunk smaller than payload" "got.size() >= n"
              (fun got => storeChunk myBuf plan.payloadElems got) n.world
            unfold PipelineBoundaryPlan.recvPayload
            tauto
    · unfold StagedCall.Malformed
      tauto
  | restore plan kDst vDst offset channel =>
    refine (checked_keepsCapture (P := graph = true ∧ isImportGraphCapturable plan.transport = false ∧
      ShortMessage n.world.queues channel plan.args.totalBytes) fun _ => ?_).trans (not_congr ?_)
    · by_cases hcap : isImportGraphCapturable plan.transport = true
      · simp only [hcap, if_true]
        exact iff_of_true (direct_keepsCapture stream graph _ (never_graph_enqueueTask _) n) (by simp)
      · simp only [hcap]
        cases channel with
        | none =>
          refine iff_of_true (keepsCapture_of_never (never_throw _) n) ?_
          rintro ⟨_, _, _, ch, _, _, hch, _⟩
          cases hch
        | some ch =>
          refine (hostStaged_keepsCapture graph stream _ n).trans (not_congr ?_)
          have hshort := throws_recv ch plan.args.totalBytes
            "cross-node restore recv: channel chunk smaller than one layer" "buf.size() >= self->total_bytes_"
            (fun buf => kvScatterFrom plan.args kDst vDst (vectorOf buf)) n.world
          unfold CrossNodeKvRestorePlan.bounce
          tauto
    · unfold StagedCall.Malformed
      tauto
  | donate plan kSrc vSrc remote offset channel =>
    refine (checked_keepsCapture (P := False) fun _ => ?_).trans (not_congr ?_)
    · by_cases hcap : isImportGraphCapturable plan.transport = true
      · simp only [hcap, if_true]
        refine iff_of_true (direct_keepsCapture stream graph _ ?_ n) (by simp)
        exact (never_graph_enqueueTask _).bind fun _ => never_graph_streamWait.bind fun _ =>
          never_graph_runNow _
      · simp only [hcap]
        cases channel with
        | none => exact iff_of_true (keepsCapture_of_never (never_throw _) n) (by simp)
        | some ch =>
          refine (hostStaged_keepsCapture graph stream _ n).trans (not_congr ?_)
          exact ⟨fun h => absurd h.2.2 not_throws_send, fun h => h.2.elim⟩
    · tauto
  | stripedRestore plan kDst vDst lanes =>
    refine (checked_keepsCapture fun _ => require_keepsCapture
      (P := graph = true ∧ MisSized lanes plan.stripes n.world.queues) fun _ => ?_).trans (not_congr ?_)
    · refine (hostStaged_keepsCapture graph stream _ n).trans (not_congr ?_)
      rw [CrossNodeKvStripedPlan.restore_throws]
      tauto
    · unfold StagedCall.Malformed
      tauto
  | stripedDonate plan kSrc vSrc lanes =>
    refine (checked_keepsCapture fun _ => require_keepsCapture (P := False) fun _ => ?_).trans (not_congr ?_)
    · refine (hostStaged_keepsCapture graph stream _ n).trans (not_congr ?_)
      exact ⟨fun h => absurd h.2.2 (CrossNodeKvStripedPlan.donate_not_throws plan kSrc vSrc lanes _), fun h => h.2.elim⟩
    · tauto

/-- A receive boundary of two elements in a capture that gets a message of one: the call throws,
    and the graph is no longer capturing. -/
theorem short_message_ends_capture :
    ¬ KeepsCapture ((StagedCall.boundary ⟨2, 1, 2, .hostStaged, .recv, 0⟩ 8 none (some 0)).execute false true)
      (⟨⟨fun _ => 0, fun _ => [[7]]⟩, ⟨true, 0, 0, []⟩, .idle ℕ⟩ : Node ℕ) := by
  intro h
  exact absurd (h (by decide)) (by decide)

end VKernels.Comm
