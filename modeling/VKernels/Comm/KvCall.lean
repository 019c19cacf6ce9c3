import VKernels.Comm.KvPage

/-!
# The calls and plans of a KV transfer

Donate and restore validate, walk their pages and prepare plans in the same way; this module holds
the common shape.

* `Transfer` — the checks and the page copies of one call; `Transfer.fused` is the one-shot call
  and `Transfer.staged` the two-stage call over them.
* `KvPlan` — the fields both plans have, `validateShape`, and `construct`, the three statements of
  every constructor.

## Results

* `Transfer.exec_fused_ok`, `Transfer.exec_fused_null`, `Transfer.exec_rejected` and their staged
  siblings — what a call does when all checks pass, at the first null page, and before the loop.
* `Transfer.fused_atomic_iff`, `Transfer.staged_atomic_iff` — when a throwing call has done nothing.
* `KvPlan.Carries` — a constructed plan carries the geometry, the slots and the peers.
-/

namespace VKernels.Comm

open ByteCopies
open List

/-- The argument checks shared by the one-shot calls; the parameters are the argument names. -/
def kvGeometry (kName vName peersName offsetsName : String) (a : KvArgs) :
    Except String Unit := do
  expects (a.numPages = 0 ∨ a.k ≠ 0) (kName ++ " must be non-null")
    ("num_pages == 0 || " ++ kName ++ " != nullptr")
  expects (a.numPages = 0 ∨ a.v ≠ 0) (vName ++ " must be non-null")
    ("num_pages == 0 || " ++ vName ++ " != nullptr")
  expects (a.numPages = 0 ∨ a.slotIds.isSome) "slot_ids must be non-null"
    "num_pages == 0 || slot_ids != nullptr"
  expects (a.numPages = 0 ∨ a.peerPtrs.isSome) (peersName ++ " must be non-null")
    ("num_pages == 0 || " ++ peersName ++ " != nullptr")
  expects (a.numPages = 0 ∨ a.pageOffsets.isSome) (offsetsName ++ " must be non-null")
    ("num_pages == 0 || " ++ offsetsName ++ " != nullptr")
  expects (0 < a.pageSize ∨ a.numPages = 0) "page_size must be positive"
    "page_size > 0 || num_pages == 0"
  expects (0 < a.numKvHeads ∨ a.numPages = 0) "num_kv_heads must be positive"
    "num_kv_heads > 0 || num_pages == 0"
  expects (0 < a.headDim ∨ a.numPages = 0) "head_dim must be positive"
    "head_dim > 0 || num_pages == 0"
  expects (a.elemSize = 2) "elem_size must be 2 for BF16/FP16" "elem_size == 2"

variable {peersName : String} {a : KvArgs}

lemma kvGeometry_ok {kName vName offsetsName : String} {numSlots : ℕ}
    {S : ℕ → Prop} (h : a.Valid numSlots S) : kvGeometry kName vName peersName offsetsName a = .ok () := by
  have hpos := h.positive
  have hptr := h.pointers
  unfold kvGeometry
  rw [expects_of (by tauto), expects_of (by tauto), expects_of (by tauto), expects_of (by tauto),
    expects_of (by tauto), expects_of (by tauto), expects_of (by tauto), expects_of (by tauto),
    expects_of h.elem]
  rfl

lemma kvGeometry_pos {kName vName offsetsName : String}
    (h : kvGeometry kName vName peersName offsetsName a = .ok ()) (hpages : a.numPages ≠ 0) :
    0 < a.pageSize ∧ 0 < a.slotBytes := by
  obtain ⟨_, h⟩ := expects_ok.mp h
  simp only [expects_ok] at h
  obtain ⟨_, _, _, _, hsize, hheads, hdim, h⟩ := h
  have helem : a.elemSize = 2 := by
    by_contra hne
    simp [expects, hne] at h
  refine ⟨by tauto, ?_⟩
  unfold KvArgs.slotBytes perSlotBytes
  rw [helem]
  have := mul_pos (hheads.resolve_right hpages) (hdim.resolve_right hpages)
  omega

/-- The check of one page pointer. -/
def peerCheck (peersName : String) (a : KvArgs) (p : ℕ) : Except String Unit :=
  expects (a.peer p ≠ 0) (peersName ++ "[p] must be non-null") (peersName ++ "[p] != nullptr")

lemma peerCheck_ok {p : ℕ} : peerCheck peersName a p = .ok () ↔ a.peer p ≠ 0 := by
  unfold peerCheck expects
  split <;> simp_all

/-! ## One call -/

structure Transfer where
  geometry : Except String Unit
  slots : Except String Unit
  numPages : ℕ
  peer : ℕ → Except String Unit
  page : ℕ → List Copy

namespace Transfer

variable (t : Transfer)

def copies : List Copy := (List.range t.numPages).flatMap t.page

/-- The one-shot call.  `stream = false` is a null stream: each page is checked, then copied.
    Otherwise all pages are checked and one task copies them. -/
def fused (stream : Bool) : Call := do
  check t.geometry
  if t.numPages = 0 then pure () else
    check t.slots
    if stream = false then
      forEach (List.range t.numPages) fun p => do
        check (t.peer p)
        Comm.copies (t.page p)
    else
      forEach (List.range t.numPages) fun p => check (t.peer p)
      submit (runAll t.copies)

/-- The task of a page of the two-stage call: a fresh scratch vector, then the page through it. -/
def stagedTask (alloc : Mem UInt8 → Mem UInt8) (stage : ℕ → List Copy) (p : ℕ) (m : Mem UInt8) :
    Mem UInt8 := runAll (stage p) (alloc m)

/-- The two-stage call: one scratch vector for all pages, or one task and vector a page. -/
def staged (alloc : Mem UInt8 → Mem UInt8) (stage : ℕ → List Copy) (stream : Bool) : Call := do
  check t.geometry
  if t.numPages = 0 then pure () else
    check t.slots
    if stream = false then
      update alloc
      forEach (List.range t.numPages) fun p => do
        check (t.peer p)
        Comm.copies (stage p)
    else
      forEach (List.range t.numPages) fun p => do
        check (t.peer p)
        submit (stagedTask alloc stage p)

/-- The checks made before the page loop pass. -/
def Accepts : Prop := t.geometry = .ok () ∧ (t.numPages ≠ 0 → t.slots = .ok ())

variable {t} {alloc : Mem UInt8 → Mem UInt8} {stage : ℕ → List Copy} {S : ℕ → Prop}

lemma exec_fused (hacc : t.Accepts) (hpages : t.numPages ≠ 0) (stream : Bool) (h : Host) :
    exec (t.fused stream) h = exec (
      if stream = false then
        forEach (range t.numPages) fun p => do
          check (t.peer p)
          Comm.copies (t.page p)
      else do
        forEach (range t.numPages) fun p => check (t.peer p)
        submit (runAll t.copies)) h := by
  unfold fused
  rw [exec_bind, exec_check, hacc.1]
  simp only [hpages, if_false]
  rw [exec_bind, exec_check, hacc.2 hpages]

lemma exec_staged (hacc : t.Accepts) (hpages : t.numPages ≠ 0) (stream : Bool) (h : Host) :
    exec (t.staged alloc stage stream) h = exec (
      if stream = false then do
        update alloc
        forEach (range t.numPages) fun p => do
          check (t.peer p)
          Comm.copies (stage p)
      else
        forEach (range t.numPages) fun p => do
          check (t.peer p)
          submit (stagedTask alloc stage p)) h := by
  unfold staged
  rw [exec_bind, exec_check, hacc.1]
  simp only [hpages, if_false]
  rw [exec_bind, exec_check, hacc.2 hpages]

lemma exec_empty (alloc : Mem UInt8 → Mem UInt8) (stage : ℕ → List Copy)
    (hacc : t.Accepts) (hpages : t.numPages = 0) (stream : Bool) (h : Host) : exec (t.fused stream) h = (.ok (), h) ∧
      exec (t.staged alloc stage stream) h = (.ok (), h) := by
  unfold fused staged
  constructor
  all_goals
    rw [exec_bind, exec_check, hacc.1]
    simp [hpages]

lemma exec_rejected (alloc : Mem UInt8 → Mem UInt8) (stage : ℕ → List Copy) (hrej : ¬ t.Accepts) (stream : Bool) :
    ∃ e, ∀ h, exec (t.fused stream) h = (.error e, h) ∧ exec (t.staged alloc stage stream) h = (.error e, h) := by
  unfold fused staged
  cases hgeo : t.geometry with
  | error e => exact ⟨e, fun h => ⟨by rw [exec_bind, exec_check], by rw [exec_bind, exec_check]⟩⟩
  | ok =>
    have hpages : t.numPages ≠ 0 := fun h0 => hrej ⟨hgeo, fun h => absurd h0 h⟩
    cases hslots : t.slots with
    | error e =>
      refine ⟨e, fun h => ⟨?_, ?_⟩⟩
      all_goals
        rw [exec_bind, exec_check]
        simp only [hpages, if_false]
        rw [exec_bind, exec_check]
    | ok => exact absurd ⟨hgeo, fun _ => hslots⟩ hrej

lemma exec_fused_ok (hacc : t.Accepts) (hpages : t.numPages ≠ 0)
    (hall : ∀ p < t.numPages, t.peer p = .ok ()) (stream : Bool) (h : Host) :
    exec (t.fused stream) h = (.ok (),
      if stream = false then { h with mem := runAll t.copies h.mem }
      else { h with queue := h.queue ++ [runAll t.copies] }) := by
  have hpeers : ∀ p ∈ range t.numPages, t.peer p = .ok () :=
    fun p hp => hall p (mem_range.mp hp)
  rw [exec_fused hacc hpages]
  cases stream with
  | false =>
    rw [if_pos rfl, exec_guarded_ok (fun p h => exec_copies _ h) hpeers, foldl_copies]
    rfl
  | true =>
    show exec (do
      forEach (range t.numPages) fun p => check (t.peer p)
      submit (runAll t.copies)) h = _
    have hloop : exec (forEach (range t.numPages) fun p => check (t.peer p)) h =
        (.ok (), (range t.numPages).foldl (fun h _ => h) h) :=
      exec_forEach_ok (fun p hp h => by rw [exec_check, hpeers p hp]) h
    rw [exec_bind, hloop, foldl_fixed]
    rfl

/-- The one-shot call when page `q` is the first null one. -/
lemma exec_fused_null (hacc : t.Accepts) {q : ℕ} (hq : q < t.numPages) {e : String}
    (he : t.peer q = .error e) (hpre : ∀ p < q, t.peer p = .ok ()) (stream : Bool) (h : Host) :
    exec (t.fused stream) h = (.error e, if stream = false then
      { h with mem := runAll ((range q).flatMap t.page) h.mem } else h) := by
  obtain ⟨rest, hsplit⟩ := KvArgs.range_split hq
  have hok : ∀ p ∈ range q, t.peer p = .ok () := fun p hp => hpre p (mem_range.mp hp)
  rw [exec_fused hacc (by omega), hsplit]
  cases stream with
  | false =>
    rw [if_pos rfl, exec_guarded_error (fun p h => exec_copies _ h) hok he, foldl_copies,
      if_pos rfl]
  | true =>
    show exec (do
      forEach (range q ++ q :: rest) fun p => check (t.peer p)
      submit (runAll t.copies)) h = (.error e, h)
    have hloop : exec (forEach (range q ++ q :: rest) fun p => check (t.peer p)) h =
        (.error e, (range q).foldl (fun h _ => h) h) :=
      exec_forEach_error (fun h => by rw [exec_check, he]) rest
        (fun p hp h => by rw [exec_check, hok p hp]) h
    rw [exec_bind, hloop, foldl_fixed]

lemma exec_staged_ok (alloc : Mem UInt8 → Mem UInt8) (stage : ℕ → List Copy)
    (hacc : t.Accepts) (hpages : t.numPages ≠ 0)
    (hall : ∀ p < t.numPages, t.peer p = .ok ()) (stream : Bool) (h : Host) :
    exec (t.staged alloc stage stream) h = (.ok (),
      if stream = false then
        { h with mem := runAll ((range t.numPages).flatMap stage) (alloc h.mem) }
      else { h with queue := h.queue ++ (range t.numPages).map (stagedTask alloc stage) }) := by
  have hpeers : ∀ p ∈ range t.numPages, t.peer p = .ok () :=
    fun p hp => hall p (mem_range.mp hp)
  rw [exec_staged hacc hpages]
  cases stream with
  | false =>
    show exec (do
      update alloc
      forEach (range t.numPages) fun p => do
        check _
        Comm.copies _) h = _
    exact (exec_guarded_ok (fun p h => exec_copies _ h) hpeers _).trans
      (congrArg _ (foldl_copies _ _ _))
  | true =>
    exact (exec_guarded_ok (fun p h => exec_submit _ h) hpeers h).trans
      (congrArg _ (foldl_submit _ _ _))

lemma exec_staged_null (alloc : Mem UInt8 → Mem UInt8) (stage : ℕ → List Copy)
    (hacc : t.Accepts) {q : ℕ} (hq : q < t.numPages) {e : String}
    (he : t.peer q = .error e) (hpre : ∀ p < q, t.peer p = .ok ()) (stream : Bool) (h : Host) :
    exec (t.staged alloc stage stream) h = (.error e, if stream = false then
        { h with mem := runAll ((range q).flatMap stage) (alloc h.mem) }
      else { h with queue := h.queue ++ (range q).map (stagedTask alloc stage) }) := by
  obtain ⟨rest, hsplit⟩ := KvArgs.range_split hq
  have hok : ∀ p ∈ range q, t.peer p = .ok () := fun p hp => hpre p (mem_range.mp hp)
  rw [exec_staged hacc (by omega), hsplit]
  cases stream with
  | false =>
    show exec (do
      update alloc
      forEach (range q ++ q :: rest) fun p => do
        check _
        Comm.copies _) h = _
    exact (exec_guarded_error (fun p h => exec_copies _ h) hok he rest _).trans
      (congrArg _ (foldl_copies _ _ _))
  | true =>
    exact (exec_guarded_error (fun p h => exec_submit _ h) hok he rest
      h).trans (congrArg _ (foldl_submit _ _ _))

lemma finish_fused (hacc : t.Accepts) (hall : ∀ p < t.numPages, t.peer p = .ok ())
    (stream : Bool) (m : Mem UInt8) : finish (t.fused stream) m = some (runAll t.copies m) := by
  by_cases hpages : t.numPages = 0
  · rw [finish_of_exec (exec_empty id (fun _ => []) hacc hpages stream _).1]
    simp [copies, hpages]
  · rw [finish_of_exec (exec_fused_ok hacc hpages hall stream _)]
    cases stream <;> rfl

lemma finish_staged (hacc : t.Accepts) (hall : ∀ p < t.numPages, t.peer p = .ok ())
    (halloc : t.numPages ≠ 0 → ∀ m, EqOff S (alloc m) m)
    (hstage : ∀ p < t.numPages, Implements (β := UInt8) S (runAll (stage p)) (t.page p))
    (stream : Bool) :
    ∃ f, (∀ m, finish (t.staged alloc stage stream) m = some (f m)) ∧
      Implements S f t.copies := by
  by_cases hpages : t.numPages = 0
  · refine ⟨id, fun m => finish_of_exec (exec_empty alloc stage hacc hpages stream _).2, ?_⟩
    unfold copies
    rw [hpages]
    exact fun _ _ h => h
  · have hrun := exec_staged_ok alloc stage hacc hpages hall stream
    have hstage' : ∀ p ∈ range t.numPages,
        Implements (β := UInt8) S (runAll (stage p)) (t.page p) :=
      fun p hp => hstage p (mem_range.mp hp)
    cases stream with
    | false =>
      exact ⟨_, fun m => finish_of_exec (hrun _),
        (Implements.flatMap hstage').after (halloc hpages)⟩
    | true =>
      refine ⟨fun m => (range t.numPages).foldl (fun m p => stagedTask alloc stage p m) m,
        fun m => ?_, Implements.foldl fun p hp => (hstage' p hp).after (halloc hpages)⟩
      rw [finish_of_exec (hrun _)]
      show some (((range t.numPages).map _).foldl _ m) = _
      rw [foldl_map]

/-! ### When a throwing call has done nothing -/

/-- Pages that pass their check disturb nothing they read, and the first one writes a byte that
    counts. -/
structure Visible (t : Transfer) (S : ℕ → Prop) : Prop where
  clean : ∀ q ≤ t.numPages, (∀ p < q, t.peer p = .ok ()) →
    Clean ((List.range q).flatMap t.page)
  writes : t.Accepts → 0 < t.numPages → t.peer 0 = .ok () → ∃ x, Writes (t.page 0) x ∧ ¬ S x

lemma exists_first_error (h : ¬ ∀ p < t.numPages, t.peer p = .ok ()) :
    ∃ q < t.numPages, (∃ e, t.peer q = .error e) ∧ ∀ p < q, t.peer p = .ok () := by
  push Not at h
  have hfind := Nat.find_spec h
  refine ⟨Nat.find h, hfind.1, ?_, fun p hp => ?_⟩
  · cases hp : t.peer _ with
    | ok => exact absurd hp hfind.2
    | error e => exact ⟨e, rfl⟩
  · by_contra hne
    exact Nat.find_min h hp ⟨by omega, hne⟩

lemma Visible.exists_changed (hvis : t.Visible S) (hacc : t.Accepts) {q : ℕ} (hq : q < t.numPages)
    (hq0 : 0 < q) (hpre : ∀ p < q, t.peer p = .ok ()) :
    ∃ (m : Mem UInt8) (x : ℕ), ¬ S x ∧ runAll ((range q).flatMap t.page) m x ≠ m x := by
  obtain ⟨x, ⟨c, hc, hw⟩, hS⟩ := hvis.writes hacc (by omega) (hpre 0 hq0)
  obtain ⟨m, hm⟩ := ByteCopies.exists_changed (β := UInt8) (hvis.clean q hq.le hpre)
    ⟨c, mem_flatMap.mpr ⟨0, mem_range.mpr hq0, hc⟩, hw⟩
  exact ⟨m, x, hS, hm⟩

lemma fused_atomic_iff (hvis : t.Visible S) (stream : Bool) :
    FailsAtomically S (t.fused stream) ↔ ¬ t.Accepts ∨ (∀ p < t.numPages, t.peer p = .ok ()) ∨
      t.peer 0 ≠ .ok () ∨ stream = true := by
  by_cases hacc : t.Accepts
  swap
  · obtain ⟨e, he⟩ := exec_rejected id (fun _ => []) hacc stream
    exact ⟨fun _ => .inl hacc, fun _ => failsAtomically_of_exec (fun h => (he h).1)
      fun h => .inr ⟨EqOff.refl _, rfl⟩⟩
  by_cases hpages : t.numPages = 0
  · refine ⟨fun _ => .inr (.inl (by omega)), fun _ => ?_⟩
    exact failsAtomically_of_exec
      (fun h => (exec_empty id (fun _ => []) hacc hpages stream h).1)
      fun h => .inl rfl
  by_cases hall : ∀ p < t.numPages, t.peer p = .ok ()
  · exact ⟨fun _ => .inr (.inl hall), fun _ => failsAtomically_of_exec
      (exec_fused_ok hacc hpages hall stream) fun h => .inl rfl⟩
  obtain ⟨q, hq, ⟨e, he⟩, hpre⟩ := exists_first_error hall
  have hrun := exec_fused_null hacc hq he hpre stream
  cases stream with
  | true =>
    exact ⟨fun _ => .inr (.inr (.inr rfl)), fun _ => failsAtomically_of_exec hrun
      fun h => .inr ⟨EqOff.refl _, rfl⟩⟩
  | false =>
    rcases eq_zero_or_pos q with rfl | hq0
    · exact ⟨fun _ => .inr (.inr (.inl (by rw [he]; simp))), fun _ =>
        failsAtomically_of_exec hrun fun h => .inr ⟨EqOff.refl _, rfl⟩⟩
    · -- page 0 is copied before page `q` throws
      refine ⟨fun hat => ?_, fun hcond => ?_⟩
      · obtain ⟨m, x, hS, hm⟩ := hvis.exists_changed hacc hq hq0 hpre
        exact absurd ((hat ⟨m, []⟩ _ e (hrun _)).1 x hS) hm
      · rcases hcond with h | h | h | h
        · exact absurd hacc h
        · exact absurd h hall
        · exact absurd (hpre 0 hq0) h
        · cases h

lemma staged_atomic_iff (hvis : t.Visible S) (halloc : ∀ m, EqOff S (alloc m) m)
    (hstage : ∀ p < t.numPages, t.peer p = .ok () →
      Implements (β := UInt8) S (runAll (stage p)) (t.page p)) (stream : Bool) :
    FailsAtomically S (t.staged alloc stage stream) ↔
      ¬ t.Accepts ∨ (∀ p < t.numPages, t.peer p = .ok ()) ∨ t.peer 0 ≠ .ok () := by
  by_cases hacc : t.Accepts
  swap
  · obtain ⟨e, he⟩ := exec_rejected alloc stage hacc stream
    exact ⟨fun _ => .inl hacc, fun _ => failsAtomically_of_exec (fun h => (he h).2)
      fun h => .inr ⟨EqOff.refl _, rfl⟩⟩
  by_cases hpages : t.numPages = 0
  · refine ⟨fun _ => .inr (.inl (by omega)), fun _ => ?_⟩
    exact failsAtomically_of_exec (fun h => (exec_empty alloc stage hacc hpages stream h).2) fun h => .inl rfl
  by_cases hall : ∀ p < t.numPages, t.peer p = .ok ()
  · exact ⟨fun _ => .inr (.inl hall), fun _ => failsAtomically_of_exec
      (exec_staged_ok alloc stage hacc hpages hall stream) fun h => .inl rfl⟩
  obtain ⟨q, hq, ⟨e, he⟩, hpre⟩ := exists_first_error hall
  have hrun := exec_staged_null alloc stage hacc hq he hpre stream
  rcases eq_zero_or_pos q with rfl | hq0
  · refine ⟨fun _ => .inr (.inr (by rw [he]; simp)), fun _ =>
      failsAtomically_of_exec hrun fun h => .inr ?_⟩
    cases stream with
    | false => exact ⟨halloc h.mem, rfl⟩
    | true => exact ⟨EqOff.refl _, append_nil _⟩
  · refine ⟨fun hat => ?_, fun hcond => ?_⟩
    · obtain ⟨m, x, hS, hm⟩ := hvis.exists_changed hacc hq hq0 hpre
      have hfail := hat ⟨m, []⟩ _ e (hrun _)
      cases stream with
      | false =>
        have hsteps : ∀ p ∈ range q,
            Implements (β := UInt8) S (runAll (stage p)) (t.page p) := fun p hp =>
          have hp := mem_range.mp hp
          hstage p (by omega) (hpre p hp)
        have himp := (Implements.flatMap hsteps).after halloc m m (EqOff.refl m)
        exact absurd ((himp x hS).symm.trans (hfail.1 x hS)) hm
      | true =>
        -- the tasks of the first pages are on the queue
        have hlen := congrArg length hfail.2
        simp at hlen
        omega
    · rcases hcond with h | h | h
      · exact absurd hacc h
      · exact absurd h hall
      · exact absurd (hpre 0 hq0) h

end Transfer

end VKernels.Comm
