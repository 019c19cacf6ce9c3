import VKernels.Lib.ByteCopies

/-!
# Host calls and streams

What the host references of `comm/` share: contract checks, memory, and the stream queue.

* `expects` — `VK_EXPECTS`; `bind_ok`, `expects_ok` invert a successful validation.
* `Call` — a call may throw, and what it did before throwing stays done.  `Call.exec_bind` and its
  companions run a call step by step; `exec_forEach_ok` and `exec_forEach_error` are the loop rules.
-/

namespace VKernels.Comm

open ByteCopies
open List hiding modify

/-! ## Contract checks -/

/-- `VK_EXPECTS(cond, msg)` throws `invalid_argument` with the text `msg: cond`. -/
def expects (cond : Prop) [Decidable cond] (msg text : String) : Except String Unit :=
  if cond then .ok () else .error (msg ++ ": " ++ text)

lemma bind_ok {α γ : Type} {x : Except String α} {f : α → Except String γ} {r : γ} :
    (x >>= f) = .ok r ↔ ∃ a, x = .ok a ∧ f a = .ok r := by
  cases x with
  | error e => simp [bind, Except.bind]
  | ok a => simp [bind, Except.bind]

lemma expects_ok {α : Type} {cond : Prop} [Decidable cond] {msg text : String} {k : Except String α} {x : α} :
    (expects cond msg text >>= fun _ => k) = .ok x ↔ cond ∧ k = .ok x := by
  unfold expects
  by_cases h : cond <;> simp [h, bind, Except.bind]

lemma expects_of {cond : Prop} [Decidable cond] (h : cond) (msg text : String) :
    expects cond msg text = .ok () := if_pos h

/-- A check at every index below `n`, in order. -/
def expectsAll (n : ℕ) (f : ℕ → Except String Unit) : Except String Unit :=
  (range n).foldlM (fun _ i => f i) ()

lemma expectsAll_of {n : ℕ} {f : ℕ → Except String Unit} (h : ∀ i < n, f i = .ok ()) : expectsAll n f = .ok () := by
  have hlist : ∀ l : List ℕ, (∀ i ∈ l, f i = .ok ()) → l.foldlM (fun _ i => f i) () = .ok () := by
    intro l
    induction l with
    | nil => exact fun _ => rfl
    | cons i l ih =>
      intro hl
      rw [foldlM_cons, hl i (by simp)]
      exact ih fun j hj => hl j (by simp [hj])
  exact hlist _ fun i hi => h i (mem_range.mp hi)

/-- Arithmetic of `size_t` and `uintptr_t`. -/
def wrap (n : ℕ) : ℕ := n % 2 ^ 64

lemma wrap_of_lt {n : ℕ} (h : n < 2 ^ 64) : wrap n = n := Nat.mod_eq_of_lt h

/-- A nullable array, by its elements. -/
abbrev Arr (α : Type) := Option (ℕ → α)

lemma foldlM_invariant {α σ : Type} {f : σ → α → Except String σ} {P : σ → Prop} :
    ∀ {l : List α} {s s' : σ}, (∀ s, ∀ x ∈ l, ∀ s', f s x = .ok s' → P s → P s') → l.foldlM f s = .ok s' → P s → P s'
  | [], s, s', _, h, hP => by
    cases h
    exact hP
  | x :: l, s, s', hstep, h, hP => by
    rw [foldlM_cons] at h
    obtain ⟨s₁, h₁, h₂⟩ := bind_ok.mp h
    have hP₁ := hstep s x (by simp) s₁ h₁ hP
    exact foldlM_invariant (fun s y hy => hstep s y (by simp [hy])) h₂ hP₁

/-! ## Calls -/

instance nontrivial_uint8 : Nontrivial UInt8 := ⟨0, 1, by decide⟩

/-- Memory, and the stream's queue of closures (`Stream::submit` appends, one worker pops in
    order). -/
structure Host where
  mem : Mem UInt8
  queue : List (Mem UInt8 → Mem UInt8)

abbrev Call := ExceptT String (StateM Host) Unit

def exec (c : Call) (h : Host) : Except String Unit × Host := c.run.run h

/-- A check inside a call. -/
def check (x : Except String Unit) : Call := ExceptT.mk (pure x)

/-- Memory changes made by the calling thread. -/
def update (f : Mem UInt8 → Mem UInt8) : Call := modify fun h => { h with mem := f h.mem }

def copies (cs : List Copy) : Call := update (runAll cs)

/-- `stream->submit(task)`. -/
def submit (task : Mem UInt8 → Mem UInt8) : Call :=
  modify fun h => { h with queue := h.queue ++ [task] }

lemma exec_bind (c : Call) (k : Unit → Call) (h : Host) : exec (c >>= k) h =
    match exec c h with
    | (.ok (), h') => exec (k ()) h'
    | (.error e, h') => (.error e, h') := by
  show ExceptT.bind c k h = _
  unfold ExceptT.bind ExceptT.mk exec
  show (match c h with | (a, h') => ExceptT.bindCont k a h') = _
  rcases hc : c h with ⟨_ | _, h'⟩
  · simp only [ExceptT.run, StateT.run, hc]
    rfl
  · simp only [ExceptT.run, StateT.run, hc]
    rfl

@[simp] lemma exec_pure (h : Host) : exec (pure ()) h = (.ok (), h) := rfl

@[simp] lemma exec_check (x : Except String Unit) (h : Host) : exec (check x) h = (x, h) := rfl

lemma exec_checked {x : Except String Unit} (hx : x = .ok ()) (c : Call) (h : Host) :
    exec (do check x; c) h = exec c h := by
  rw [exec_bind, exec_check, hx]

@[simp] lemma exec_update (f : Mem UInt8 → Mem UInt8) (h : Host) :
    exec (update f) h = (.ok (), { h with mem := f h.mem }) := rfl

@[simp] lemma exec_copies (cs : List Copy) (h : Host) :
    exec (copies cs) h = (.ok (), { h with mem := runAll cs h.mem }) := rfl

@[simp] lemma exec_submit (t : Mem UInt8 → Mem UInt8) (h : Host) :
    exec (submit t) h = (.ok (), { h with queue := h.queue ++ [t] }) := rfl

/-- A `for` loop. -/
def forEach {α : Type} : List α → (α → Call) → Call
  | [], _ => pure ()
  | i :: l, body => do
      body i
      forEach l body

lemma exec_forEach_ok {α : Type} {body : α → Call} {g : α → Host → Host} : ∀ {l : List α},
    (∀ i ∈ l, ∀ h, exec (body i) h = (.ok (), g i h)) → ∀ h : Host,
      exec (forEach l body) h = (.ok (), l.foldl (fun h i => g i h) h)
  | [], _, _ => rfl
  | i :: l, hb, h => by
    rw [forEach, exec_bind, hb i (by simp)]
    exact exec_forEach_ok (fun j hj => hb j (by simp [hj])) _

lemma exec_forEach_error {α : Type} {body : α → Call} {g : α → Host → Host} {i : α} {e : String}
    (hi : ∀ h, exec (body i) h = (.error e, h)) (rest : List α) : ∀ {l : List α},
    (∀ j ∈ l, ∀ h, exec (body j) h = (.ok (), g j h)) → ∀ h : Host,
      exec (forEach (l ++ i :: rest) body) h = (.error e, l.foldl (fun h j => g j h) h)
  | [], _, h => by
    rw [nil_append, forEach, exec_bind, hi]
    rfl
  | j :: l, hb, h => by
    rw [cons_append, forEach, exec_bind, hb j (by simp)]
    exact exec_forEach_error hi rest (fun k hk => hb k (by simp [hk])) _

section

variable {guard : ℕ → Except String Unit} {act : ℕ → Call} {g : ℕ → Host → Host}

/-- A loop of checked rounds whose checks all pass. -/
lemma exec_guarded_ok (hact : ∀ i h, exec (act i) h = (.ok (), g i h)) {l : List ℕ}
    (hok : ∀ i ∈ l, guard i = .ok ()) (h : Host) :
    exec (forEach l fun i => do check (guard i); act i) h =
      (.ok (), l.foldl (fun h i => g i h) h) := by
  refine exec_forEach_ok (fun i hi h => ?_) h
  rw [exec_bind, exec_check, hok i hi]
  exact hact i h

/-- A loop of checked rounds that throws at `i`. -/
lemma exec_guarded_error (hact : ∀ i h, exec (act i) h = (.ok (), g i h)) {l : List ℕ}
    (hok : ∀ i ∈ l, guard i = .ok ()) {i : ℕ} {e : String} (he : guard i = .error e)
    (rest : List ℕ) (h : Host) :
    exec (forEach (l ++ i :: rest) fun i => do check (guard i); act i) h =
      (.error e, l.foldl (fun h i => g i h) h) := by
  refine exec_forEach_error (fun h => ?_) rest (fun j hj h => ?_) h
  · rw [exec_bind, exec_check, he]
  · rw [exec_bind, exec_check, hok j hj]
    exact hact j h

end

lemma foldl_copies {α : Type} (cs : α → List Copy) : ∀ (l : List α) (h : Host),
    l.foldl (fun h i => { h with mem := runAll (cs i) h.mem }) h =
      { h with mem := runAll (l.flatMap cs) h.mem }
  | [], _ => rfl
  | i :: l, h => by
    rw [foldl_cons, foldl_copies, flatMap_cons, runAll_append]

lemma foldl_submit {α : Type} (t : α → Mem UInt8 → Mem UInt8) : ∀ (l : List α) (h : Host),
    l.foldl (fun h i => { h with queue := h.queue ++ [t i] }) h =
      { h with queue := h.queue ++ l.map t }
  | [], h => by simp
  | i :: l, h => by
    rw [foldl_cons, foldl_submit, map_cons, append_assoc]
    rfl

/-- `Stream::wait`: the queued tasks have run in order. -/
def Host.wait (h : Host) : Host := ⟨h.queue.foldl (fun m t => t m) h.mem, []⟩

/-- The memory after the call and a wait on an initially idle stream; `none` when it throws. -/
def finish (c : Call) (m : Mem UInt8) : Option (Mem UInt8) :=
  match exec c ⟨m, []⟩ with
  | (.ok (), h) => some h.wait.mem
  | (.error _, _) => none

/-- A throwing call leaves the memory outside `S`, and the queue, as they were. -/
def FailsAtomically (S : ℕ → Prop) (c : Call) : Prop :=
  ∀ (h h' : Host) (e : String), exec c h = (.error e, h') →
    EqOff S h'.mem h.mem ∧ h'.queue = h.queue

lemma failsAtomically_of_exec {S : ℕ → Prop} {c : Call} {r : Host → Except String Unit × Host}
    (hc : ∀ h, exec c h = r h) (hr : ∀ h, (r h).1 = .ok () ∨
      EqOff S (r h).2.mem h.mem ∧ (r h).2.queue = h.queue) : FailsAtomically S c := by
  intro h h' e hrun
  rw [hc h] at hrun
  rcases hr h with hok | hsame
  · rw [hrun] at hok
    cases hok
  · rwa [hrun] at hsame

lemma finish_of_exec {c : Call} {m : Mem UInt8} {h : Host} (hc : exec c ⟨m, []⟩ = (.ok (), h)) :
    finish c m = some (h.queue.foldl (fun m t => t m) h.mem) := by
  unfold finish
  rw [hc]
  rfl

/-- Several calls, each waited for. -/
def finishAll : List Call → Mem UInt8 → Option (Mem UInt8)
  | [], m => some m
  | c :: cs, m => (finish c m).bind (finishAll cs)

lemma finishAll_implements {α : Type} {S : ℕ → Prop} {call : α → Call} {cs : α → List Copy} :
    ∀ {l : List α}, (∀ i ∈ l, ∃ f, (∀ m, finish (call i) m = some (f m)) ∧ Implements S f (cs i)) →
      ∃ f, (∀ m, finishAll (l.map call) m = some (f m)) ∧ Implements S f (l.flatMap cs)
  | [], _ => ⟨id, fun _ => rfl, fun _ _ h => h⟩
  | i :: l, h => by
    obtain ⟨f, hf, himp⟩ := h i (by simp)
    obtain ⟨g, hg, himp'⟩ := finishAll_implements (l := l) fun j hj => h j (by simp [hj])
    refine ⟨fun m => g (f m), fun m => ?_, fun m m' hm => ?_⟩
    · show (finish (call i) m).bind _ = _
      rw [hf]
      exact hg (f m)
    · rw [flatMap_cons, runAll_append]
      exact himp' _ _ (himp m m' hm)

lemma finishAll_append (cs ds : List Call) (m : Mem UInt8) :
    finishAll (cs ++ ds) m = (finishAll cs m).bind (finishAll ds) := by
  induction cs generalizing m with
  | nil => rfl
  | cons c cs ih =>
    show (finish c m).bind (finishAll (cs ++ ds)) = ((finish c m).bind (finishAll cs)).bind _
    cases finish c m with
    | none => rfl
    | some m' => exact ih m'

end VKernels.Comm
