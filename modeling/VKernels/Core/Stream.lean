import Mathlib.Data.List.Basic

/-!
# Streams

`Stream` of `core/stream.cpp`: a queue of tasks, one worker thread, and the first failure since the
last `wait`.  A step is what happens under one lock, or between two; what a task does while it runs
is left to the owner of the stream, which keeps how far it got in `B`.

* `StreamImpl` — the state; `submit`, `pop`, `advance`, `finish`, `settle`, `wait` — its steps.
* `Serving.pop`, … — every step keeps it; `Serving.wait` — `wait` returns only when every task has
  run, with the first failure, and leaves a stream that is as good as new.
-/

namespace VKernels.Core

open List

/-- Where the worker's loop is. -/
inductive Worker (T B E : Type) where
  /-- It waits for work. -/
  | idle
  /-- In `task()`, as far as `b`. -/
  | running (t : T) (b : B)
  /-- `task()` returned, or threw. -/
  | returned (outcome : Option E)
  /-- The failure is stored and the captures are destroyed. -/
  | released

structure StreamImpl (T B E : Type) where
  queue : List T
  worker : Worker T B E
  outstanding : ℕ
  total : ℕ
  failure : Option E

namespace StreamImpl

variable {T B E : Type}

def rested (total : ℕ) : StreamImpl T B E := ⟨[], .idle, 0, total, none⟩

def submit (t : T) (s : StreamImpl T B E) : StreamImpl T B E :=
  { s with queue := s.queue ++ [t], outstanding := s.outstanding + 1, total := s.total + 1 }

/-- The worker takes the next task. -/
def pop (b : B) (s : StreamImpl T B E) : Option (StreamImpl T B E) :=
  match s.queue with
  | [] => none
  | t :: queue => some { s with queue := queue, worker := .running t b }

/-- The task goes on. -/
def advance (t : T) (b : B) (s : StreamImpl T B E) : StreamImpl T B E :=
  { s with worker := .running t b }

/-- The task returns, or throws. -/
def finish (outcome : Option E) (s : StreamImpl T B E) : StreamImpl T B E :=
  { s with worker := .returned outcome }

/-- The `catch` block: `if (!failure) failure = std::current_exception()`. -/
def capture (outcome : Option E) (s : StreamImpl T B E) : StreamImpl T B E :=
  { s with worker := .released, failure := s.failure.or outcome }

/-- `--outstanding`, and the loop starts over. -/
def complete (s : StreamImpl T B E) : StreamImpl T B E :=
  { s with worker := .idle, outstanding := s.outstanding - 1 }

/-- `wait` blocks until nothing is outstanding, and then takes the failure. -/
def wait (s : StreamImpl T B E) : Option (Option E × StreamImpl T B E) :=
  if s.outstanding = 0 then some (s.failure, { s with failure := none }) else none

/-! ## What a stream has done since the last `wait` -/

def firstFailure (outcomes : List (Option E)) : Option E := outcomes.findSome? id

@[simp] lemma firstFailure_append (os os' : List (Option E)) :
    firstFailure (os ++ os') = (firstFailure os).or (firstFailure os') := by
  simp [firstFailure, findSome?_append]

@[simp] lemma firstFailure_singleton (o : Option E) : firstFailure [o] = o := by
  cases o <;> rfl

/-- The tasks `submitted` since the last `wait`, the outcomes of those that ran, and where the
    worker is with them. -/
def Serving (s : StreamImpl T B E) (submitted : List T) (outcomes : List (Option E)) : Prop :=
  outcomes.length ≤ submitted.length ∧
  match s.worker with
  | .idle => submitted.drop outcomes.length = s.queue ∧ s.outstanding = s.queue.length ∧
      s.failure = firstFailure outcomes
  | .running t _ => submitted.drop outcomes.length = t :: s.queue ∧
      s.outstanding = s.queue.length + 1 ∧ s.failure = firstFailure outcomes
  | .returned o => submitted.drop outcomes.length = s.queue ∧
      s.outstanding = s.queue.length + 1 ∧ s.failure.or o = firstFailure outcomes
  | .released => submitted.drop outcomes.length = s.queue ∧
      s.outstanding = s.queue.length + 1 ∧ s.failure = firstFailure outcomes

variable {s s' : StreamImpl T B E} {submitted : List T} {outcomes : List (Option E)}

lemma serving_rested (total : ℕ) : (rested total : StreamImpl T B E).Serving [] [] :=
  ⟨Nat.le_refl 0, rfl, rfl, rfl⟩

section

variable (h : s.Serving submitted outcomes)
include h

lemma Serving.submit (t : T) : (s.submit t).Serving (submitted ++ [t]) outcomes := by
  obtain ⟨hlen, h⟩ := h
  have hdrop : (submitted ++ [t]).drop outcomes.length = submitted.drop outcomes.length ++ [t] :=
    drop_append_of_le_length hlen
  refine ⟨by rw [length_append]; omega, ?_⟩
  unfold StreamImpl.submit
  cases hw : s.worker <;> simp only [hw] at h ⊢ <;> obtain ⟨hqueue, hout, hfail⟩ := h <;>
    exact ⟨hdrop.trans (congrArg (· ++ [t]) hqueue), by rw [hout, length_append]; rfl, hfail⟩

variable {b : B}

lemma Serving.pop (hidle : s.worker = .idle) (hpop : s.pop b = some s') : s'.Serving submitted outcomes ∧
      ∃ t, submitted[outcomes.length]? = some t ∧ s'.worker = .running t b := by
  obtain ⟨hlen, h⟩ := h
  simp only [hidle] at h
  obtain ⟨hqueue, hout, hfail⟩ := h
  unfold StreamImpl.pop at hpop
  cases hq : s.queue with
  | nil => simp [hq] at hpop
  | cons t queue =>
    simp only [hq] at hpop hqueue hout
    cases hpop
    refine ⟨⟨hlen, hqueue, hout, hfail⟩, t, ?_, rfl⟩
    rw [← head?_drop, hqueue]
    rfl

lemma Serving.advance {t : T} (b' : B)
    (hrun : s.worker = .running t b) : (s.advance t b').Serving submitted outcomes := by
  obtain ⟨hlen, h⟩ := h
  simp only [hrun] at h
  exact ⟨hlen, h⟩

/-- The task that runs is the next one in the order of submission. -/
lemma Serving.running {t : T} (hrun : s.worker = .running t b) : submitted[outcomes.length]? = some t := by
  obtain ⟨_, h⟩ := h
  simp only [hrun] at h
  rw [← head?_drop, h.1]
  rfl

lemma Serving.finish {t : T} {b : B}
    (hrun : s.worker = .running t b) (o : Option E) : (s.finish o).Serving submitted (outcomes ++ [o]) := by
  have ht := h.running hrun
  have hlt : outcomes.length < submitted.length := (List.getElem?_eq_some_iff.mp ht).1
  obtain ⟨_, h⟩ := h
  simp only [hrun] at h
  obtain ⟨hqueue, hout, hfail⟩ := h
  have hnext : submitted.drop (outcomes ++ [o]).length = s.queue := by
    rw [length_append, length_singleton, ← drop_drop, hqueue]
    rfl
  refine ⟨by rw [length_append]; exact hlt, hnext, hout, ?_⟩
  rw [firstFailure_append, firstFailure_singleton, ← hfail]
  rfl

lemma Serving.capture {o : Option E} (hret : s.worker = .returned o) : (s.capture o).Serving submitted outcomes := by
  obtain ⟨hlen, h⟩ := h
  simp only [hret] at h
  exact ⟨hlen, h.1, h.2.1, h.2.2⟩

lemma Serving.complete (hrel : s.worker = .released) : s.complete.Serving submitted outcomes := by
  obtain ⟨hlen, h⟩ := h
  simp only [hrel] at h
  obtain ⟨hqueue, hout, hfail⟩ := h
  refine ⟨hlen, hqueue, ?_, hfail⟩
  show s.outstanding - 1 = s.queue.length
  omega

/-- **`wait` returns only when the stream is drained**, reports the first failure, and keeps none
    for the next `wait`. -/
theorem Serving.wait {o : Option E} (hwait : s.wait = some (o, s')) :
    outcomes.length = submitted.length ∧ o = firstFailure outcomes ∧ s' = rested s.total := by
  obtain ⟨hlen, h⟩ := h
  unfold StreamImpl.wait at hwait
  by_cases hzero : s.outstanding = 0
  · rw [if_pos hzero] at hwait
    obtain ⟨rfl, rfl⟩ := Prod.mk.inj (Option.some.inj hwait)
    cases hw : s.worker with
    | idle =>
      simp only [hw] at h
      obtain ⟨hqueue, hout, hfail⟩ := h
      have hempty : s.queue = [] := length_eq_zero_iff.mp (by omega)
      rw [hempty] at hqueue
      have hge := drop_eq_nil_iff.mp hqueue
      refine ⟨by omega, hfail, ?_⟩
      obtain ⟨_, _, _, _, _⟩ := s
      simp only at hw hempty hzero
      rw [hw, hempty, hzero]
      rfl
    | running t b =>
      simp only [hw] at h
      omega
    | returned o =>
      simp only [hw] at h
      omega
    | released =>
      simp only [hw] at h
      omega
  · rw [if_neg hzero] at hwait
    cases hwait

/-- A stream with nothing left to do lets `wait` through; any other can step, or is in a task. -/
lemma Serving.wait_or_busy : (∃ o s', s.wait = some (o, s')) ∨ s.worker ≠ .idle ∨ ∀ b, ∃ s', s.pop b = some s' := by
  obtain ⟨_, h⟩ := h
  cases hw : s.worker with
  | idle =>
    simp only [hw] at h
    cases hq : s.queue with
    | nil =>
      left
      refine ⟨_, _, if_pos ?_⟩
      rw [h.2.1, hq]
      rfl
    | cons t queue => exact .inr (.inr fun b => ⟨_, by unfold StreamImpl.pop; rw [hq]⟩)
  | running t b => exact .inr (.inl (by simp))
  | returned o => exact .inr (.inl (by simp))
  | released => exact .inr (.inl (by simp))

end

end StreamImpl

end VKernels.Core
