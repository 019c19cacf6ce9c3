import VKernels.Core.Stream
import VKernels.Lib.Interleaving
import Mathlib.Data.List.FinRange

/-!
# Overlapped compute and communication

`OverlapExecutor::run` of `comm/overlap.cpp` over the two streams of an executor.  A callback may
return any value or throw any exception, and may do so differently at each call; the allocation of
a task may fail too.

* `State`, `step` — the calling thread and the two workers, one atomic action at a time.

## Results

* `inv_step` — an action keeps the invariant `Inv`; `remaining_step` — and the run comes nearer its
  end.
* `run_contract` — every run, on an executor that any number of runs was made on before.
-/

namespace VKernels.Comm.Overlap

open VKernels.Core Interleaving
open List
open StreamImpl (advance capture complete firstFailure pop rested wait)
open Option (map_eq_some_iff)

variable {E : Type}

/-! ## The executor -/

/-- What the callbacks do, and the failure of a submission. -/
inductive Event (E : Type) where
  | computeStart (i : ℕ)
  | computeFinish (i : ℕ) (r : Except E ℤ)
  | commStart (i : ℕ) (v : ℤ)
  | commFinish (i : ℕ) (r : Except E Unit)
  | submitFailed (e : E)

/-- `Result`. -/
structure Result where
  computeCount : ℕ
  commCount : ℕ

/-- Where the calling thread is in `run`. -/
inductive Caller (E : Type) where
  /-- At the compute task of iteration `i`, or at the end of the loop. -/
  | submitCompute (i : ℕ)
  | submitComm (i : ℕ)
  /-- At `compute_.wait()`, with the failure so far. -/
  | waitCompute (failure : Option E)
  | waitComm (failure : Option E)
  | returned (r : Except E Result)

/-- A compute task is the iteration and whether it called `compute`; a comm task is the iteration
    and the value that it called `comm` with. -/
structure State (E : Type) where
  caller : Caller E
  compute : StreamImpl ℕ Bool E
  comm : StreamImpl ℕ (Option ℤ) E
  promises : ℕ → Option (Except E ℤ)
  log : List (Event E)

/-- The exception of a task that threw. -/
def failureOf {A : Type} : Except E A → Option E
  | .ok _ => none
  | .error e => some e

/-- `run` returns, or rethrows. -/
def report (iters : ℕ) : Option E → Except E Result
  | none => .ok ⟨iters, iters⟩
  | some e => .error e

/-- The next statement of `run`. -/
def callerStep (iters : ℕ) (s : State E) : Option (State E) :=
  match s.caller with
  | .submitCompute i =>
    if i < iters then some { s with compute := s.compute.submit i, caller := .submitComm i }
    else some { s with caller := .waitCompute none }
  | .submitComm i => some { s with comm := s.comm.submit i, caller := .submitCompute (i + 1) }
  | .waitCompute failure =>
    s.compute.wait.map fun p => { s with compute := p.2, caller := .waitComm (failure.or p.1) }
  | .waitComm failure =>
    s.comm.wait.map fun p =>
      { s with comm := p.2, caller := .returned (report iters (failure.or p.1)) }
  | .returned _ => none

/-- A submission throws `e`, which `run` catches before it drains the streams. -/
def submitFails (iters : ℕ) (e : E) (s : State E) : Option (State E) :=
  match s.caller with
  | .submitCompute i =>
    if i < iters then
      some { s with caller := .waitCompute (some e), log := s.log ++ [.submitFailed e] }
    else none
  | .submitComm _ =>
    some { s with caller := .waitCompute (some e), log := s.log ++ [.submitFailed e] }
  | _ => none

/-- The next action of the compute worker; `r` is what `compute` returns or throws when it ends. -/
def computeStep (r : Except E ℤ) (s : State E) : Option (State E) :=
  match s.compute.worker with
  | .idle => (s.compute.pop false).map fun c => { s with compute := c }
  | .running i false =>
    some { s with compute := s.compute.advance i true, log := s.log ++ [.computeStart i] }
  | .running i true =>
    -- `set_value`, or `set_exception` and rethrow
    some { s with
      promises := Function.update s.promises i (some r)
      compute := s.compute.finish (failureOf r)
      log := s.log ++ [.computeFinish i r] }
  | .returned o => some { s with compute := s.compute.capture o }
  | .released => some { s with compute := s.compute.complete }

/-- The next action of the comm worker; `r` is how `comm` ends. -/
def commStep (r : Except E Unit) (s : State E) : Option (State E) :=
  match s.comm.worker with
  | .idle => (s.comm.pop none).map fun c => { s with comm := c }
  | .running i none =>
    -- `ready.get()`
    match s.promises i with
    | none => none
    | some (.error e) => some { s with comm := s.comm.finish (some e) }
    | some (.ok v) =>
      some { s with comm := s.comm.advance i (some v), log := s.log ++ [.commStart i v] }
  | .running i (some _) =>
    some { s with comm := s.comm.finish (failureOf r), log := s.log ++ [.commFinish i r] }
  | .returned o => some { s with comm := s.comm.capture o }
  | .released => some { s with comm := s.comm.complete }

/-- Who acts next, and what the environment answers. -/
inductive Action (E : Type) where
  | caller
  | submitFails (e : E)
  | compute (r : Except E ℤ)
  | comm (r : Except E Unit)

def step (iters : ℕ) : Action E → State E → Option (State E)
  | .caller, s => callerStep iters s
  | .submitFails e, s => submitFails iters e s
  | .compute r, s => computeStep r s
  | .comm r, s => commStep r s

/-- `run` is called on an executor with these streams. -/
def invoke (compute : StreamImpl ℕ Bool E) (comm : StreamImpl ℕ (Option ℤ) E) : State E where
  caller := .submitCompute 0
  compute := compute
  comm := comm
  promises _ := none
  log := []

/-- The streams have seen `a` and `b` tasks, and none is left. -/
def start (a b : ℕ) : State E := invoke (rested a) (rested b)

/-! ## What a run should look like -/

def Event.isCompute : Event E → Bool
  | computeStart _ => true
  | computeFinish _ _ => true
  | _ => false

def Event.isComm : Event E → Bool
  | commStart _ _ => true
  | commFinish _ _ => true
  | _ => false

/-- The calls of `compute`, iteration by iteration, with their results. -/
def computeTrace (results : List (Except E ℤ)) : List (Event E) :=
  results.zipIdx.flatMap fun p => [.computeStart p.2, .computeFinish p.2 p.1]

/-- The calls of `comm`: none for an iteration whose `compute` threw. -/
def commTrace (results : List (Except E ℤ)) (ends : List (Except E Unit)) : List (Event E) :=
  (results.zip ends).zipIdx.flatMap fun p =>
    match p.1.1 with
    | .ok v => [.commStart p.2 v, .commFinish p.2 p.1.2]
    | .error _ => []

def Event.submitError : Event E → Option E
  | submitFailed e => some e
  | _ => none

def Event.computeError : Event E → Option E
  | computeFinish _ r => failureOf r
  | _ => none

def Event.commError : Event E → Option E
  | commFinish _ r => failureOf r
  | _ => none

open Event (commError computeError isComm isCompute submitError)

/-- The failure that `run` is to report: of a submission, else the first of a `compute`, else the
    first of a `comm`. -/
def failureIn (log : List (Event E)) : Option E :=
  (log.findSome? submitError).or
    ((log.findSome? computeError).or (log.findSome? commError))

/-- Nothing queued, nothing running, no failure kept. -/
def Drained {T B : Type} (s : StreamImpl T B E) : Prop :=
  ∃ total, s = rested total

/-- A state without the counters that `submitted()` reports. -/
def forget (s : State E) : State E :=
  { s with compute := { s.compute with total := 0 }, comm := { s.comm with total := 0 } }

/-- What holds in every state of a run of `iters` iterations. -/
structure RunContract (iters : ℕ) (s : State E) : Prop where
  /-- Each stream calls its callbacks in the order of submission, one at a time, and `comm` with
      what `compute` returned. -/
  order : ∃ results ends,
    (s.log.filter isCompute = computeTrace results ∨
      s.log.filter isCompute = computeTrace results ++ [.computeStart results.length]) ∧
    (s.log.filter isComm = commTrace results ends ∨
      ∃ v, results[ends.length]? = some (.ok v) ∧
        s.log.filter isComm = commTrace results ends ++ [.commStart ends.length v])
  /-- `comm` starts after `compute` has finished. -/
  after : ∀ before i v rest, s.log = before ++ .commStart i v :: rest →
    .computeFinish i (.ok v) ∈ before
  /-- Neither stream is wedged. -/
  progress : (∃ r, s.caller = .returned r) ∨ ∃ a s', step iters a s = some s'
  /-- `run` returns when both streams are drained, and every task has run. -/
  drained : ∀ r, s.caller = .returned r → Drained s.compute ∧ Drained s.comm ∧
    ∃ results ends, s.log.filter isCompute = computeTrace results ∧
      s.log.filter isComm = commTrace results ends ∧
      ((∀ e, .submitFailed e ∉ s.log) → results.length = iters ∧ ends.length = iters)
  /-- It reports the first failure, and returns only when there was none. -/
  reported : ∀ r, s.caller = .returned r → r = report iters (failureIn s.log)
  /-- The executor behaves as a fresh one. -/
  again : ∀ r, s.caller = .returned r → ∀ (iters' : ℕ) (actions : List (Action E)),
    (run (step iters') actions (invoke s.compute s.comm)).map forget =
      (run (step iters') actions (start 0 0)).map forget

/-! ## Traces -/

section

lemma computeTrace_snoc (results : List (Except E ℤ)) (r : Except E ℤ) :
    computeTrace (results ++ [r]) = computeTrace results ++
      [.computeStart results.length, .computeFinish results.length r] := by
  simp [computeTrace, zipIdx_append]

variable {A B : Type} {xs : List A} {ys : List B} {results : List (Except E ℤ)} {ends : List (Except E Unit)}

/-- A task more on one side is not paired yet. -/
lemma zip_snoc_left (h : ys.length ≤ xs.length) (x : A) : (xs ++ [x]).zip ys = xs.zip ys := by
  induction xs generalizing ys with
  | nil =>
    rw [length_eq_zero_iff.mp (Nat.le_zero.mp h)]
    simp
  | cons a xs ih =>
    cases ys with
    | nil => simp
    | cons b ys =>
      rw [cons_append, zip_cons_cons, zip_cons_cons, ih (Nat.le_of_succ_le_succ h)]

lemma zip_snoc_right {x : A} (h : xs[ys.length]? = some x) (y : B) : xs.zip (ys ++ [y]) = xs.zip ys ++ [(x, y)] := by
  induction ys generalizing xs with
  | nil =>
    cases xs with
    | nil => simp at h
    | cons a xs =>
      obtain rfl : a = x := by simpa using h
      simp
  | cons b ys ih =>
    cases xs with
    | nil => simp at h
    | cons a xs =>
      rw [cons_append, zip_cons_cons, zip_cons_cons, ih (by simpa using h)]
      rfl

lemma zip_length_of_le (h : ys.length ≤ xs.length) : (xs.zip ys).length = ys.length := by
  rw [length_zip]
  omega

lemma commTrace_snoc_left (h : ends.length ≤ results.length) (r : Except E ℤ) :
    commTrace (results ++ [r]) ends = commTrace results ends := by
  unfold commTrace
  rw [zip_snoc_left h]

lemma lt_of_getElem?_ok {i : ℕ} {x : A} (h : xs[i]? = some x) :
    i ≤ xs.length := le_of_lt (List.getElem?_eq_some_iff.mp h).1

lemma commTrace_snoc_ok {v : ℤ} (h : results[ends.length]? = some (.ok v)) (r : Except E Unit) :
    commTrace results (ends ++ [r]) = commTrace results ends ++
      [.commStart ends.length v, .commFinish ends.length r] := by
  unfold commTrace
  rw [zip_snoc_right h, zipIdx_append, flatMap_append]
  simp [zip_length_of_le (lt_of_getElem?_ok h)]

lemma commTrace_snoc_error {e : E} (h : results[ends.length]? = some (.error e)) (r : Except E Unit) :
    commTrace results (ends ++ [r]) = commTrace results ends := by
  unfold commTrace
  rw [zip_snoc_right h, zipIdx_append, flatMap_append]
  simp

/-- The failures of the `comm` calls themselves. -/
def ownFailures (results : List (Except E ℤ)) (ends : List (Except E Unit)) : List (Option E) :=
  (results.zip ends).map fun p =>
    match p.1 with
    | .ok _ => failureOf p.2
    | .error _ => none

/-- When no `compute` failed, every comm task called `comm`. -/
lemma ownFailures_eq (hok : firstFailure (results.map failureOf) = none)
    (h : ends.length ≤ results.length) : ownFailures results ends = ends.map failureOf := by
  induction ends generalizing results with
  | nil => simp [ownFailures]
  | cons x ends ih =>
    cases results with
    | nil => simp at h
    | cons r results =>
      cases r with
      | error e => simp [firstFailure, failureOf] at hok
      | ok v =>
        have hrest : firstFailure (results.map failureOf) = none := by
          simpa [firstFailure, failureOf] using hok
        have htail := ih hrest (Nat.le_of_succ_le_succ h)
        simp only [ownFailures, zip_cons_cons, map_cons] at htail ⊢
        rw [htail]

end

/-! ## The invariant -/

section

open StreamImpl

/-- The call of `compute` that has not ended yet. -/
def pendingCompute (s : State E) : List (Event E) :=
  match s.compute.worker with
  | .running i true => [.computeStart i]
  | _ => []

/-- The call of `comm` that has not ended yet. -/
def pendingComm (s : State E) : List (Event E) :=
  match s.comm.worker with
  | .running i (some v) => [.commStart i v]
  | _ => []

/-- `n` compute tasks and `m` comm tasks were submitted. -/
def Submitted (iters : ℕ) (s : State E) (n m : ℕ) : Prop :=
  m ≤ n ∧ match s.caller with
  | .submitCompute i => n = i ∧ m = i ∧ i ≤ iters ∧ s.log.findSome? submitError = none
  | .submitComm i => n = i + 1 ∧ m = i ∧ i < iters ∧ s.log.findSome? submitError = none
  | _ => s.log.findSome? submitError = none → n = iters ∧ m = iters

/-- The compute stream serves its tasks until the first `wait` lets the caller through. -/
def ComputeSide (s : State E) (n : ℕ) (results : List (Except E ℤ)) : Prop :=
  match s.caller with
  | .waitComm _ => Drained s.compute ∧ results.length = n
  | .returned _ => Drained s.compute ∧ results.length = n
  | _ => s.compute.Serving (List.range n) (results.map failureOf)

/-- The comm stream serves its tasks until the second `wait` lets the caller through. -/
def CommSide (s : State E) (m : ℕ) (ends : List (Except E Unit)) : Prop :=
  match s.caller with
  | .returned _ => Drained s.comm ∧ ends.length = m
  | _ => s.comm.Serving (List.range m) (ends.map failureOf)

/-- What the caller is going to report. -/
def Reporting (iters : ℕ) (s : State E) (results : List (Except E ℤ)) (ends : List (Except E Unit)) : Prop :=
  match s.caller with
  | .submitCompute _ => True
  | .submitComm _ => True
  | .waitCompute f => f = s.log.findSome? submitError
  | .waitComm f => f = (s.log.findSome? submitError).or (firstFailure (results.map failureOf))
  | .returned r => r = report iters (((s.log.findSome? submitError).or
      (firstFailure (results.map failureOf))).or (firstFailure (ends.map failureOf)))

/-- The invariant of a run: `results` are the results of the `compute` calls, and `ends` are the
    ends of the comm tasks. -/
structure Inv (iters : ℕ) (s : State E) (n m : ℕ) (results : List (Except E ℤ))
    (ends : List (Except E Unit)) : Prop where
  submitted : Submitted iters s n m
  compute : ComputeSide s n results
  comm : CommSide s m ends
  reporting : Reporting iters s results ends
  promises : ∀ i, s.promises i = results[i]?
  ends_le : ends.length ≤ results.length
  called : ∀ i v, s.comm.worker = .running i (some v) → results[i]? = some (.ok v)
  computeLog : s.log.filter isCompute = computeTrace results ++ pendingCompute s
  commLog : s.log.filter isComm = commTrace results ends ++ pendingComm s
  computeFailure : s.log.findSome? computeError = firstFailure (results.map failureOf)
  commFailure : s.log.findSome? commError = firstFailure (ownFailures results ends)
  finished : ∀ i v, results[i]? = some (.ok v) → .computeFinish i (.ok v) ∈ s.log
  after : ∀ before i v rest, s.log = before ++ .commStart i v :: rest →
    .computeFinish i (.ok v) ∈ before

lemma inv_start (iters a b : ℕ) : Inv iters (start a b : State E) 0 0 [] [] where
  submitted := ⟨Nat.le_refl 0, rfl, rfl, Nat.zero_le iters, rfl⟩
  compute := serving_rested a
  comm := serving_rested b
  reporting := trivial
  promises _ := by simp [start, invoke]
  ends_le := le_refl 0
  called i v h := by simp [start, invoke, rested] at h
  computeLog := rfl
  commLog := rfl
  computeFailure := rfl
  commFailure := rfl
  finished i v h := by simp at h
  after before i v rest h := by
    have hlen := congrArg length h
    simp [start, invoke] at hlen

variable {iters n m : ℕ} {s s' : State E} {results : List (Except E ℤ)}
  {ends : List (Except E Unit)}

section

variable (h : Inv iters s n m results ends)
include h

lemma Inv.serving_compute (hbusy : s.compute.worker ≠ .idle ∨ s.compute.queue ≠ []) :
    s.compute.Serving (range n) (results.map failureOf) := by
  have hside := h.compute
  have hnot : ¬ Drained s.compute := by
    rintro ⟨_, hrest⟩
    rw [hrest] at hbusy
    simp [rested] at hbusy
  unfold ComputeSide at hside
  cases hc : s.caller <;> simp only [hc] at hside
  · exact hside
  · exact hside
  · exact hside
  · exact absurd hside.1 hnot
  · exact absurd hside.1 hnot

lemma Inv.serving_comm (hbusy : s.comm.worker ≠ .idle ∨ s.comm.queue ≠ []) :
    s.comm.Serving (range m) (ends.map failureOf) := by
  have hside := h.comm
  have hnot : ¬ Drained s.comm := by
    rintro ⟨_, hrest⟩
    rw [hrest] at hbusy
    simp [rested] at hbusy
  unfold CommSide at hside
  cases hc : s.caller <;> simp only [hc] at hside
  · exact hside
  · exact hside
  · exact hside
  · exact hside
  · exact absurd hside.1 hnot

/-- A busy compute stream is before its `wait`. -/
lemma Inv.caller_of_busy_compute (hbusy : s.compute.worker ≠ .idle ∨ s.compute.queue ≠ []) :
    (∃ i, s.caller = .submitCompute i) ∨ (∃ i, s.caller = .submitComm i) ∨ ∃ f, s.caller = .waitCompute f := by
  have hside := h.compute
  have hnot : ¬ Drained s.compute := by
    rintro ⟨_, hrest⟩
    rw [hrest] at hbusy
    simp [rested] at hbusy
  unfold ComputeSide at hside
  cases hc : s.caller with
  | submitCompute i => exact .inl ⟨i, rfl⟩
  | submitComm i => exact .inr (.inl ⟨i, rfl⟩)
  | waitCompute f => exact .inr (.inr ⟨f, rfl⟩)
  | waitComm f =>
    simp only [hc] at hside
    exact absurd hside.1 hnot
  | returned r =>
    simp only [hc] at hside
    exact absurd hside.1 hnot

lemma Inv.compute_action (s' : State E)
    (hbusy : s.compute.worker ≠ .idle ∨ s.compute.queue ≠ []) (hcaller : s'.caller = s.caller)
    (hsubmit : s'.log.findSome? submitError = s.log.findSome? submitError)
    {results' : List (Except E ℤ)} (hcomm : s'.comm = s.comm)
    (hserving : s'.compute.Serving (range n) (results'.map failureOf)) :
    Submitted iters s' n m ∧ ComputeSide s' n results' ∧ CommSide s' m ends ∧ Reporting iters s' results' ends := by
  have hsub := h.submitted
  have hcs := h.comm
  have hrep := h.reporting
  unfold Submitted at hsub ⊢
  unfold CommSide at hcs ⊢
  unfold Reporting at hrep ⊢
  unfold ComputeSide
  rw [hcaller, hsubmit, hcomm]
  rcases h.caller_of_busy_compute hbusy with ⟨i, hc⟩ | ⟨i, hc⟩ | ⟨f, hc⟩ <;>
    simp only [hc] at hsub hcs hrep ⊢ <;> exact ⟨hsub, hserving, hcs, hrep⟩

/-- A busy comm stream is before its `wait`. -/
lemma Inv.caller_of_busy_comm (hbusy : s.comm.worker ≠ .idle ∨ s.comm.queue ≠ []) : ∀ r, s.caller ≠ .returned r := by
  intro r hc
  have hside := h.comm
  unfold CommSide at hside
  simp only [hc] at hside
  obtain ⟨⟨_, hrest⟩, _⟩ := hside
  rw [hrest] at hbusy
  simp [rested] at hbusy

lemma Inv.comm_action (s' : State E)
    (hbusy : s.comm.worker ≠ .idle ∨ s.comm.queue ≠ []) (hcaller : s'.caller = s.caller)
    (hsubmit : s'.log.findSome? submitError = s.log.findSome? submitError)
    {ends' : List (Except E Unit)} (hcompute : s'.compute = s.compute)
    (hserving : s'.comm.Serving (range m) (ends'.map failureOf)) :
    Submitted iters s' n m ∧ ComputeSide s' n results ∧ CommSide s' m ends' ∧ Reporting iters s' results ends' := by
  have hsub := h.submitted
  have hcs := h.compute
  have hrep := h.reporting
  have hopen := h.caller_of_busy_comm hbusy
  unfold Submitted at hsub ⊢
  unfold ComputeSide at hcs ⊢
  unfold Reporting at hrep ⊢
  unfold CommSide
  rw [hcaller, hsubmit, hcompute]
  cases hc : s.caller with
  | returned r => exact absurd hc (hopen r)
  | _ =>
    simp only [hc] at hsub hcs hrep ⊢
    exact ⟨hsub, hcs, hserving, hrep⟩

lemma Inv.compute_silent
    (hbusy : s.compute.worker ≠ .idle ∨ s.compute.queue ≠ []) {c : StreamImpl ℕ Bool E}
    (hserving : c.Serving (range n) (results.map failureOf))
    (hpending : pendingCompute { s with compute := c } = pendingCompute s) :
    Inv iters { s with compute := c } n m results ends := by
  obtain ⟨hsub, hcompute, hcomm, hrep⟩ := h.compute_action { s with compute := c } hbusy rfl rfl rfl hserving
  refine { h with submitted := hsub, compute := hcompute, comm := hcomm, reporting := hrep, computeLog := ?_ }
  rw [hpending]
  exact h.computeLog

lemma Inv.comm_silent
    (hbusy : s.comm.worker ≠ .idle ∨ s.comm.queue ≠ []) {c : StreamImpl ℕ (Option ℤ) E}
    (hserving : c.Serving (range m) (ends.map failureOf))
    (hcall : ∀ i v, c.worker ≠ .running i (some v))
    (hpending : pendingComm s = []) : Inv iters { s with comm := c } n m results ends := by
  obtain ⟨hsub, hcompute, hcomm, hrep⟩ := h.comm_action { s with comm := c } hbusy rfl rfl rfl hserving
  refine { h with submitted := hsub, compute := hcompute, comm := hcomm, reporting := hrep,
                  called := fun i v hrun => absurd hrun (hcall i v), commLog := ?_ }
  have hnew : pendingComm { s with comm := c } = [] := by
    unfold pendingComm
    split
    · rename_i i v hrun
      exact absurd hrun (hcall i v)
    · rfl
  rw [hnew, ← hpending]
  exact h.commLog

end

lemma running_index {B : Type} {c : StreamImpl ℕ B E} {outcomes : List (Option E)} {k i : ℕ}
    {b : B} (h : c.Serving (range k) outcomes) (hrun : c.worker = .running i b) : i = outcomes.length ∧ i < k := by
  have hget := h.running hrun
  rw [List.getElem?_eq_some_iff] at hget
  obtain ⟨hlt, hget⟩ := hget
  rw [getElem_range] at hget
  rw [length_range] at hlt
  exact ⟨hget.symm, hget ▸ hlt⟩

lemma getElem?_snoc {A : Type} (xs : List A) (x : A) (j : ℕ) :
    (xs ++ [x])[j]? = if j = xs.length then some x else xs[j]? := by
  by_cases hj : j = xs.length
  · simp [hj]
  · rw [if_neg hj]
    rcases lt_or_gt_of_ne hj with hlt | hgt
    · rw [getElem?_append_left hlt]
    · rw [getElem?_eq_none (by simp; omega), getElem?_eq_none (by omega)]

lemma findSome?_snoc_none {A B : Type} {f : A → Option B} {l : List A} {x : A}
    (h : f x = none) : (l ++ [x]).findSome? f = l.findSome? f := by
  simp [findSome?_append, h]

/-- Nothing new starts a `comm`. -/
lemma after_snoc {log : List (Event E)} {x : Event E} (h : ∀ before i v rest, log = before ++ .commStart i v :: rest →
      .computeFinish i (.ok v) ∈ before) (hx : ∀ i v, x = .commStart i v → .computeFinish i (.ok v) ∈ log) :
    ∀ before i v rest, log ++ [x] = before ++ .commStart i v :: rest → .computeFinish i (.ok v) ∈ before := by
  intro before i v _ heq
  rcases append_eq_append_iff.mp heq with ⟨mid, hbefore, hmid⟩ | ⟨mid, hlog, hmid⟩
  · cases mid with
    | nil =>
      obtain ⟨rfl, _⟩ := cons.inj hmid
      rw [hbefore, append_nil]
      exact hx i v rfl
    | cons y mid =>
      have hlen := congrArg length hmid
      simp at hlen
  · cases mid with
    | nil =>
      obtain ⟨hstart, _⟩ := cons.inj hmid
      rw [append_nil] at hlog
      rw [← hlog]
      exact hx i v hstart.symm
    | cons y mid =>
      obtain ⟨rfl, _⟩ := cons.inj hmid
      exact h before i v mid hlog

section

variable (h : Inv iters s n m results ends)
include h

lemma inv_computeStep {r : Except E ℤ}
    (hstep : computeStep r s = some s') : ∃ results', Inv iters s' n m results' ends := by
  unfold computeStep at hstep
  cases hw : s.compute.worker with
  | idle =>
    simp only [hw, map_eq_some_iff] at hstep
    obtain ⟨c, hpop, rfl⟩ := hstep
    have hbusy : s.compute.worker ≠ .idle ∨ s.compute.queue ≠ [] := by
      right
      intro hq
      simp [pop, hq] at hpop
    obtain ⟨hserving, t, _, hrun⟩ := (h.serving_compute hbusy).pop hw hpop
    exact ⟨results, h.compute_silent hbusy hserving (by simp [pendingCompute, hw, hrun])⟩
  | running i called =>
    have hbusy : s.compute.worker ≠ .idle ∨ s.compute.queue ≠ [] := .inl (by simp [hw])
    have hserving := h.serving_compute hbusy
    obtain ⟨hi, _⟩ := running_index hserving hw
    rw [length_map] at hi
    cases called with
    | false =>
      simp only [hw] at hstep
      cases hstep
      have hnew := hserving.advance true hw
      obtain ⟨hsub, hcompute, hcomm, hrep⟩ := h.compute_action
        { s with compute := s.compute.advance i true, log := s.log ++ [.computeStart i] }
        hbusy rfl (findSome?_snoc_none rfl) rfl hnew
      refine ⟨results, hsub, hcompute, hcomm, hrep, h.promises, h.ends_le, h.called, ?_, ?_, ?_, ?_, ?_, ?_⟩
      · rw [filter_append, h.computeLog]
        simp [pendingCompute, hw, advance, isCompute]
      · rw [filter_append, h.commLog]
        simp [pendingComm, isComm]
      · rw [findSome?_snoc_none rfl, h.computeFailure]
      · rw [findSome?_snoc_none rfl, h.commFailure]
      · intro j v hj
        exact mem_append_left _ (h.finished j v hj)
      · apply after_snoc h.after
        intro j v hx
        cases hx
    | true =>
      simp only [hw] at hstep
      cases hstep
      have hnew := hserving.finish hw (failureOf r)
      rw [← map_singleton, ← map_append] at hnew
      obtain ⟨hsub, hcompute, hcomm, hrep⟩ := h.compute_action { s with
          promises := Function.update s.promises i (some r)
          compute := s.compute.finish (failureOf r)
          log := s.log ++ [.computeFinish i r] }
        hbusy rfl (findSome?_snoc_none rfl) rfl hnew
      refine ⟨results ++ [r], hsub, hcompute, hcomm, hrep, ?_, ?_, ?_, ?_, ?_, ?_, ?_, ?_, ?_⟩
      · intro j
        show Function.update s.promises i (some r) j = _
        rw [getElem?_snoc, ← hi]
        by_cases hj : j = i
        · rw [hj, Function.update_self, if_pos rfl]
        · rw [Function.update_of_ne hj, if_neg hj, h.promises]
      · rw [length_append]
        have := h.ends_le
        omega
      · intro j v hrun
        have hget := h.called j v hrun
        rw [getElem?_append_left (List.getElem?_eq_some_iff.mp hget).1, hget]
      · rw [filter_append, h.computeLog]
        simp [pendingCompute, hw, StreamImpl.finish, isCompute, computeTrace_snoc, hi]
      · rw [filter_append, h.commLog, commTrace_snoc_left h.ends_le]
        simp [pendingComm, isComm]
      · rw [findSome?_append, h.computeFailure]
        simp [computeError]
      · rw [findSome?_snoc_none rfl, h.commFailure]
        simp [ownFailures, zip_snoc_left h.ends_le]
      · intro j v hj
        rw [getElem?_snoc, ← hi] at hj
        by_cases hji : j = i
        · rw [if_pos hji] at hj
          rw [hji, Option.some.inj hj]
          exact mem_append_right _ mem_cons_self
        · rw [if_neg hji] at hj
          exact mem_append_left _ (h.finished j v hj)
      · apply after_snoc h.after
        intro j v hx
        cases hx
  | returned o =>
    simp only [hw] at hstep
    cases hstep
    have hbusy : s.compute.worker ≠ .idle ∨ s.compute.queue ≠ [] := .inl (by simp [hw])
    exact ⟨results, h.compute_silent hbusy ((h.serving_compute hbusy).capture hw)
      (by simp [pendingCompute, hw, capture])⟩
  | released =>
    simp only [hw] at hstep
    cases hstep
    have hbusy : s.compute.worker ≠ .idle ∨ s.compute.queue ≠ [] := .inl (by simp [hw])
    exact ⟨results, h.compute_silent hbusy ((h.serving_compute hbusy).complete hw)
      (by simp [pendingCompute, hw, complete])⟩

lemma inv_commStep {r : Except E Unit}
    (hstep : commStep r s = some s') : ∃ ends', Inv iters s' n m results ends' := by
  unfold commStep at hstep
  cases hw : s.comm.worker with
  | idle =>
    simp only [hw, map_eq_some_iff] at hstep
    obtain ⟨c, hpop, rfl⟩ := hstep
    have hbusy : s.comm.worker ≠ .idle ∨ s.comm.queue ≠ [] := by
      right
      intro hq
      simp [pop, hq] at hpop
    obtain ⟨hserving, t, _, hrun⟩ := (h.serving_comm hbusy).pop hw hpop
    exact ⟨ends, h.comm_silent hbusy hserving (by simp [hrun]) (by simp [pendingComm, hw])⟩
  | running i called =>
    have hbusy : s.comm.worker ≠ .idle ∨ s.comm.queue ≠ [] := .inl (by simp [hw])
    have hserving := h.serving_comm hbusy
    obtain ⟨hi, _⟩ := running_index hserving hw
    rw [length_map] at hi
    cases called with
    | none =>
      simp only [hw, h.promises] at hstep
      cases hget : results[i]? with
      | none => simp [hget] at hstep
      | some res =>
        rw [hi] at hget
        cases res with
        | error e =>
          -- `ready.get()` rethrows, and `comm` is not called
          simp only [hi, hget] at hstep
          cases hstep
          have hnew := hserving.finish hw (some e)
          have hends : ends.map failureOf ++ [some e] = (ends ++ [Except.error e]).map failureOf := by
            simp [failureOf]
          rw [hends] at hnew
          obtain ⟨hsub, hcompute, hcomm, hrep⟩ := h.comm_action
            { s with comm := s.comm.finish (some e) } hbusy rfl rfl rfl hnew
          refine ⟨ends ++ [.error e], hsub, hcompute, hcomm, hrep, h.promises, ?_, ?_,
            h.computeLog, ?_, h.computeFailure, ?_, h.finished, h.after⟩
          · rw [length_append]
            exact (List.getElem?_eq_some_iff.mp hget).1
          · intro j v hrun
            simp [StreamImpl.finish] at hrun
          · rw [h.commLog, commTrace_snoc_error hget]
            simp [pendingComm, hw, StreamImpl.finish]
          · rw [h.commFailure]
            simp [ownFailures, zip_snoc_right hget]
        | ok v =>
          simp only [hi, hget] at hstep
          cases hstep
          have hnew := hserving.advance (some v) hw
          obtain ⟨hsub, hcompute, hcomm, hrep⟩ := h.comm_action { s with
              comm := s.comm.advance ends.length (some v)
              log := s.log ++ [.commStart ends.length v] }
            hbusy rfl (findSome?_snoc_none rfl) rfl (hi ▸ hnew)
          refine ⟨ends, hsub, hcompute, hcomm, hrep, h.promises, h.ends_le, ?_, ?_, ?_, ?_, ?_, ?_, ?_⟩
          · intro j w hrun
            simp only [advance, Worker.running.injEq, Option.some.injEq] at hrun
            rw [← hrun.1, ← hrun.2, hget]
          · rw [filter_append, h.computeLog]
            simp [pendingCompute, isCompute]
          · rw [filter_append, h.commLog]
            simp [pendingComm, hw, advance, isComm]
          · rw [findSome?_snoc_none rfl, h.computeFailure]
          · rw [findSome?_snoc_none rfl, h.commFailure]
          · intro j w hj
            exact mem_append_left _ (h.finished j w hj)
          · apply after_snoc h.after
            intro j w hx
            obtain ⟨rfl, rfl⟩ := Event.commStart.inj hx
            exact h.finished _ _ hget
    | some v =>
      simp only [hw] at hstep
      cases hstep
      have hget : results[ends.length]? = some (.ok v) := hi ▸ h.called i v hw
      have hnew := hserving.finish hw (failureOf r)
      rw [← map_singleton, ← map_append] at hnew
      obtain ⟨hsub, hcompute, hcomm, hrep⟩ := h.comm_action
        { s with comm := s.comm.finish (failureOf r), log := s.log ++ [.commFinish i r] }
        hbusy rfl (findSome?_snoc_none rfl) rfl hnew
      refine ⟨ends ++ [r], hsub, hcompute, hcomm, hrep, h.promises, ?_, ?_, ?_, ?_, ?_, ?_, ?_, ?_⟩
      · rw [length_append]
        exact (List.getElem?_eq_some_iff.mp hget).1
      · intro j w hrun
        simp [StreamImpl.finish] at hrun
      · rw [filter_append, h.computeLog]
        simp [pendingCompute, isCompute]
      · rw [filter_append, h.commLog, commTrace_snoc_ok hget]
        simp [pendingComm, hw, StreamImpl.finish, isComm, hi]
      · rw [findSome?_snoc_none rfl, h.computeFailure]
      · rw [findSome?_append, h.commFailure]
        simp [ownFailures, zip_snoc_right hget, commError]
      · intro j w hj
        exact mem_append_left _ (h.finished j w hj)
      · apply after_snoc h.after
        intro j w hx
        cases hx
  | returned o =>
    simp only [hw] at hstep
    cases hstep
    have hbusy : s.comm.worker ≠ .idle ∨ s.comm.queue ≠ [] := .inl (by simp [hw])
    exact ⟨ends, h.comm_silent hbusy ((h.serving_comm hbusy).capture hw)
      (by simp [capture]) (by simp [pendingComm, hw])⟩
  | released =>
    simp only [hw] at hstep
    cases hstep
    have hbusy : s.comm.worker ≠ .idle ∨ s.comm.queue ≠ [] := .inl (by simp [hw])
    exact ⟨ends, h.comm_silent hbusy ((h.serving_comm hbusy).complete hw)
      (by simp [complete]) (by simp [pendingComm, hw])⟩

lemma inv_callerStep (hstep : callerStep iters s = some s') : ∃ n' m', Inv iters s' n' m' results ends := by
  have hsub := h.submitted
  have hcompute := h.compute
  have hcomm := h.comm
  have hrep := h.reporting
  unfold callerStep at hstep
  unfold Submitted at hsub
  unfold ComputeSide at hcompute
  unfold CommSide at hcomm
  unfold Reporting at hrep
  cases hc : s.caller with
  | submitCompute i =>
    simp only [hc] at hstep hsub hcompute hcomm
    obtain ⟨_, hn, hm, hi, hnofail⟩ := hsub
    subst hn
    by_cases hlt : n < iters
    · rw [if_pos hlt] at hstep
      cases hstep
      have hnew := hcompute.submit n
      rw [← range_succ] at hnew
      exact ⟨n + 1, m, { h with
        submitted := ⟨by omega, rfl, hm, hlt, hnofail⟩
        compute := hnew
        comm := hcomm
        reporting := trivial }⟩
    · rw [if_neg hlt] at hstep
      cases hstep
      exact ⟨n, m, { h with
        submitted := ⟨by omega, fun _ => by omega⟩
        compute := hcompute
        comm := hcomm
        reporting := hnofail.symm }⟩
  | submitComm i =>
    simp only [hc] at hstep hsub hcompute hcomm
    obtain ⟨_, hn, hm, hi, hnofail⟩ := hsub
    cases hstep
    subst hm
    have hnew := hcomm.submit m
    rw [← range_succ] at hnew
    exact ⟨n, m + 1, { h with
      submitted := ⟨by omega, hn, rfl, hi, hnofail⟩
      compute := hcompute
      comm := hnew
      reporting := trivial }⟩
  | waitCompute f =>
    simp only [hc, map_eq_some_iff] at hstep hsub hcompute hcomm hrep
    obtain ⟨⟨o, c⟩, hwait, rfl⟩ := hstep
    obtain ⟨hlen, rfl, rfl⟩ := hcompute.wait hwait
    have hidle : pendingCompute s = [] := by
      unfold pendingCompute
      split
      · rename_i i hw
        have hlt := (running_index hcompute hw).2
        have hle := (running_index hcompute hw).1
        rw [length_range] at hlen
        omega
      · rfl
    refine ⟨n, m, { h with
      submitted := hsub
      compute := ⟨⟨_, rfl⟩, by simpa using hlen⟩
      comm := hcomm
      reporting := by rw [hrep]; rfl
      computeLog := ?_ }⟩
    rw [h.computeLog, hidle]
    rfl
  | waitComm f =>
    simp only [hc, map_eq_some_iff] at hstep hsub hcompute hcomm hrep
    obtain ⟨⟨o, c⟩, hwait, rfl⟩ := hstep
    obtain ⟨hlen, rfl, rfl⟩ := hcomm.wait hwait
    have hidle : pendingComm s = [] := by
      unfold pendingComm
      split
      · rename_i i v hw
        have hlt := (running_index hcomm hw).2
        have hle := (running_index hcomm hw).1
        rw [length_range] at hlen
        omega
      · rfl
    refine ⟨n, m, { h with
      submitted := hsub
      compute := hcompute
      comm := ⟨⟨_, rfl⟩, by simpa using hlen⟩
      reporting := by rw [hrep]; rfl
      called := fun i v hrun => by simp [rested] at hrun
      commLog := ?_ }⟩
    rw [h.commLog, hidle]
    rfl
  | returned r => simp [hc] at hstep

lemma inv_submitFails {e : E} (hstep : submitFails iters e s = some s') : Inv iters s' n m results ends := by
  have hsub := h.submitted
  have hcompute := h.compute
  have hcomm := h.comm
  unfold submitFails at hstep
  unfold Submitted at hsub
  unfold ComputeSide at hcompute
  unfold CommSide at hcomm
  have hfails : s' = { s with caller := .waitCompute (some e), log := s.log ++ [.submitFailed e] } ∧
      s.log.findSome? submitError = none ∧ m ≤ n ∧ s.compute.Serving (range n) (results.map failureOf) ∧
      s.comm.Serving (range m) (ends.map failureOf) := by
    cases hc : s.caller with
    | submitCompute i =>
      simp only [hc] at hstep hsub hcompute hcomm
      by_cases hlt : i < iters
      · rw [if_pos hlt] at hstep
        exact ⟨(Option.some.inj hstep).symm, hsub.2.2.2.2, hsub.1, hcompute, hcomm⟩
      · rw [if_neg hlt] at hstep
        cases hstep
    | submitComm i =>
      simp only [hc] at hstep hsub hcompute hcomm
      exact ⟨(Option.some.inj hstep).symm, hsub.2.2.2.2, hsub.1, hcompute, hcomm⟩
    | waitCompute f => simp [hc] at hstep
    | waitComm f => simp [hc] at hstep
    | returned r => simp [hc] at hstep
  obtain ⟨rfl, hnofail, hle, hserving, hserving'⟩ := hfails
  have hsome : (s.log ++ [Event.submitFailed e]).findSome? submitError = some e := by
    simp [findSome?_append, hnofail, submitError]
  refine ⟨⟨hle, ?_⟩, hserving, hserving', hsome.symm, h.promises, h.ends_le, h.called, ?_, ?_, ?_, ?_, ?_, ?_⟩
  · intro hnone
    rw [hsome] at hnone
    cases hnone
  · rw [filter_append, h.computeLog]
    simp [pendingCompute, isCompute]
  · rw [filter_append, h.commLog]
    simp [pendingComm, isComm]
  · rw [findSome?_snoc_none rfl, h.computeFailure]
  · rw [findSome?_snoc_none rfl, h.commFailure]
  · intro j v hj
    exact mem_append_left _ (h.finished j v hj)
  · apply after_snoc h.after
    intro j v hx
    cases hx

end

lemma inv_step (h : ∃ n m results ends, Inv iters s n m results ends) {a : Action E}
    (hstep : step iters a s = some s') : ∃ n m results ends, Inv iters s' n m results ends := by
  obtain ⟨n, m, results, ends, h⟩ := h
  cases a with
  | caller =>
    obtain ⟨n', m', h'⟩ := inv_callerStep h hstep
    exact ⟨n', m', results, ends, h'⟩
  | submitFails e => exact ⟨n, m, results, ends, inv_submitFails h hstep⟩
  | compute r =>
    obtain ⟨results', h'⟩ := inv_computeStep h hstep
    exact ⟨n, m, results', ends, h'⟩
  | comm r =>
    obtain ⟨ends', h'⟩ := inv_commStep h hstep
    exact ⟨n, m, results, ends', h'⟩

end

/-! ## Every run ends -/

section

variable {iters : ℕ} {s s' : State E}

/-- The actions that a worker still has before it. -/
def workLeft {B : Type} (taskLeft : B → ℕ) (s : StreamImpl ℕ B E) : ℕ :=
  5 * s.queue.length +
    match s.worker with
    | .idle => 0
    | .running _ b => taskLeft b
    | .returned _ => 2
    | .released => 1

/-- The actions of the caller, and those of the tasks it has yet to submit. -/
def callerLeft (iters : ℕ) : Caller E → ℕ
  | .submitCompute i => 12 * (iters - i) + 3
  | .submitComm i => 12 * (iters - i - 1) + 9
  | .waitCompute _ => 2
  | .waitComm _ => 1
  | .returned _ => 0

def remaining (iters : ℕ) (s : State E) : ℕ :=
  callerLeft iters s.caller + workLeft (fun b => if b then 3 else 4) s.compute +
    workLeft (fun v => if v.isSome then 3 else 4) s.comm

variable {B : Type} {c c' : StreamImpl ℕ B E}

lemma workLeft_submit (taskLeft : B → ℕ) (t : ℕ) (c : StreamImpl ℕ B E) :
    workLeft taskLeft (c.submit t) = workLeft taskLeft c + 5 := by
  simp only [workLeft, StreamImpl.submit, length_append, length_singleton]
  omega

lemma workLeft_wait (taskLeft : B → ℕ) {o : Option E}
    (h : c.wait = some (o, c')) : workLeft taskLeft c' = workLeft taskLeft c := by
  unfold wait at h
  by_cases hzero : c.outstanding = 0
  · rw [if_pos hzero] at h
    obtain ⟨_, rfl⟩ := Prod.mk.inj (Option.some.inj h)
    rfl
  · rw [if_neg hzero] at h
    cases h

lemma workLeft_pop (taskLeft : B → ℕ) {b : B}
    (hb : taskLeft b = 4) (hidle : c.worker = .idle) (h : c.pop b = some c') :
    workLeft taskLeft c' < workLeft taskLeft c := by
  unfold pop at h
  cases hq : c.queue with
  | nil => simp [hq] at h
  | cons t queue =>
    simp only [hq] at h
    cases h
    simp only [workLeft, hq, hidle, hb, length_cons]
    omega

lemma remaining_callerStep (hstep : callerStep iters s = some s') : remaining iters s' < remaining iters s := by
  unfold callerStep at hstep
  cases hc : s.caller with
  | submitCompute i =>
    simp only [hc] at hstep
    split at hstep
    · cases hstep
      simp only [remaining, callerLeft, hc, workLeft_submit]
      omega
    · cases hstep
      simp only [remaining, callerLeft, hc]
      omega
  | submitComm i =>
    simp only [hc] at hstep
    cases hstep
    simp only [remaining, callerLeft, hc, workLeft_submit]
    omega
  | waitCompute f =>
    simp only [hc, map_eq_some_iff] at hstep
    obtain ⟨⟨o, c⟩, hwait, rfl⟩ := hstep
    simp only [remaining, callerLeft, hc, workLeft_wait _ hwait]
    omega
  | waitComm f =>
    simp only [hc, map_eq_some_iff] at hstep
    obtain ⟨⟨o, c⟩, hwait, rfl⟩ := hstep
    simp only [remaining, callerLeft, hc, workLeft_wait _ hwait]
    omega
  | returned r => simp [hc] at hstep

lemma remaining_submitFails {e : E} (hstep : submitFails iters e s = some s') :
    remaining iters s' < remaining iters s := by
  unfold submitFails at hstep
  cases hc : s.caller with
  | submitCompute i =>
    simp only [hc] at hstep
    split at hstep
    · cases hstep
      simp only [remaining, callerLeft, hc]
      omega
    · cases hstep
  | submitComm i =>
    simp only [hc] at hstep
    cases hstep
    simp only [remaining, callerLeft, hc]
    omega
  | waitCompute f => simp [hc] at hstep
  | waitComm f => simp [hc] at hstep
  | returned r => simp [hc] at hstep

lemma remaining_computeStep {r : Except E ℤ} (hstep : computeStep r s = some s') :
    remaining iters s' < remaining iters s := by
  unfold computeStep at hstep
  cases hw : s.compute.worker with
  | idle =>
    simp only [hw, map_eq_some_iff] at hstep
    obtain ⟨c, hpop, rfl⟩ := hstep
    have hless := workLeft_pop (fun b : Bool => if b then 3 else 4) rfl hw hpop
    simp only [remaining]
    omega
  | running i called =>
    cases called <;> simp only [hw] at hstep <;> cases hstep <;>
      simp [remaining, workLeft, hw, advance, StreamImpl.finish]
  | returned o =>
    simp only [hw] at hstep
    cases hstep
    simp [remaining, workLeft, hw, capture]
  | released =>
    simp only [hw] at hstep
    cases hstep
    simp [remaining, workLeft, hw, complete]

lemma remaining_commStep {r : Except E Unit} (hstep : commStep r s = some s') :
    remaining iters s' < remaining iters s := by
  unfold commStep at hstep
  cases hw : s.comm.worker with
  | idle =>
    simp only [hw, map_eq_some_iff] at hstep
    obtain ⟨c, hpop, rfl⟩ := hstep
    have hless := workLeft_pop (fun v : Option ℤ => if v.isSome then 3 else 4) rfl hw hpop
    simp only [remaining]
    omega
  | running i called =>
    cases called with
    | none =>
      simp only [hw] at hstep
      split at hstep
      · cases hstep
      · cases hstep
        simp [remaining, workLeft, hw, StreamImpl.finish]
      · cases hstep
        simp [remaining, workLeft, hw, advance]
    | some v =>
      simp only [hw] at hstep
      cases hstep
      simp [remaining, workLeft, hw, StreamImpl.finish]
  | returned o =>
    simp only [hw] at hstep
    cases hstep
    simp [remaining, workLeft, hw, capture]
  | released =>
    simp only [hw] at hstep
    cases hstep
    simp [remaining, workLeft, hw, complete]

lemma remaining_step {a : Action E} (hstep : step iters a s = some s') : remaining iters s' < remaining iters s := by
  cases a with
  | caller => exact remaining_callerStep hstep
  | submitFails e => exact remaining_submitFails hstep
  | compute r => exact remaining_computeStep hstep
  | comm r => exact remaining_commStep hstep

lemma run_length (actions : List (Action E)) : ∀ {s s' : State E}, run (step iters) actions s = some s' →
      actions.length + remaining iters s' ≤ remaining iters s := by
  induction actions with
  | nil =>
    intro s s' h
    cases h
    simp
  | cons a actions ih =>
    intro s _ h
    obtain ⟨_, hstep, hrest⟩ := run_cons.mp h
    have hless := remaining_step hstep
    have htail := ih hrest
    rw [length_cons]
    omega

end

/-! ## A later run -/

section

variable {iters : ℕ}

lemma forget_wait {B : Type} (c : StreamImpl ℕ B E) :
    ({ c with total := 0 }).wait = c.wait.map fun p => (p.1, { p.2 with total := 0 }) := by
  unfold wait
  split <;> rfl

lemma forget_step (a : Action E) (s : State E) :
    (step iters a (forget s)).map forget = (step iters a s).map forget := by
  cases a with
  | caller =>
    show (callerStep iters (forget s)).map forget = (callerStep iters s).map forget
    unfold callerStep forget
    cases s.caller with
    | submitCompute i => dsimp only; split <;> rfl
    | submitComm i => rfl
    | waitCompute f => simp only [forget_wait, Option.map_map]; rfl
    | waitComm f => simp only [forget_wait, Option.map_map]; rfl
    | returned r => rfl
  | submitFails e =>
    show (submitFails iters e (forget s)).map forget = (submitFails iters e s).map forget
    unfold submitFails forget
    cases s.caller with
    | submitCompute i => dsimp only; split <;> rfl
    | submitComm i => rfl
    | waitCompute f => rfl
    | waitComm f => rfl
    | returned r => rfl
  | compute r =>
    show (computeStep r (forget s)).map forget = (computeStep r s).map forget
    unfold computeStep forget
    cases hw : s.compute.worker with
    | idle =>
      simp only [hw]
      unfold pop
      cases s.compute.queue <;> rfl
    | running i called => cases called <;> simp only [hw] <;> rfl
    | returned o => simp only [hw]; rfl
    | released => simp only [hw]; rfl
  | comm r =>
    show (commStep r (forget s)).map forget = (commStep r s).map forget
    unfold commStep forget
    cases hw : s.comm.worker with
    | idle =>
      simp only [hw]
      unfold pop
      cases s.comm.queue <;> rfl
    | running i called =>
      cases called with
      | none => simp only [hw]; split <;> rfl
      | some v => simp only [hw]; rfl
    | returned o => simp only [hw]; rfl
    | released => simp only [hw]; rfl

lemma forget_run (actions : List (Action E)) : ∀ {s t : State E}, forget s = forget t →
    (run (step iters) actions s).map forget = (run (step iters) actions t).map forget := by
  induction actions with
  | nil =>
    intro s t h
    exact congrArg some h
  | cons a actions ih =>
    intro s t h
    have hstep : (step iters a s).map forget = (step iters a t).map forget := by
      rw [← forget_step, ← forget_step a t, h]
    show ((step iters a s).bind _).map forget = ((step iters a t).bind _).map forget
    cases hs : step iters a s with
    | none =>
      rw [hs, Option.map_none, eq_comm, Option.map_eq_none_iff] at hstep
      rw [hstep]
    | some s' =>
      cases ht : step iters a t with
      | none =>
        rw [hs, ht] at hstep
        cases hstep
      | some t' =>
        rw [hs, ht] at hstep
        exact ih (Option.some.inj hstep)

end

/-! ## The contract -/

section

variable {iters n m : ℕ} {s : State E} {results : List (Except E ℤ)} {ends : List (Except E Unit)}

/-- A worker that is not idle acts, or waits for a promise. -/
lemma busy_computeStep (h : s.compute.worker ≠ .idle) : ∃ s', computeStep (.ok 0) s = some s' := by
  unfold computeStep
  cases hw : s.compute.worker with
  | idle => exact absurd hw h
  | running i called => cases called <;> simp
  | returned o => simp
  | released => simp

lemma busy_commStep (h : s.comm.worker ≠ .idle)
    (hready : ∀ i, s.comm.worker = .running i none → s.promises i ≠ none) : ∃ s', commStep (.ok ()) s = some s' := by
  unfold commStep
  cases hw : s.comm.worker with
  | idle => exact absurd hw h
  | running i called =>
    cases called with
    | none =>
      cases hp : s.promises i with
      | none => exact absurd hp (hready i hw)
      | some r => cases r <;> simp [hp]
    | some v => simp
  | returned o => simp
  | released => simp

/-- **Neither stream is wedged.** -/
theorem Inv.progress (h : Inv iters s n m results ends) :
    (∃ r, s.caller = .returned r) ∨ ∃ a s', step iters a s = some s' := by
  have hsub := h.submitted
  have hcompute := h.compute
  have hcomm := h.comm
  unfold Submitted at hsub
  unfold ComputeSide at hcompute
  unfold CommSide at hcomm
  cases hc : s.caller with
  | submitCompute i =>
    right
    refine ⟨.caller, ?_⟩
    simp only [step, callerStep, hc]
    split <;> exact ⟨_, rfl⟩
  | submitComm i =>
    right
    refine ⟨.caller, ?_⟩
    simp only [step, callerStep, hc]
    exact ⟨_, rfl⟩
  | waitCompute f =>
    right
    simp only [hc] at hcompute
    rcases hcompute.wait_or_busy with ⟨o, c, hwait⟩ | hbusy | hpop
    · exact ⟨.caller, by simp only [step, callerStep, hc, hwait]; exact ⟨_, rfl⟩⟩
    · obtain ⟨s', hs'⟩ := busy_computeStep hbusy
      exact ⟨.compute (.ok 0), s', hs'⟩
    · by_cases hidle : s.compute.worker = .idle
      · obtain ⟨c, hc'⟩ := hpop false
        refine ⟨.compute (.ok 0), ?_⟩
        simp only [step, computeStep, hidle, hc']
        exact ⟨_, rfl⟩
      · obtain ⟨s', hs'⟩ := busy_computeStep hidle
        exact ⟨.compute (.ok 0), s', hs'⟩
  | waitComm f =>
    right
    simp only [hc] at hsub hcompute hcomm
    -- the compute stream is drained, so every promise is kept
    have hready : ∀ i, s.comm.worker = .running i none → s.promises i ≠ none := by
      intro i hrun hnone
      obtain ⟨_, hi⟩ := running_index hcomm hrun
      rw [h.promises, List.getElem?_eq_none_iff] at hnone
      omega
    rcases hcomm.wait_or_busy with ⟨o, c, hwait⟩ | hbusy | hpop
    · exact ⟨.caller, by simp only [step, callerStep, hc, hwait]; exact ⟨_, rfl⟩⟩
    · obtain ⟨s', hs'⟩ := busy_commStep hbusy hready
      exact ⟨.comm _, s', hs'⟩
    · by_cases hidle : s.comm.worker = .idle
      · obtain ⟨c, hc'⟩ := hpop none
        refine ⟨.comm (.ok ()), ?_⟩
        simp only [step, commStep, hidle, hc']
        exact ⟨_, rfl⟩
      · obtain ⟨s', hs'⟩ := busy_commStep hidle hready
        exact ⟨.comm _, s', hs'⟩
  | returned r => exact .inl ⟨r, rfl⟩

variable {r : Except E Result}

lemma Inv.at_return (h : Inv iters s n m results ends)
    (hr : s.caller = .returned r) : Drained s.compute ∧ Drained s.comm ∧
      results.length = n ∧ ends.length = m ∧ pendingCompute s = [] ∧ pendingComm s = [] := by
  have hcompute := h.compute
  have hcomm := h.comm
  unfold ComputeSide at hcompute
  unfold CommSide at hcomm
  simp only [hr] at hcompute hcomm
  obtain ⟨⟨a, ha⟩, hn⟩ := hcompute
  obtain ⟨⟨b, hb⟩, hm⟩ := hcomm
  refine ⟨⟨a, ha⟩, ⟨b, hb⟩, hn, hm, ?_, ?_⟩
  · simp [pendingCompute, ha, rested]
  · simp [pendingComm, hb, rested]

lemma Inv.reported (h : Inv iters s n m results ends)
    (hr : s.caller = .returned r) : r = report iters (failureIn s.log) := by
  have hrep := h.reporting
  unfold Reporting at hrep
  simp only [hr] at hrep
  rw [hrep, failureIn, h.computeFailure, h.commFailure, Option.or_assoc]
  cases hsubmit : s.log.findSome? submitError with
  | some e => rfl
  | none =>
    cases hfirst : firstFailure _ with
    | some e => rfl
    | none => rw [ownFailures_eq hfirst h.ends_le]

lemma Inv.contract (h : Inv iters s n m results ends) : RunContract iters s where
  order := by
    refine ⟨results, ends, ?_, ?_⟩
    · rw [h.computeLog]
      unfold pendingCompute
      split
      · rename_i i hw
        have hserving := h.serving_compute (.inl (by simp [hw]))
        obtain ⟨hi, _⟩ := running_index hserving hw
        rw [length_map] at hi
        exact .inr (by rw [hi])
      · exact .inl (append_nil _)
    · rw [h.commLog]
      unfold pendingComm
      split
      · rename_i i v hw
        have hserving := h.serving_comm (.inl (by simp [hw]))
        obtain ⟨hi, _⟩ := running_index hserving hw
        rw [length_map] at hi
        subst hi
        exact .inr ⟨v, h.called _ v hw, rfl⟩
      · exact .inl (append_nil _)
  after := h.after
  progress := h.progress
  drained r hr := by
    obtain ⟨hcompute, hcomm, hn, hm, hpend, hpend'⟩ := h.at_return hr
    refine ⟨hcompute, hcomm, results, ends, ?_, ?_, ?_⟩
    · rw [h.computeLog, hpend, append_nil]
    · rw [h.commLog, hpend', append_nil]
    · intro hnofail
      have hsub := h.submitted
      unfold Submitted at hsub
      simp only [hr] at hsub
      have hnone : s.log.findSome? submitError = none := by
        rw [findSome?_eq_none_iff]
        intro x hx
        cases x with
        | submitFailed e => exact absurd hx (hnofail e)
        | computeStart i => rfl
        | computeFinish i r => rfl
        | commStart i v => rfl
        | commFinish i r => rfl
      obtain ⟨hn', hm'⟩ := hsub.2 hnone
      omega
  reported r hr := h.reported hr
  again r hr iters' actions := by
    obtain ⟨⟨a, ha⟩, ⟨b, hb⟩, _⟩ := h.at_return hr
    apply forget_run
    rw [ha, hb]
    rfl

/-- **Every run** of an executor, whatever runs it has made before: the contract holds in every
    state, and the run is over after a bounded number of actions. -/
theorem run_contract (iters a b : ℕ) {actions : List (Action E)} {s : State E}
    (h : run (step iters) actions (start a b) = some s) : RunContract iters s ∧ actions.length ≤ 12 * iters + 3 := by
  have hinv : ∃ n m results ends, Inv iters s n m results ends :=
    run_invariant (fun _ _ _ hstep hs => inv_step hs hstep) h ⟨0, 0, [], [], inv_start iters a b⟩
  obtain ⟨n, m, _, _, hinv⟩ := hinv
  refine ⟨hinv.contract, ?_⟩
  have hlen := run_length actions h
  have hstart : remaining iters (start a b : State E) = 12 * iters + 3 := rfl
  omega

/-- One iteration whose `compute` returns 7, each worker taking the five actions of its task. -/
def oneIteration : List (Action Unit) :=
  List.replicate 3 .caller ++ List.replicate 5 (.compute (.ok 7)) ++
    List.replicate 5 (.comm (.ok ())) ++ List.replicate 2 .caller

theorem run_contract_oneIteration : ∃ s : State Unit,
    run (step 1) oneIteration (start 0 0) = some s ∧ s.caller = .returned (.ok ⟨1, 1⟩) ∧
      s.log = [.computeStart 0, .computeFinish 0 (.ok 7), .commStart 0 7, .commFinish 0 (.ok ())] ∧
      RunContract 1 s ∧ oneIteration.length ≤ 12 * 1 + 3 :=
  ⟨_, rfl, rfl, rfl, run_contract 1 0 0 (show run (step 1) oneIteration (start 0 0) = some _ from rfl)⟩

end

end VKernels.Comm.Overlap
