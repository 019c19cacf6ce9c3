import Mathlib.Algebra.BigOperators.Fin
import Mathlib.Algebra.Order.BigOperators.Group.Finset
import Mathlib.Tactic.Linarith
import Mathlib.Tactic.Ring
import VKernels.Lib.Interleaving

/-!
# Monotonic spin barriers over a launch queue

Workers meet at the barriers of a launch through one counter that is never reset.  A worker loads
the base of its launch, and at barrier `k` adds one to the counter and polls it against
`base + (k + 1) * workers`; the guard that decides whether it goes on waiting is a parameter.  The
first worker moves the base past the launch when it ends, and the next launch of the queue starts
when every worker of this one has ended.

* `Safe` — nobody has left a barrier that somebody has not reached.
* `counter_of_done` — between two launches the counter is what they have added, under any guard.
* `safe_run` — a guard that holds and releases keeps every run safe.
* `exists_unsafe` — a guard that gives way one arrival too early at the last target of the queue
  has an unsafe run.
-/

namespace VKernels.SpinBarrier

open VKernels.Interleaving Finset
open Fintype (card)

/-- Where a worker is in its launch, with the base it has loaded. -/
inductive Pos where
  | start
  | arrive (base : ℤ) (k : ℕ)
  | poll (base : ℤ) (k : ℕ)
  | finish (base : ℤ)
  | done
  deriving DecidableEq

/-- The barriers of its launch a worker has reached. -/
def Pos.arrived (n : ℕ) : Pos → ℕ
  | .start => 0
  | .arrive _ k => k
  | .poll _ k => k + 1
  | .finish _ | .done => n

/-- The barriers of its launch a worker has left. -/
def Pos.left (n : ℕ) : Pos → ℕ
  | .start => 0
  | .arrive _ k | .poll _ k => k
  | .finish _ | .done => n

/-- The base a worker carries. -/
def Pos.loaded : Pos → Option ℤ
  | .arrive b _ | .poll b _ | .finish b => some b
  | .start | .done => none

/-- A worker inside a barrier is at one of its launch. -/
def Pos.Inside (n : ℕ) : Pos → Prop
  | .arrive _ k | .poll _ k => k < n
  | .start | .finish _ | .done => True

/-- The steps a worker takes until its launch is over, polls that wait not counted. -/
def Pos.todo (n : ℕ) : Pos → ℕ
  | .start => 2 * n + 3
  | .arrive _ k => 2 * (n - k) + 2
  | .poll _ k => 2 * (n - k) + 1
  | .finish _ => 1
  | .done => 0

open Pos (Inside arrived left loaded todo)

/-- The counter, the base cell, the barriers of the running launch, those of the queued ones, and
where each worker is. -/
structure State (W : Type) where
  counter : ℤ
  base : ℤ
  barriers : ℕ
  later : List ℕ
  pos : W → Pos

/-- What can happen next: a worker steps, or the next launch starts. -/
inductive Action (W : Type) where
  | worker (w : W)
  | launch

section

variable {W : Type} [Fintype W] [DecidableEq W] (first : W) (waits : ℤ → ℤ → Bool)

/-- On to barrier `k` of a launch of `n`, or to its end. -/
def enter (n : ℕ) (b : ℤ) (k : ℕ) : Pos := if k < n then .arrive b k else .finish b

/-- What releases barrier `k`. -/
def target (W : Type) [Fintype W] (b : ℤ) (k : ℕ) : ℤ := b + (k + 1) * card W

def State.move (s : State W) (w : W) (p : Pos) : State W := { s with pos := Function.update s.pos w p }

def stepWorker (w : W) (s : State W) : Option (State W) :=
  match s.pos w with
  | .start => some (s.move w (enter s.barriers s.base 0))
  | .arrive b k => some { s.move w (.poll b k) with counter := s.counter + 1 }
  | .poll b k =>
    if waits s.counter (target W b k) then some s
    else some (s.move w (enter s.barriers b (k + 1)))
  | .finish b =>
    some { s.move w .done with
      base := if w = first then b + s.barriers * card W else s.base }
  | .done => none

/-- The next launch starts when every worker of this one is done. -/
def stepLaunch (s : State W) : Option (State W) :=
  if ∀ w, s.pos w = .done then
    match s.later with
    | [] => none
    | n :: later => some { s with barriers := n, later := later, pos := fun _ => .start }
  else none

def step : Action W → State W → Option (State W)
  | .worker w => stepWorker first waits w
  | .launch => stepLaunch

/-- Nothing is running, the launches are queued. -/
def init (base : ℤ) (launches : List ℕ) : State W where
  counter := base
  base := base
  barriers := 0
  later := launches
  pos := fun _ => .done

/-- Every launch has ended. -/
def Over (s : State W) : Prop := (∀ w, s.pos w = .done) ∧ s.later = []

def Safe (s : State W) : Prop :=
  ∀ w w', (s.pos w).left s.barriers ≤ (s.pos w').arrived s.barriers

/-- A worker that polls a barrier everybody has reached leaves it with its next step. -/
def CanLeave (s : State W) : Prop :=
  ∀ w b k, s.pos w = .poll b k → (∀ w', k + 1 ≤ (s.pos w').arrived s.barriers) →
    step first waits (.worker w) s = some (s.move w (enter s.barriers b (k + 1)))

/-- The run can be continued until every launch has ended. -/
def Finishes (s : State W) : Prop :=
  ∃ acts t, run (step first waits) acts s = some t ∧ Over t

/-- All arrivals at barriers of the running launch. -/
def State.arrivals (s : State W) : ℤ := ∑ w, ((s.pos w).arrived s.barriers : ℤ)

/-- The counter when the running launch started. -/
def State.launchBase (s : State W) : ℤ := s.counter - s.arrivals

/-- The steps left, polls that wait not counted. -/
def State.todo (s : State W) : ℕ :=
  ∑ w, (s.pos w).todo s.barriers + (s.later.map fun n => card W * (2 * n + 3) + 1).sum

/-- The invariant of a queue that starts at `low` and takes the counter to `limit`. -/
structure Inv (low limit : ℤ) (s : State W) : Prop where
  loaded : ∀ w b, (s.pos w).loaded = some b → b = s.launchBase
  cell : s.base = s.launchBase + if s.pos first = .done then (s.barriers : ℤ) * card W else 0
  inside : ∀ w, (s.pos w).Inside s.barriers
  safe : Safe s
  above : low ≤ s.launchBase
  room : s.launchBase + (s.barriers + s.later.sum) * card W = limit

/-- Between two targets the guard keeps waiting. -/
def Holds (W : Type) [Fintype W] (low limit : ℤ) : Prop :=
  ∀ c t : ℤ, low ≤ t - card W → t - card W < c → c < t → t ≤ limit → waits c t = true

/-- From the target on the guard gives way. -/
def Releases (low limit : ℤ) : Prop :=
  ∀ c t : ℤ, low ≤ t → t ≤ c → c ≤ limit → waits c t = false

end

/-! ## Positions -/

lemma arrived_le_left_succ (n : ℕ) (p : Pos) : p.arrived n ≤ p.left n + 1 := by
  cases p <;> simp [left, arrived]

variable {n : ℕ}

lemma arrived_le {p : Pos} (h : p.Inside n) : p.arrived n ≤ n := by
  cases p <;> simp only [Inside] at h <;> simp only [arrived] <;> omega

lemma arrived_enter {k : ℕ} (b : ℤ) (h : k ≤ n) : (enter n b k).arrived n = k := by
  unfold enter
  split
  · rfl
  · simp only [arrived]
    omega

lemma left_enter {k : ℕ} (b : ℤ) (h : k ≤ n) : (enter n b k).left n = k := by
  unfold enter
  split
  · rfl
  · simp only [left]
    omega

lemma loaded_enter (n k : ℕ) (b : ℤ) : (enter n b k).loaded = some b := by
  unfold enter
  split <;> rfl

lemma inside_enter (n k : ℕ) (b : ℤ) : (enter n b k).Inside n := by
  unfold enter
  split
  · assumption
  · trivial

lemma enter_ne_done (n k : ℕ) (b : ℤ) : enter n b k ≠ .done := by
  unfold enter
  split <;> simp

lemma todo_enter_le (n k : ℕ) (b : ℤ) : (enter n b k).todo n ≤ 2 * (n - k) + 2 := by
  unfold enter
  split <;> simp only [todo] <;> omega

section

variable {W : Type} [DecidableEq W]

@[simp] lemma move_pos_self (s : State W) (w : W) (p : Pos) : (s.move w p).pos w = p := by
  simp [State.move]

@[simp] lemma move_barriers (s : State W) (w : W) (p : Pos) : (s.move w p).barriers = s.barriers := rfl

lemma move_pos_of_ne {s : State W} {w w' : W} (p : Pos) (h : w' ≠ w) : (s.move w p).pos w' = s.pos w' := by
  simp [State.move, h]

end

section

variable {W : Type} [Fintype W] [DecidableEq W] {first : W} {waits : ℤ → ℤ → Bool}

variable {a : Action W} {s s' : State W} {low c b : ℤ} {w : W} {launches : List ℕ} {acts : List (Action W)}

lemma step_cases (h : step first waits a s = some s') :
    (∃ w, a = .worker w ∧ s.pos w = .start ∧ s' = s.move w (enter s.barriers s.base 0)) ∨
    (∃ w b k, a = .worker w ∧ s.pos w = .arrive b k ∧
      s' = { s.move w (.poll b k) with counter := s.counter + 1 }) ∨
    (∃ w b k, a = .worker w ∧ s.pos w = .poll b k ∧ waits s.counter (target W b k) = true ∧ s' = s) ∨
    (∃ w b k, a = .worker w ∧ s.pos w = .poll b k ∧ waits s.counter (target W b k) = false ∧
      s' = s.move w (enter s.barriers b (k + 1))) ∨
    (∃ w b, a = .worker w ∧ s.pos w = .finish b ∧
      s' = { s.move w .done with
        base := if w = first then b + s.barriers * card W else s.base }) ∨
    (a = .launch ∧ (∀ w, s.pos w = .done) ∧ ∃ n later, s.later = n :: later ∧
      s' = { s with barriers := n, later := later, pos := fun _ => .start }) := by
  cases a with
  | worker w =>
    simp only [step, stepWorker] at h
    split at h
    · exact .inl ⟨w, rfl, ‹_›, (Option.some.inj h).symm⟩
    · exact .inr (.inl ⟨w, _, _, rfl, ‹_›, (Option.some.inj h).symm⟩)
    · rename_i b k hpos
      split at h
      · exact .inr (.inr (.inl ⟨w, b, k, rfl, hpos, ‹_›, (Option.some.inj h).symm⟩))
      · rename_i hleave
        exact .inr (.inr (.inr (.inl ⟨w, b, k, rfl, hpos, by simpa using hleave, (Option.some.inj h).symm⟩)))
    · exact .inr (.inr (.inr (.inr (.inl ⟨w, _, rfl, ‹_›, (Option.some.inj h).symm⟩))))
    · cases h
  | launch =>
    simp only [step, stepLaunch] at h
    split at h
    · rename_i hdone
      split at h
      · cases h
      · exact .inr (.inr (.inr (.inr (.inr ⟨rfl, hdone, _, _, ‹_›, (Option.some.inj h).symm⟩))))
    · cases h

/-! ## The invariant -/

lemma sum_move (f : Pos → ℤ) (s : State W) (w : W) (p : Pos) :
    ∑ w', f ((s.move w p).pos w') = ∑ w', f (s.pos w') + (f p - f (s.pos w)) := by
  have hrest : ∑ w' ∈ univ.erase w, f ((s.move w p).pos w') = ∑ w' ∈ univ.erase w, f (s.pos w') :=
    sum_congr rfl fun w' hw' => by rw [move_pos_of_ne p (ne_of_mem_erase hw')]
  have hnew := add_sum_erase univ (fun w' => f ((s.move w p).pos w')) (mem_univ w)
  have hold := add_sum_erase univ (fun w' => f (s.pos w')) (mem_univ w)
  rw [hrest, move_pos_self] at hnew
  linarith

lemma arrivals_move (s : State W) (w : W) (p : Pos) : (s.move w p).arrivals =
      s.arrivals + ((p.arrived s.barriers : ℤ) - ((s.pos w).arrived s.barriers : ℤ)) :=
  sum_move (fun q => (q.arrived s.barriers : ℤ)) s w p

lemma Inv.move {limit : ℤ} (hi : Inv first low limit s) {q : Pos}
    (hc : c = s.counter + ((q.arrived s.barriers : ℤ) - ((s.pos w).arrived s.barriers : ℤ)))
    (hloaded : ∀ v, q.loaded = some v → v = s.launchBase) (hinside : q.Inside s.barriers)
    (hcell : b = s.launchBase +
      if (s.move w q).pos first = .done then (s.barriers : ℤ) * card W else 0)
    (hsafe : Safe (s.move w q)) :
    Inv first low limit { s.move w q with counter := c, base := b } := by
  have hbase : State.launchBase { s.move w q with counter := c, base := b } = s.launchBase := by
    have h := arrivals_move s w q
    simp only [State.arrivals] at h
    simp only [State.launchBase, State.arrivals, hc]
    linarith
  refine ⟨?_, ?_, ?_, hsafe, ?_, ?_⟩
  · intro w' v hv
    rw [hbase]
    by_cases hw : w' = w
    · subst hw
      exact hloaded v (by simpa using hv)
    · exact hi.loaded w' v (by simpa [move_pos_of_ne q hw] using hv)
  · rw [hbase]
    exact hcell
  · intro w'
    by_cases hw : w' = w
    · subst hw
      simpa using hinside
    · simpa [move_pos_of_ne q hw] using hi.inside w'
  · rw [hbase]
    exact hi.above
  · rw [hbase]
    exact hi.room

/-- A worker that enters keeps the base cell where it was. -/
lemma Inv.cell_of_ne {limit : ℤ} (hi : Inv first low limit s) {q : Pos} (hw : s.pos w ≠ .done) (hq : q ≠ .done) :
    s.base = s.launchBase + if (s.move w q).pos first = .done then (s.barriers : ℤ) * card W else 0 := by
  have hcell := hi.cell
  by_cases hf : first = w
  · subst hf
    simpa [hw, hq] using hcell
  · rwa [move_pos_of_ne q hf]

omit [DecidableEq W] in
lemma arrived_le_barriers {limit : ℤ} (hi : Inv first low limit s) (w : W) :
    (s.pos w).arrived s.barriers ≤ s.barriers := arrived_le (hi.inside w)

omit [DecidableEq W] in
lemma Inv.base_of_start {limit : ℤ} (hi : Inv first low limit s) (hw : s.pos w = .start) : s.base = s.launchBase := by
  rw [hi.cell]
  split
  · rename_i hdone
    have h := hi.safe first w
    simp only [hdone, hw, left, arrived] at h
    have hzero : s.barriers = 0 := by omega
    simp [hzero]
  · simp

lemma inv_step {limit : ℤ} (hi : Inv first low limit s) (h : step first waits a s = some s') (hsafe : Safe s') :
    Inv first low limit s' := by
  obtain ⟨w, -, hpos, rfl⟩ | ⟨w, b, k, -, hpos, rfl⟩ | ⟨w, b, k, -, -, -, rfl⟩ |
    ⟨w, b, k, -, hpos, -, rfl⟩ | ⟨w, b, -, hpos, rfl⟩ | ⟨-, hdone, n, later, hlater, rfl⟩ := step_cases h
  · refine hi.move (c := s.counter) (b := s.base) ?_ ?_ (inside_enter _ _ _) ?_ hsafe
    · rw [arrived_enter _ (Nat.zero_le _), hpos]
      simp [arrived]
    · intro v hv
      rw [loaded_enter, Option.some.injEq] at hv
      rw [← hv, hi.base_of_start hpos]
    · exact hi.cell_of_ne (by simp [hpos]) (enter_ne_done _ _ _)
  · refine hi.move (b := s.base) ?_ ?_ ?_ ?_ hsafe
    · rw [hpos]
      simp only [arrived]
      push_cast
      ring
    · intro v hv
      exact hi.loaded w v (by rw [hpos]; exact hv)
    · have hin := hi.inside w
      rw [hpos] at hin
      exact hin
    · exact hi.cell_of_ne (by simp [hpos]) (by simp)
  · exact hi
  · have hin := hi.inside w
    rw [hpos] at hin
    refine hi.move (c := s.counter) (b := s.base) ?_ ?_ (inside_enter _ _ _) ?_ hsafe
    · rw [arrived_enter _ hin, hpos]
      simp [arrived]
    · intro v hv
      rw [loaded_enter] at hv
      exact hi.loaded w v (by rw [hpos]; exact hv)
    · exact hi.cell_of_ne (by simp [hpos]) (enter_ne_done _ _ _)
  · refine hi.move (c := s.counter) ?_ (by simp [loaded]) trivial ?_ hsafe
    · rw [hpos]
      simp [arrived]
    · by_cases hf : w = first
      · subst hf
        have hb := hi.loaded w b (by rw [hpos]; rfl)
        simp [hb]
      · have hcell := hi.cell
        rw [if_neg hf, move_pos_of_ne _ (Ne.symm hf)]
        exact hcell
  · have harr : s.arrivals = s.barriers * card W := by
      simp [State.arrivals, hdone, arrived, mul_comm]
    have hnew : State.launchBase { s with barriers := n, later := later, pos := fun _ : W => Pos.start }
        = s.counter := by
      simp [State.launchBase, State.arrivals, arrived]
    have hold : s.launchBase = s.counter - s.barriers * card W := by
      rw [State.launchBase, harr]
    refine ⟨by simp [loaded], ?_, by simp [Inside], hsafe, ?_, ?_⟩
    · have hcell := hi.cell
      rw [if_pos (hdone first), hold] at hcell
      rw [hnew]
      simpa using hcell
    · have habove := hi.above
      have hpos : (0 : ℤ) ≤ s.barriers * card W := by positivity
      linarith
    · have hroom := hi.room
      rw [hold, hlater] at hroom
      rw [hnew, ← hroom]
      push_cast [List.sum_cons]
      ring

omit [DecidableEq W] in
lemma inv_init (base : ℤ) (launches : List ℕ) :
    Inv (W := W) first base (base + launches.sum * card W) (init base launches) := by
  refine ⟨by simp [init, loaded], ?_, by simp [init, Inside], ?_, ?_, ?_⟩
  · simp [init, State.launchBase, State.arrivals, arrived]
  · intro w _
    simp [init, left, arrived]
  · simp [init, State.launchBase, State.arrivals, arrived]
  · simp [init, State.launchBase, State.arrivals, arrived]

/-! ## Counting, under any guard -/

/-- The counter is what `k` launches of the queue have added, up to the arrivals still to come. -/
def Counted (base : ℤ) (launches : List ℕ) (s : State W) : Prop :=
  (∀ w, (s.pos w).Inside s.barriers) ∧ ∃ k ≤ launches.length, s.later = launches.drop k ∧
    s.launchBase + s.barriers * card W = base + (launches.take k).sum * card W

lemma Counted.move {base : ℤ} (hs : Counted base launches s) {q : Pos}
    (hc : c = s.counter + ((q.arrived s.barriers : ℤ) - ((s.pos w).arrived s.barriers : ℤ)))
    (hinside : q.Inside s.barriers) : Counted base launches { s.move w q with counter := c, base := b } := by
  obtain ⟨hin, k, hk, hlater, hbase⟩ := hs
  refine ⟨fun w' => ?_, k, hk, hlater, ?_⟩
  · by_cases hw : w' = w
    · subst hw
      simpa using hinside
    · simpa [move_pos_of_ne q hw] using hin w'
  · have harr : State.arrivals { s.move w q with counter := c, base := b } =
        s.arrivals + ((q.arrived s.barriers : ℤ) - ((s.pos w).arrived s.barriers : ℤ)) := arrivals_move s w q
    have hsame : State.launchBase { s.move w q with counter := c, base := b } = s.launchBase := by
      rw [State.launchBase, State.launchBase, harr, hc]
      ring
    rw [hsame]
    exact hbase

lemma counted_step {base : ℤ}
    (h : step first waits a s = some s') (hs : Counted base launches s) : Counted base launches s' := by
  obtain ⟨w, -, hpos, rfl⟩ | ⟨w, b, k, -, hpos, rfl⟩ | ⟨w, b, k, -, -, -, rfl⟩ |
    ⟨w, b, k, -, hpos, -, rfl⟩ | ⟨w, b, -, hpos, rfl⟩ | ⟨-, hdone, n, later, hlater, rfl⟩ := step_cases h
  · refine hs.move (c := s.counter) (b := s.base) ?_ (inside_enter _ _ _)
    rw [arrived_enter _ (Nat.zero_le _), hpos]
    simp [arrived]
  · have hin := hs.1 w
    rw [hpos] at hin
    refine hs.move (b := s.base) ?_ hin
    rw [hpos]
    simp only [arrived]
    push_cast
    ring
  · exact hs
  · have hin := hs.1 w
    rw [hpos] at hin
    refine hs.move (c := s.counter) (b := s.base) ?_ (inside_enter _ _ _)
    rw [arrived_enter _ hin, hpos]
    simp [arrived]
  · refine hs.move (c := s.counter) ?_ trivial
    rw [hpos]
    simp [arrived]
  · obtain ⟨-, k, hk, hdrop, hbase⟩ := hs
    have hlt : k < launches.length := by
      by_contra hge
      rw [List.drop_eq_nil_of_le (not_lt.mp hge), hlater] at hdrop
      cases hdrop
    rw [List.drop_eq_getElem_cons hlt, hlater, List.cons.injEq] at hdrop
    refine ⟨by simp [Inside], k + 1, hlt, hdrop.2, ?_⟩
    have harr : s.arrivals = s.barriers * card W := by
      simp [State.arrivals, hdone, arrived, mul_comm]
    rw [State.launchBase, harr] at hbase
    rw [List.take_add_one, List.getElem?_eq_getElem hlt, List.sum_append, ← hdrop.1]
    simp only [State.launchBase, State.arrivals, arrived, Nat.cast_zero, sum_const_zero, Option.toList_some,
      List.sum_singleton, Nat.cast_add, add_mul]
    linarith

lemma counter_of_done {base : ℤ}
    (hrun : run (step first waits) acts (init base launches) = some s) (hdone : ∀ w, s.pos w = .done) :
    s.later.length ≤ launches.length ∧
      s.counter = base + (launches.take (launches.length - s.later.length)).sum * card W := by
  have hstart : Counted base launches (init (W := W) base launches) := by
    refine ⟨by simp [init, Inside], 0, Nat.zero_le _, rfl, ?_⟩
    simp [init, State.launchBase, State.arrivals, arrived]
  obtain ⟨-, k, hk, hlater, hbase⟩ := run_invariant (fun _ _ _ h hs => counted_step h hs) hrun hstart
  have hlen : s.later.length = launches.length - k := by rw [hlater, List.length_drop]
  have harr : s.arrivals = s.barriers * card W := by
    simp [State.arrivals, hdone, arrived, mul_comm]
  rw [State.launchBase, harr] at hbase
  refine ⟨by omega, ?_⟩
  rw [show launches.length - s.later.length = k by omega]
  linarith

/-! ## A guard that holds -/

section

omit [DecidableEq W]

variable {limit : ℤ} (hi : Inv first low limit s)
include hi

lemma arrivals_le : s.counter ≤ limit := by
  have harr : s.arrivals ≤ s.barriers * card W := by
    refine (sum_le_card_nsmul univ _ (s.barriers : ℤ) fun w _ => ?_).trans_eq ?_
    · exact_mod_cast arrived_le_barriers hi w
    · simp [mul_comm]
  have hlater : (0 : ℤ) ≤ s.later.sum * card W := by positivity
  have hroom := hi.room
  have hbase : s.launchBase = s.counter - s.arrivals := rfl
  linarith

lemma target_le {k : ℕ} (hk : k < s.barriers) : target W s.launchBase k ≤ limit := by
  have hmono : ((k : ℤ) + 1) * card W ≤ (s.barriers + s.later.sum) * card W := by
    refine mul_le_mul_of_nonneg_right ?_ (by positivity)
    linarith
  have hroom := hi.room
  unfold target
  linarith

variable {k : ℕ} (hpos : s.pos w = .poll b k)
include hpos

/-- A worker at a barrier finds all earlier barriers complete. -/
lemma counter_of_poll : target W b k - card W < s.counter := by
  have hb := hi.loaded w b (by rw [hpos]; rfl)
  have hlow : ∑ _w : W, (k : ℤ) < s.arrivals := by
    refine sum_lt_sum (fun w' _ => ?_) ⟨w, mem_univ w, ?_⟩
    · have h := hi.safe w w'
      rw [hpos] at h
      exact_mod_cast h
    · rw [hpos]
      simp [arrived]
  have hbase : s.launchBase = s.counter - s.arrivals := rfl
  simp only [sum_const, card_univ, nsmul_eq_mul] at hlow
  unfold target
  linarith

lemma counter_lt_of_missing {w' : W} (hw' : (s.pos w').arrived s.barriers ≤ k) : s.counter < target W b k := by
  have hb := hi.loaded w b (by rw [hpos]; rfl)
  have hup : s.arrivals < ∑ _w : W, ((k : ℤ) + 1) := by
    refine sum_lt_sum (fun v _ => ?_) ⟨w', mem_univ w', ?_⟩
    · have hv := hi.safe v w'
      have hstep := arrived_le_left_succ s.barriers (s.pos v)
      have : (s.pos v).arrived s.barriers ≤ k + 1 := by omega
      exact_mod_cast this
    · have : (s.pos w').arrived s.barriers < k + 1 := by omega
      exact_mod_cast this
  have hbase : s.launchBase = s.counter - s.arrivals := rfl
  simp only [sum_const, card_univ, nsmul_eq_mul] at hup
  unfold target
  linarith

lemma target_le_counter (hall : ∀ w', k + 1 ≤ (s.pos w').arrived s.barriers) :
    target W b k ≤ s.counter := by
  have hb := hi.loaded w b (by rw [hpos]; rfl)
  have hlow : ∑ _w : W, ((k : ℤ) + 1) ≤ s.arrivals := sum_le_sum fun w' _ => by exact_mod_cast hall w'
  have hbase : s.launchBase = s.counter - s.arrivals := rfl
  simp only [sum_const, card_univ, nsmul_eq_mul] at hlow
  unfold target
  linarith

lemma low_le_target : low ≤ target W b k - card W := by
  have hb := hi.loaded w b (by rw [hpos]; rfl)
  have habove := hi.above
  have hk : (0 : ℤ) ≤ k * card W := by positivity
  unfold target
  linarith

lemma target_le_limit : target W b k ≤ limit := by
  have hin := hi.inside w
  rw [hpos] at hin
  rw [hi.loaded w b (by rw [hpos]; rfl)]
  exact target_le hi hin

end

omit [Fintype W] in
lemma safe_move {s : State W} (hs : Safe s) {w : W} {q : Pos}
    (harr : (s.pos w).arrived s.barriers ≤ q.arrived s.barriers)
    (hleft : ∀ w', q.left s.barriers ≤ (s.pos w').arrived s.barriers) : Safe (s.move w q) := by
  intro w₁ w₂
  have hge : (s.pos w₂).arrived s.barriers ≤ ((s.move w q).pos w₂).arrived s.barriers := by
    by_cases h₂ : w₂ = w
    · subst h₂
      simpa using harr
    · rw [move_pos_of_ne q h₂]
  refine le_trans ?_ hge
  by_cases h₁ : w₁ = w
  · subst h₁
    simpa using hleft w₂
  · rw [move_pos_of_ne q h₁]
    exact hs w₁ w₂

lemma safe_step {limit : ℤ} (hholds : Holds waits W low limit)
    (hi : Inv first low limit s) (h : step first waits a s = some s') : Safe s' := by
  obtain ⟨w, -, hpos, rfl⟩ | ⟨w, b, k, -, hpos, rfl⟩ | ⟨w, b, k, -, -, -, rfl⟩ |
    ⟨w, b, k, -, hpos, hleave, rfl⟩ | ⟨w, b, -, hpos, rfl⟩ | ⟨-, -, n, later, -, rfl⟩ := step_cases h
  · refine safe_move hi.safe (by rw [hpos]; simp [arrived]) fun w' => ?_
    rw [left_enter _ (Nat.zero_le _)]
    exact Nat.zero_le _
  · refine safe_move hi.safe (by rw [hpos]; simp [arrived]) fun w' => ?_
    have hk := hi.safe w w'
    rw [hpos] at hk
    exact hk
  · exact hi.safe
  · -- the guard gave way, so nobody is missing
    have hin := hi.inside w
    rw [hpos] at hin
    refine safe_move hi.safe ?_ fun w' => ?_
    · rw [hpos, arrived_enter _ hin]
      simp [arrived]
    · rw [left_enter _ hin]
      by_contra hmiss
      have hbelow := counter_lt_of_missing hi hpos (show (s.pos w').arrived s.barriers ≤ k by omega)
      have hwait := hholds _ _ (low_le_target hi hpos) (counter_of_poll hi hpos) hbelow (target_le_limit hi hpos)
      rw [hleave] at hwait
      cases hwait
  · refine safe_move hi.safe (by rw [hpos]; simp [arrived]) fun w' => ?_
    have hend := hi.safe w w'
    rw [hpos] at hend
    exact hend
  · intro w _
    simp [left]

lemma safe_run {base : ℤ} (hholds : Holds waits W base (base + launches.sum * card W))
    (hrun : run (step first waits) acts (init base launches) = some s) :
    Inv first base (base + launches.sum * card W) s :=
  run_invariant (fun _ _ _ h hi => inv_step hi h (safe_step hholds hi h)) hrun (inv_init base launches)

/-- The invariant also holds along a run whose states are all known to be safe. -/
lemma inv_run {base : ℤ}
    (hsafe : ∀ acts (s : State W), run (step first waits) acts (init base launches) = some s → Safe s)

    (hrun : run (step first waits) acts (init base launches) = some s) :
    Inv first base (base + launches.sum * card W) s := by
  induction acts using List.reverseRecOn generalizing s with
  | nil =>
    cases hrun
    exact inv_init base launches
  | append_singleton acts a ih =>
    obtain ⟨_, h₁, h⟩ := run_append.mp hrun
    obtain ⟨_, ha, hs₂⟩ := run_cons.mp h
    cases hs₂
    exact inv_step (ih h₁) ha (hsafe _ _ hrun)

/-! ## A guard that releases -/

lemma canLeave {limit : ℤ} (hrel : Releases waits low limit)
    (hi : Inv first low limit s) : CanLeave first waits s := by
  intro w b k hpos hall
  have hlow := low_le_target hi hpos
  have hwait := hrel _ _ (by linarith) (target_le_counter hi hpos hall) (arrivals_le hi)
  simp [step, stepWorker, hpos, hwait]

lemma sum_todo_move (s : State W) (w : W) {q : Pos} (hq : q.todo s.barriers < (s.pos w).todo s.barriers) :
    ∑ w', ((s.move w q).pos w').todo s.barriers < ∑ w', (s.pos w').todo s.barriers := by
  refine sum_lt_sum (fun w' _ => ?_) ⟨w, mem_univ w, by simpa using hq⟩
  by_cases hw : w' = w
  · subst hw
    simpa using hq.le
  · rw [move_pos_of_ne q hw]

/-- A worker that nobody is behind makes a step that counts. -/
lemma advance {limit : ℤ} (hrel : Releases waits low limit) (hi : Inv first low limit s) (hw : s.pos w ≠ .done)
    (hmin : ∀ w', (s.pos w).arrived s.barriers ≤ (s.pos w').arrived s.barriers) :
    ∃ s', step first waits (.worker w) s = some s' ∧ s'.todo < s.todo := by
  have hin := hi.inside w
  cases hpos : s.pos w with
  | start =>
    refine ⟨s.move w (enter s.barriers s.base 0), by simp only [step, stepWorker, hpos],
      Nat.add_lt_add_right (sum_todo_move s w ?_) _⟩
    refine (todo_enter_le s.barriers 0 s.base).trans_lt ?_
    simp [hpos, todo]
  | arrive b k =>
    refine ⟨{ s.move w (.poll b k) with counter := s.counter + 1 },
      by simp [step, stepWorker, hpos], Nat.add_lt_add_right (sum_todo_move s w ?_) _⟩
    simp [hpos, todo]
  | poll b k =>
    rw [hpos] at hin
    refine ⟨_, canLeave hrel hi w b k hpos fun w' => ?_, Nat.add_lt_add_right (sum_todo_move s w ?_) _⟩
    · have h := hmin w'
      rw [hpos] at h
      exact h
    · have hk : k < s.barriers := hin
      refine (todo_enter_le s.barriers (k + 1) b).trans_lt ?_
      simp only [hpos, todo]
      omega
  | finish b =>
    refine ⟨{ s.move w .done with
        base := if w = first then b + s.barriers * card W else s.base },
      by simp [step, stepWorker, hpos], Nat.add_lt_add_right (sum_todo_move s w ?_) _⟩
    simp [hpos, todo]
  | done => exact absurd hpos hw

lemma exists_step {limit : ℤ} (hrel : Releases waits low limit) (hi : Inv first low limit s) (hover : ¬ Over s) :
    ∃ a s', step first waits a s = some s' ∧ s'.todo < s.todo := by
  by_cases hdone : ∀ w, s.pos w = .done
  · cases hlater : s.later with
    | nil => exact absurd ⟨hdone, hlater⟩ hover
    | cons n later =>
      refine ⟨.launch, { s with barriers := n, later := later, pos := fun _ => .start },
        by simp [step, stepLaunch, if_pos hdone, hlater], ?_⟩
      simp only [State.todo, hdone, hlater, todo, sum_const, card_univ, smul_eq_mul, List.map_cons, List.sum_cons]
      omega
  · push Not at hdone
    obtain ⟨w₀, hw₀⟩ := hdone
    obtain ⟨m, -, hm⟩ := exists_min_image univ (fun w => (s.pos w).arrived s.barriers) ⟨w₀, mem_univ w₀⟩
    by_cases hpos : s.pos m = .done
    · -- the last one is done, so nobody is behind anybody
      refine ⟨_, advance hrel hi hw₀ fun w' => ?_⟩
      have hm' := hm w' (mem_univ w')
      simp only [hpos, arrived] at hm'
      exact (arrived_le_barriers hi w₀).trans hm'
    · exact ⟨_, advance hrel hi hpos fun w' => hm w' (mem_univ w')⟩

/-- **Progress**: a run through safe states can be continued until every launch has ended. -/
theorem finishes {base : ℤ}
    (hsafe : ∀ acts (s : State W), run (step first waits) acts (init base launches) = some s → Safe s)
    (hrel : Releases waits base (base + launches.sum * card W))
    (hrun : run (step first waits) acts (init base launches) = some s) : Finishes first waits s := by
  induction hm : s.todo using Nat.strong_induction_on generalizing acts s with
  | _ m ih =>
    by_cases hover : Over s
    · exact ⟨[], s, rfl, hover⟩
    · obtain ⟨a, s', hstep, hlt⟩ := exists_step hrel (inv_run hsafe hrun) hover
      have hrun' : run (step first waits) (acts ++ [a]) (init base launches) = some s' :=
        run_append.mpr ⟨s, hrun, run_cons.mpr ⟨s', hstep, rfl⟩⟩
      obtain ⟨rest, t, hrest, ht⟩ := ih _ (hm ▸ hlt) hrun' rfl
      exact ⟨a :: rest, t, run_cons.mpr ⟨s', hstep, hrest⟩, ht⟩

/-! ## A guard that gives way early -/

lemma run_crosses {t : State W}
    (hrun : run (step first waits) acts s = some t) (hs : s.counter < c) (ht : c ≤ t.counter) :
    ∃ pre a s₁ s₂, run (step first waits) pre s = some s₁ ∧ step first waits a s₁ = some s₂ ∧
      s₁.counter < c ∧ c ≤ s₂.counter := by
  induction acts generalizing s with
  | nil =>
    cases hrun
    omega
  | cons a acts ih =>
    obtain ⟨s', h, hrest⟩ := run_cons.mp hrun
    by_cases hs' : s'.counter < c
    · obtain ⟨pre, a', s₁, s₂, hpre, h'⟩ := ih hrest hs'
      exact ⟨a :: pre, a', s₁, s₂, run_cons.mpr ⟨s', h, hpre⟩, h'⟩
    · exact ⟨[], a, s, s', rfl, h, hs, by omega⟩

lemma arrive_of_counter_lt (h : step first waits a s = some s') (hlt : s.counter < s'.counter) :
    ∃ w b k, s.pos w = .arrive b k ∧ s'.counter = s.counter + 1 := by
  obtain ⟨w, -, hpos, rfl⟩ | ⟨w, b, k, -, hpos, rfl⟩ | ⟨w, b, k, -, -, -, rfl⟩ |
    ⟨w, b, k, -, hpos, -, rfl⟩ | ⟨w, b, -, hpos, rfl⟩ | ⟨-, -, n, later, -, rfl⟩ := step_cases h
  · exact absurd hlt (lt_irrefl s.counter)
  · exact ⟨w, b, k, hpos, rfl⟩
  · exact absurd hlt (lt_irrefl _)
  · exact absurd hlt (lt_irrefl s.counter)
  · exact absurd hlt (lt_irrefl s.counter)
  · exact absurd hlt (lt_irrefl s.counter)

lemma last_missing {limit : ℤ} (hi : Inv first low limit s) {w₀ : W} {k : ℕ}
    (hw₀ : s.pos w₀ = .arrive b k) (hcounter : s.counter = limit - 1) :
    s.later.sum = 0 ∧ k + 1 = s.barriers ∧ ∀ w, w ≠ w₀ → (s.pos w).arrived s.barriers = s.barriers := by
  have hk := hi.inside w₀
  rw [hw₀] at hk
  have hk : k < s.barriers := hk
  -- the arrivals still missing add up to one
  have hmissing : ∑ w, ((s.barriers : ℤ) - (s.pos w).arrived s.barriers) + s.later.sum * card W = 1 := by
    have hroom := hi.room
    have hbase : s.launchBase = s.counter - s.arrivals := rfl
    have harr : s.arrivals = ∑ w, ((s.pos w).arrived s.barriers : ℤ) := rfl
    rw [sum_sub_distrib]
    simp only [sum_const, card_univ, nsmul_eq_mul]
    linarith [mul_comm (s.barriers : ℤ) (card W)]
  have hnonneg : ∀ w, (0 : ℤ) ≤ s.barriers - (s.pos w).arrived s.barriers := fun w => by
    have h := arrived_le_barriers hi w
    linarith
  have hsplit := add_sum_erase univ (fun w => (s.barriers : ℤ) - (s.pos w).arrived s.barriers) (mem_univ w₀)
  have hrest : (0 : ℤ) ≤ ∑ w ∈ univ.erase w₀, ((s.barriers : ℤ) - (s.pos w).arrived s.barriers) :=
    sum_nonneg fun w _ => hnonneg w
  have hlater : (0 : ℤ) ≤ s.later.sum * card W := by positivity
  have hfirst : (1 : ℤ) ≤ s.barriers - (s.pos w₀).arrived s.barriers := by
    rw [hw₀]
    simp only [arrived]
    linarith
  have hcard : 0 < card W := Fintype.card_pos_iff.mpr ⟨w₀⟩
  refine ⟨?_, ?_, ?_⟩
  · have hzero : ((s.later.sum : ℤ)) * card W = 0 := by linarith
    have hzero' : s.later.sum * card W = 0 := by exact_mod_cast hzero
    rcases Nat.mul_eq_zero.mp hzero' with h | h
    · exact h
    · omega
  · have hone : (s.barriers : ℤ) - (s.pos w₀).arrived s.barriers = 1 := by linarith
    rw [hw₀] at hone
    simp only [arrived] at hone
    omega
  · intro w hw
    have hzero : ∑ w ∈ univ.erase w₀, ((s.barriers : ℤ) - (s.pos w).arrived s.barriers) = 0 := by
      linarith
    have h := (sum_eq_zero_iff_of_nonneg fun w _ => hnonneg w).mp hzero w (mem_erase.mpr ⟨hw, mem_univ w⟩)
    omega

omit [Fintype W] [DecidableEq W] in
lemma poll_of_arrived {s : State W} (hs : Safe s) (hin : ∀ w, (s.pos w).Inside s.barriers) {w w₀ : W}
    (hw : (s.pos w).arrived s.barriers = s.barriers) (hw₀ : (s.pos w₀).arrived s.barriers < s.barriers) :
    ∃ b k, s.pos w = .poll b k ∧ k + 1 = s.barriers := by
  have hleft := hs w w₀
  have hk := hin w
  cases hpos : s.pos w <;> rw [hpos] at hw hleft hk <;> simp only [arrived] at hw <;>
    simp only [left] at hleft <;> simp only [Inside] at hk
  case poll b k => exact ⟨b, k, rfl, hw⟩
  all_goals omega

lemma exists_unsafe {base : ℤ} (hW : 1 < card W) (hsum : launches.sum ≠ 0)
    (hrel : Releases waits base (base + launches.sum * card W))
    (hearly : waits (base + launches.sum * card W - 1) (base + launches.sum * card W) = false) :
    ∃ acts s, run (step first waits) acts (init base launches) = some s ∧ ¬ Safe s := by
  by_contra hnone
  have hsafe : ∀ acts (s : State W), run (step first waits) acts (init base launches) = some s → Safe s :=
    fun acts s h => by_contra fun hs => hnone ⟨acts, s, h, hs⟩
  -- the run to the end of the queue passes through the state before the last arrival
  obtain ⟨_, t, hrun, hdone, hlater⟩ := finishes hsafe hrel (run_nil (init base launches))
  have hend : t.counter = base + launches.sum * card W := by
    have hroom := (inv_run hsafe hrun).room
    have harr : t.arrivals = t.barriers * card W := by
      simp [State.arrivals, hdone, arrived, mul_comm]
    rw [State.launchBase, harr, hlater] at hroom
    simpa using hroom
  have hstart : (init (W := W) base launches).counter < base + launches.sum * card W := by
    have hpos : 0 < launches.sum * card W := mul_pos (by omega) (by omega)
    have : (0 : ℤ) < launches.sum * card W := by exact_mod_cast hpos
    simp only [init]
    linarith
  obtain ⟨pre, a, s₁, _, hpre, hstep, h₁, h₂⟩ := run_crosses hrun hstart hend.ge
  obtain ⟨w₀, _, _, hw₀, hcounter⟩ := arrive_of_counter_lt hstep (by linarith)
  have hi := inv_run hsafe hpre
  have hc : s₁.counter = base + launches.sum * card W - 1 := by linarith
  obtain ⟨hsum₁, hk₀, hothers⟩ := last_missing hi hw₀ hc
  -- somebody else polls that barrier, and leaves
  obtain ⟨w, hw⟩ := Fintype.exists_ne_of_one_lt_card hW w₀
  have hbehind : (s₁.pos w₀).arrived s₁.barriers < s₁.barriers := by
    rw [hw₀]
    simp only [arrived]
    omega
  obtain ⟨b, k, hpoll, hk⟩ := poll_of_arrived hi.safe hi.inside (hothers w hw) hbehind
  have htarget : target W b k = base + launches.sum * card W := by
    have hb := hi.loaded w b (by rw [hpoll]; rfl)
    have hroom := hi.room
    have hk' : (k : ℤ) + 1 = s₁.barriers := by exact_mod_cast hk
    rw [hsum₁, ← hk', Nat.cast_zero, add_zero] at hroom
    rw [target, hb, hroom]
  have hleave : step first waits (.worker w) s₁ = some (s₁.move w (enter s₁.barriers b (k + 1))) := by
    simp only [step, stepWorker, hpoll, htarget, hc, hearly]
    rfl
  have hbad := hsafe _ _ (run_append.mpr ⟨s₁, hpre, run_cons.mpr ⟨_, hleave, run_nil _⟩⟩) w w₀
  rw [move_pos_self, move_pos_of_ne _ (Ne.symm hw), move_barriers, left_enter _ (by omega)] at hbad
  omega

end

end VKernels.SpinBarrier
