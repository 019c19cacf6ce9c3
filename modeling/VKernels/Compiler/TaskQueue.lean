import VKernels.Lib.CountedReady

/-!
# The ready-task runtime

Model of `compiler/runtime/task_queue.py`: the per-task predecessor counters, the ready queue
and the CPU dispatch loop over them.

* `ReadyTaskState` — `remaining`, `ready`, `retired` and `_enqueued`; `initializeState`, `claim` and
  `complete` are the three methods.
* `Step` — any number of workers (`W`) sharing one queue: a worker without a task claims one, a
  worker with a task completes it, in any order.  `Run.Inv` is the invariant of every reachable
  state.

## Results

* `Run.Inv.step` / `Run.Inv.reachable` — one step, and whole runs.
* `simulateFifoExecution_acyclic`, `simulateFifoExecution_cyclic` — the loop retires every task
  of an acyclic graph and raises on a graph with a cycle.
* `ready_queue_sound` — the safety and progress of the queue together with both loop facts.
-/

namespace VKernels.TaskQueue

open CountedReady
open List hiding le_antisymm
open Function (update)
open DepGraph.Topo (acyclic concat nil)

variable {K : Type} [LinearOrder K]

/-- Predecessor sets over task keys, in the dictionary's order.  A predecessor that is not a
    key makes `successors` raise `KeyError`, so the sets name keys only. -/
abbrev TaskDeps (K : Type) [LinearOrder K] := DepGraph K

/-- Remaining counts, ready queue, retired count, and every key ever enqueued. -/
structure ReadyTaskState (K : Type) where
  remaining : K → ℤ
  ready : List K
  retired : ℕ
  enqueued : Finset K

namespace ReadyTaskState

/-- `_enqueue`: each task enqueued at most once. -/
def enqueue (s : ReadyTaskState K) (key : K) : ReadyTaskState K :=
  if key ∈ s.enqueued then s
  else { s with enqueued := insert key s.enqueued, ready := s.ready ++ [key] }

/-- One entry of the loop of `initialize`: the count, and the root into the queue. -/
def seed (deps : TaskDeps K) (s : ReadyTaskState K) (k : K) : ReadyTaskState K :=
  let s := { s with remaining := update s.remaining k (deps.preds k).card }
  if deps.preds k = ∅ then s.enqueue k else s

def initializeState (deps : TaskDeps K) : ReadyTaskState K :=
  deps.nodes.foldl (seed deps) ⟨fun _ => 0, [], 0, ∅⟩

/-- Pop one ready task, or nothing. -/
def claim (s : ReadyTaskState K) : Option K × ReadyTaskState K :=
  match s.ready with
  | [] => (none, s)
  | k :: q => (some k, { s with ready := q })

/-- One successor of a completed task. -/
def notify (s : ReadyTaskState K) (t : K) : ReadyTaskState K :=
  let s := { s with remaining := update s.remaining t (s.remaining t - 1) }
  if s.remaining t = 0 then s.enqueue t else s

/-- Notify the successors, retire, and return the successors sorted.  `none` is the `KeyError`
    of a key that is not a task. -/
def complete (it : SetOrder K) (deps : TaskDeps K) (s : ReadyTaskState K) (key : K) :
    Option (ReadyTaskState K × List K) :=
  if key ∈ deps.nodes then
    let s := (it.list (deps.succs key)).foldl notify s
    some ({ s with retired := s.retired + 1 }, (deps.succs key).sort)
  else none

def finished (deps : TaskDeps K) (s : ReadyTaskState K) : Prop := s.retired = deps.nodes.length

instance (deps : TaskDeps K) (s : ReadyTaskState K) : Decidable (s.finished deps) :=
  inferInstanceAs (Decidable (_ = _))

def counters (s : ReadyTaskState K) : Counters K := ⟨s.remaining, s.ready⟩

end ReadyTaskState

/-! ## The state against the counting invariant -/

/-- The queue after the tasks `claimed` were popped and the tasks `completed` retired. -/
structure QueueInv (deps : TaskDeps K) (claimed completed : List K) (s : ReadyTaskState K) :
    Prop where
  count : CountInv deps claimed completed s.counters
  enqueued : ∀ k, k ∈ s.enqueued ↔ k ∈ claimed ∨ k ∈ s.ready
  retired : s.retired = completed.length

namespace ReadyTaskState

lemma foldl_seed (deps : TaskDeps K) : ∀ (l : List K) (s : ReadyTaskState K), l.Nodup →
    (∀ k ∈ l, k ∉ s.enqueued) → (∀ k, k ∈ s.enqueued ↔ k ∈ s.ready) → let s' := l.foldl (seed deps) s
    (∀ k, s'.remaining k = if k ∈ l then ((deps.preds k).card : ℤ) else s.remaining k) ∧
      s'.ready = s.ready ++ l.filter (fun k => decide (deps.preds k = ∅)) ∧
      (∀ k, k ∈ s'.enqueued ↔ k ∈ s'.ready) ∧ s'.retired = s.retired
  | [], s, _, _, he => by simpa using he
  | t :: ts, s, hnd, hfresh, he => by
    obtain ⟨ht, hts⟩ := nodup_cons.mp hnd
    have htq : t ∉ s.enqueued := hfresh t (by simp)
    have hstep : (seed deps s t).remaining = update s.remaining t (deps.preds t).card ∧
        (seed deps s t).ready = s.ready ++ [t].filter (fun k => decide (deps.preds k = ∅)) ∧
        (∀ k, k ∈ (seed deps s t).enqueued ↔ k ∈ (seed deps s t).ready) ∧
        (seed deps s t).retired = s.retired ∧
        (∀ k, k ∈ (seed deps s t).enqueued → k ∈ s.enqueued ∨ k = t) := by
      by_cases hroot : deps.preds t = ∅
      · simp [seed, enqueue, hroot, htq, he, or_comm]
      · have hseed : seed deps s t = { s with remaining := update s.remaining t (deps.preds t).card } := by
          simp [seed, hroot]
        rw [hseed]
        exact ⟨rfl, by simp [hroot], he, rfl, fun k hk => .inl hk⟩
    obtain ⟨hrem, hready, henq, hret, hsub⟩ := hstep
    have hfresh' : ∀ k ∈ ts, k ∉ (seed deps s t).enqueued := by
      intro k hk hmem
      rcases hsub k hmem with h | h
      · exact hfresh k (by simp [hk]) h
      · exact ht (h ▸ hk)
    obtain ⟨ih1, ih2, ih3, ih4⟩ := foldl_seed deps ts _ hts hfresh' henq
    refine ⟨fun k => ?_, ?_, ih3, by rw [foldl_cons, ih4, hret]⟩
    · rw [foldl_cons, ih1, hrem]
      by_cases hkt : k = t
      · subst hkt; simp
      · simp [hkt]
    · rw [foldl_cons, ih2, hready, append_assoc, ← filter_append, singleton_append]

lemma foldl_notify : ∀ (ss : List K) (s : ReadyTaskState K), ss.Nodup →
    (∀ t ∈ ss, s.remaining t = 1 → t ∉ s.enqueued) → let s' := ss.foldl notify s
    s'.counters = s.counters.release ss ∧ s'.retired = s.retired ∧
      ∀ k, k ∈ s'.enqueued ↔ k ∈ s.enqueued ∨ (k ∈ ss ∧ s.remaining k = 1)
  | [], s, _, _ => by simp [Counters.release]
  | t :: ts, s, hnd, hfresh => by
    obtain ⟨ht, hts⟩ := nodup_cons.mp hnd
    have hstep : (notify s t).counters = s.counters.dec t ∧ (notify s t).retired = s.retired ∧
        ∀ k, k ∈ (notify s t).enqueued ↔ k ∈ s.enqueued ∨ (k = t ∧ s.remaining t = 1) := by
      by_cases h1 : s.remaining t = 1
      · have htq := hfresh t (by simp) h1
        simp [notify, enqueue, h1, htq, counters, Counters.dec, or_comm]
      · have h0 : s.remaining t - 1 ≠ 0 := by omega
        simp [notify, h1, h0, counters, Counters.dec]
    obtain ⟨hcnt, hret, henq⟩ := hstep
    have hrem : ∀ k ∈ ts, (notify s t).remaining k = s.remaining k := by
      intro k hk
      have hkt : k ≠ t := fun he => ht (he ▸ hk)
      have := congrArg (fun c => c.pending k) hcnt
      simpa [counters, Counters.dec, hkt] using this
    have hfresh' : ∀ k ∈ ts, (notify s t).remaining k = 1 → k ∉ (notify s t).enqueued := by
      intro k hk h1 hmem
      rw [hrem k hk] at h1
      rcases (henq k).mp hmem with h | ⟨h, _⟩
      · exact hfresh k (by simp [hk]) h1 h
      · exact ht (h ▸ hk)
    obtain ⟨ih1, ih2, ih3⟩ := foldl_notify ts _ hts hfresh'
    refine ⟨?_, by rw [foldl_cons, ih2, hret], fun k => ?_⟩
    · rw [foldl_cons, ih1, hcnt]; rfl
    · rw [foldl_cons, ih3, henq]
      by_cases hkt : k = t
      · subst hkt; simp [ht]
      · by_cases hk : k ∈ ts
        · simp [hkt, hk, hrem]
        · simp [hkt, hk]

end ReadyTaskState

namespace QueueInv

variable {deps : TaskDeps K} {claimed completed : List K} {s s' : ReadyTaskState K}

lemma start (deps : TaskDeps K) : QueueInv deps [] [] (ReadyTaskState.initializeState deps) := by
  obtain ⟨hrem, hready, henq, hret⟩ := ReadyTaskState.foldl_seed deps deps.nodes
    ⟨fun _ => 0, [], 0, ∅⟩ deps.nodup (by simp) (by simp)
  refine ⟨CountInv.init ?_ ?_, ?_, hret⟩
  · intro k hk
    simp [ReadyTaskState.counters, ReadyTaskState.initializeState, hrem k, hk]
  · simp [ReadyTaskState.counters, ReadyTaskState.initializeState, hready]
  · simpa [ReadyTaskState.initializeState] using henq

lemma claim {k : K} (h : QueueInv deps claimed completed s) (hc : s.claim = (some k, s')) :
    QueueInv deps (claimed ++ [k]) completed s' := by
  unfold ReadyTaskState.claim at hc
  split at hc
  · simp at hc
  · rename_i j q hr
    obtain ⟨rfl, rfl⟩ := hc
    refine ⟨h.count.issue hr, fun i => ?_, h.retired⟩
    rw [h.enqueued, hr]
    simp [or_assoc]

omit [LinearOrder K] in
lemma claim_none (hc : s.claim = (none, s')) : s' = s ∧ s.ready = [] := by
  unfold ReadyTaskState.claim at hc
  split at hc
  · rename_i hr
    simp only [Prod.mk.injEq, true_and] at hc
    exact ⟨hc.symm, hr⟩
  · simp at hc

lemma complete {it : SetOrder K} {k : K} {out : List K} (h : QueueInv deps claimed completed s)
    (hk : k ∈ claimed) (hkc : k ∉ completed) (hc : ReadyTaskState.complete it deps s k = some (s', out)) :
    QueueInv deps claimed (completed ++ [k]) s' := by
  unfold ReadyTaskState.complete at hc
  split at hc
  case isFalse => simp at hc
  case isTrue hkn =>
    obtain ⟨rfl, _⟩ := hc
    have hmem : ∀ t, t ∈ it.list (deps.succs k) ↔ t ∈ deps.nodes ∧ k ∈ deps.preds t := by simp
    have hfresh : ∀ t ∈ it.list (deps.succs k), s.remaining t = 1 → t ∉ s.enqueued := by
      intro t ht _ hq
      exact hkc ((h.count.ready t).mp ((h.enqueued t).mp hq) |>.2 k ((hmem t).mp ht).2)
    obtain ⟨hcnt, hret, henq⟩ := ReadyTaskState.foldl_notify _ s (it.nodup _) hfresh
    have hcount := h.count.complete hk hkc (it.nodup _) hmem
    rw [← hcnt] at hcount
    refine ⟨hcount, fun t => ?_, ?_⟩
    · have hready : ∀ t, t ∈ ((it.list (deps.succs k)).foldl ReadyTaskState.notify s).ready ↔
          t ∈ s.ready ∨ (t ∈ it.list (deps.succs k) ∧ s.remaining t = 1) := by
        intro t
        have := congrArg Counters.ready hcnt
        rw [Counters.release_ready (it.nodup _)] at this
        rw [show ((it.list _).foldl ReadyTaskState.notify s).ready = _ from this,
          mem_append, mem_filter, decide_eq_true_eq]
        exact Iff.rfl
      rw [henq, h.enqueued, hready, or_assoc]
    · simp [hret, h.retired]

lemma complete_isSome (it : SetOrder K) {k : K} (h : QueueInv deps claimed completed s)
    (hk : k ∈ claimed) : ∃ s' out, ReadyTaskState.complete it deps s k = some (s', out) := by
  have hkn := (h.count.preds_done hk).1
  simp [ReadyTaskState.complete, hkn]

lemma finished_iff (h : QueueInv deps claimed completed s) : s.finished deps ↔ ∀ k ∈ deps.nodes, k ∈ completed := by
  rw [h.count.all_done_iff, ReadyTaskState.finished, h.retired]

end QueueInv

/-! ## Any number of workers on one queue -/

/-- The queue, the task each worker holds, and the history of claims and completions. -/
structure Run (K W : Type) where
  state : ReadyTaskState K
  held : W → Option K
  claimed : List K
  completed : List K

def Run.start (deps : TaskDeps K) (W : Type) : Run K W :=
  ⟨ReadyTaskState.initializeState deps, fun _ => none, [], []⟩

variable {W : Type} [DecidableEq W]

inductive Step (it : SetOrder K) (deps : TaskDeps K) : Run K W → Run K W → Prop
  | claim {r : Run K W} {w : W} {k : K} {s' : ReadyTaskState K} (hfree : r.held w = none)
      (hc : r.state.claim = (some k, s')) :
      Step it deps r ⟨s', update r.held w (some k), r.claimed ++ [k], r.completed⟩
  | spin {r : Run K W} {w : W} {s' : ReadyTaskState K} (hfree : r.held w = none)
      (hc : r.state.claim = (none, s')) :
      Step it deps r { r with state := s' }
  | complete {r : Run K W} {w : W} {k : K} {s' : ReadyTaskState K} {out : List K}
      (hheld : r.held w = some k)
      (hc : ReadyTaskState.complete it deps r.state k = some (s', out)) :
      Step it deps r ⟨s', update r.held w none, r.claimed, r.completed ++ [k]⟩

/-- States reachable by any interleaving. -/
def Reachable (it : SetOrder K) (deps : TaskDeps K) (r : Run K W) : Prop :=
  Relation.ReflTransGen (Step it deps) (Run.start deps W) r

/-- The invariant of every interleaving: the queue matches the history, and the tasks in flight
    are those claimed and not completed, each with one worker. -/
structure Run.Inv (deps : TaskDeps K) (r : Run K W) : Prop where
  queue : QueueInv deps r.claimed r.completed r.state
  flight : ∀ k, (∃ w, r.held w = some k) ↔ k ∈ r.claimed ∧ k ∉ r.completed
  owner : ∀ w v k, r.held w = some k → r.held v = some k → w = v

omit [DecidableEq W] in
lemma Run.Inv.start (deps : TaskDeps K) : (Run.start deps W).Inv deps where
  queue := QueueInv.start deps
  flight k := by simp [Run.start]
  owner w v k h _ := by simp [Run.start] at h

lemma Run.Inv.step {it : SetOrder K} {deps : TaskDeps K} {r r' : Run K W} (h : r.Inv deps)
    (hs : Step it deps r r') : r'.Inv deps := by
  cases hs with
  | @claim w k s' hfree hc =>
    have hq := h.queue.claim hc
    have hkc : k ∉ r.claimed := by
      have := hq.count.issued_nodup
      intro hk
      exact (nodup_append.mp this).2.2 k hk k (by simp) rfl
    have hkd : k ∉ r.completed := fun hk => hkc (h.queue.count.done_issued k hk)
    refine ⟨hq, fun j => ?_, fun u v j hu hv => ?_⟩
    · simp only [mem_append, mem_singleton]
      by_cases hjk : j = k
      · subst hjk
        simp only [or_true, hkd, not_false_eq_true, and_self, iff_true]
        exact ⟨w, by simp⟩
      · simp only [hjk, or_false]
        rw [← h.flight j]
        constructor
        · rintro ⟨u, hu⟩
          by_cases huw : u = w
          · subst huw; simp [Ne.symm hjk] at hu
          · exact ⟨u, by simpa [huw] using hu⟩
        · rintro ⟨u, hu⟩
          have huw : u ≠ w := fun he => by rw [he, hfree] at hu; simp at hu
          exact ⟨u, by simpa [huw] using hu⟩
    · -- the claimed task was with no worker before
      have hnone : ∀ u, r.held u ≠ some k := fun u hu =>
        hkc ((h.flight k).mp ⟨u, hu⟩).1
      by_cases huw : u = w <;> by_cases hvw : v = w
      · rw [huw, hvw]
      · subst huw
        simp [hvw] at hu hv
        exact absurd (hu ▸ hv) (hnone v)
      · subst hvw
        simp [huw] at hu hv
        exact absurd (hv ▸ hu) (hnone u)
      · simp [huw, hvw] at hu hv
        exact h.owner u v j hu hv
  | spin _ hc =>
    obtain ⟨rfl, _⟩ := QueueInv.claim_none hc
    exact ⟨h.queue, h.flight, h.owner⟩
  | @complete w k s' out hheld hc =>
    obtain ⟨hk, hkd⟩ := (h.flight k).mp ⟨w, hheld⟩
    refine ⟨h.queue.complete hk hkd hc, fun j => ?_, fun u v j hu hv => ?_⟩
    · simp only [mem_append, mem_singleton, not_or]
      rw [← and_assoc, ← h.flight j]
      constructor
      · rintro ⟨u, hu⟩
        have huw : u ≠ w := fun he => by simp [he] at hu
        have hu' : r.held u = some j := by simpa [huw] using hu
        exact ⟨⟨u, hu'⟩, fun hjk => huw (h.owner u w k (hjk ▸ hu') hheld)⟩
      · rintro ⟨⟨u, hu⟩, hjk⟩
        have huw : u ≠ w := by
          intro he
          rw [he, hheld] at hu
          exact hjk (by simpa using hu.symm)
        exact ⟨u, by simpa [huw] using hu⟩
    · have huw : u ≠ w := fun he => by simp [he] at hu
      have hvw : v ≠ w := fun he => by simp [he] at hv
      simp [huw, hvw] at hu hv
      exact h.owner u v j hu hv

lemma Run.Inv.reachable {it : SetOrder K} {deps : TaskDeps K} {r : Run K W}
    (h : Reachable it deps r) : r.Inv deps := by
  induction h with
  | refl => exact Run.Inv.start deps
  | tail _ hs ih => exact ih.step hs

/-! ## The dispatch loop -/

/-- The three reasons `ProgressError` is raised for. -/
inductive ProgressError where
  | cycle
  | stuck (unfinished : ℕ)
  | runaway
  deriving DecidableEq, Repr

/-- What a run can end with instead of a result; `outOfFuel` is of the model only. -/
inductive RunError where
  | progress (e : ProgressError)
  | keyError
  | outOfFuel
  deriving DecidableEq, Repr

/-- `check_acyclic`: Kahn's algorithm; `seen` is the number of tasks visited. -/
def checkAcyclic (it : SetOrder K) (deps : TaskDeps K) : Except RunError Unit :=
  let indeg : K → ℤ := fun k => (deps.preds k).card
  let q := deps.nodes.filter (fun k => decide (indeg k = 0))
  match kahn (fun k => it.list (deps.succs k)) deps.nodes.length ⟨indeg, q⟩ [] with
  | none => .error .outOfFuel
  | some order =>
      let seen := order.length
      if seen ≠ deps.nodes.length then .error (.progress .cycle) else .ok ()

/-- The variables of one round of the dispatch loop. -/
structure Round (K : Type) where
  state : ReadyTaskState K
  progressed : Bool
  spinsWithoutProgress : ℕ

/-- One worker's turn: claim and complete, or spin. -/
def workerTurn (it : SetOrder K) (deps : TaskDeps K) (d : Round K) : Except RunError (Round K) :=
  match d.state.claim with
  | (none, s) => .ok ⟨s, d.progressed, d.spinsWithoutProgress + 1⟩
  | (some key, s) =>
      match ReadyTaskState.complete it deps s key with
      | none => .error .keyError
      | some (s', _) => .ok ⟨s', true, d.spinsWithoutProgress⟩

/-- `for _ in range(num_workers)`. -/
def workerTurns (it : SetOrder K) (deps : TaskDeps K) : ℕ → Round K → Except RunError (Round K)
  | 0, d => .ok d
  | n + 1, d =>
      match workerTurn it deps d with
      | .error e => .error e
      | .ok d' => workerTurns it deps n d'

/-- The result record `{"retired": …, "total": …}`. -/
structure FifoResult where
  retired : ℕ
  total : ℕ
  deriving DecidableEq, Repr

/-- `while not state.finished`, a round at a time. -/
def dispatchLoop (it : SetOrder K) (deps : TaskDeps K) (numWorkers : ℕ) :
    ℕ → ReadyTaskState K → ℕ → Except RunError FifoResult
  | fuel, s, spins =>
    let total := deps.nodes.length
    let maxSpins := total * numWorkers + 16
    if s.finished deps then .ok ⟨s.retired, total⟩ else
    match fuel with
    | 0 => .error .outOfFuel
    | n + 1 =>
      match workerTurns it deps numWorkers ⟨s, false, spins⟩ with
      | .error e => .error e
      | .ok d =>
        if d.progressed = false then
          if d.state.finished deps then .ok ⟨d.state.retired, total⟩
          else .error (.progress (.stuck (total - d.state.retired)))
        else
          -- the counter was just reset, so the defensive raise is dead code
          let spins := 0
          if spins > maxSpins then .error (.progress .runaway)
          else dispatchLoop it deps numWorkers n d.state spins

/-- `simulate_fifo_execution`; one round a task is fuel enough. -/
def simulateFifoExecution (it : SetOrder K) (deps : TaskDeps K) (numWorkers : ℕ) : Except RunError FifoResult :=
  match checkAcyclic it deps with
  | .error e => .error e
  | .ok () =>
      dispatchLoop it deps numWorkers deps.nodes.length (ReadyTaskState.initializeState deps) 0

section

variable (it : SetOrder K) {deps : TaskDeps K} {done : List K}

lemma checkAcyclic_eq (deps : TaskDeps K) [Decidable deps.Acyclic] :
    checkAcyclic it deps = if deps.Acyclic then .ok () else .error (.progress .cycle) := by
  have hinit : CountInv deps [] [] ⟨fun k => ((deps.preds k).card : ℤ),
      deps.nodes.filter (fun k => decide (((deps.preds k).card : ℤ) = 0))⟩ := by
    refine CountInv.init (fun _ _ => rfl) ?_
    simp
  obtain ⟨_, hrun, _, _, _, hac⟩ := kahn_spec (fun k => it.nodup (deps.succs k)) (by simp) hinit
  simp only [checkAcyclic, hrun, ne_eq, ite_not, hac]

/-- A turn either finds the queue empty or retires one more task. -/
lemma workerTurn_spec {d : Round K} (h : QueueInv deps done done d.state) :
    ∃ d' done', workerTurn it deps d = .ok d' ∧ QueueInv deps done' done' d'.state ∧
      (d.state.ready = [] ∧ d'.progressed = d.progressed ∧ done' = done ∨
        d'.progressed = true ∧ done'.length = done.length + 1) := by
  unfold workerTurn
  cases hc : d.state.claim with
  | mk o s =>
    cases o with
    | none =>
      obtain ⟨rfl, hr⟩ := QueueInv.claim_none hc
      exact ⟨_, done, rfl, h, .inl ⟨hr, rfl, rfl⟩⟩
    | some k =>
      have hq := h.claim hc
      have hkd : k ∉ done := by
        have := hq.count.issued_nodup
        intro hk
        exact (nodup_append.mp this).2.2 k hk k (by simp) rfl
      obtain ⟨_, _, hs'⟩ := hq.complete_isSome it (k := k) (by simp)
      refine ⟨_, done ++ [k], by simp [hs']; rfl, ?_, .inr ⟨rfl, by simp⟩⟩
      exact hq.complete (by simp) hkd hs'

lemma workerTurns_spec : ∀ (n : ℕ) (d : Round K) (done : List K), QueueInv deps done done d.state →
    ∃ d' done', workerTurns it deps n d = .ok d' ∧ QueueInv deps done' done' d'.state ∧
      done.length ≤ done'.length ∧ (d.progressed = true → d'.progressed = true) ∧
      (1 ≤ n → d.state.ready ≠ [] → d'.progressed = true ∧ done.length < done'.length)
  | 0, d, done, h => ⟨d, done, rfl, h, le_rfl, id, by simp⟩
  | n + 1, d, done, h => by
    obtain ⟨d₁, done₁, ht, h₁, hcase⟩ := workerTurn_spec it h
    obtain ⟨d₂, done₂, hts, h₂, hle, hprog, _⟩ := workerTurns_spec n d₁ done₁ h₁
    refine ⟨d₂, done₂, by simp [workerTurns, ht, hts], h₂, ?_⟩
    rcases hcase with ⟨hr, hp, rfl⟩ | ⟨hp, hlen⟩
    · exact ⟨hle, fun hd => hprog (hp.trans hd), fun _ hne => absurd hr hne⟩
    · exact ⟨by omega, fun _ => hprog hp, fun _ _ => ⟨hprog hp, by omega⟩⟩

lemma dispatchLoop_spec (hac : deps.Acyclic) {numWorkers : ℕ} (hw : 1 ≤ numWorkers) :
    ∀ (n : ℕ) (s : ReadyTaskState K) (spins : ℕ) (done : List K), QueueInv deps done done s →
      deps.nodes.length ≤ done.length + n →
      dispatchLoop it deps numWorkers n s spins = .ok ⟨deps.nodes.length, deps.nodes.length⟩ := by
  intro n
  induction n with
  | zero =>
    intro s spins done h hn
    have hfin : s.finished deps := by
      rw [ReadyTaskState.finished, h.retired]
      exact le_antisymm h.count.done_le (by simpa using hn)
    unfold dispatchLoop
    rw [if_pos hfin, show s.retired = deps.nodes.length from hfin]
  | succ n ih =>
    intro s spins done h hn
    unfold dispatchLoop
    by_cases hfin : s.finished deps
    · rw [if_pos hfin, show s.retired = deps.nodes.length from hfin]
    · -- nothing is in flight between rounds, so the queue cannot be empty
      have hready : s.ready ≠ [] := fun hr =>
        hfin (h.finished_iff.mpr (h.count.drained hac (fun _ hk => hk) hr))
      obtain ⟨d, done', hts, h', _, _, hprog⟩ := workerTurns_spec it numWorkers ⟨s, false, spins⟩ done h
      obtain ⟨hp, hlt⟩ := hprog hw hready
      simp only [if_neg hfin, hts, hp]
      simpa using ih d.state 0 done' h' (by omega)

lemma simulateFifoExecution_acyclic (hac : deps.Acyclic) {numWorkers : ℕ}
    (hw : 1 ≤ numWorkers) : simulateFifoExecution it deps numWorkers = .ok ⟨deps.nodes.length, deps.nodes.length⟩ := by
  classical
  simp only [simulateFifoExecution, checkAcyclic_eq, hac, if_true]
  exact dispatchLoop_spec it hac hw _ _ _ [] (QueueInv.start deps) (by simp)

/-- A cycle is reported before any task runs. -/
lemma simulateFifoExecution_cyclic (hcyc : ¬ deps.Acyclic) (numWorkers : ℕ) :
    simulateFifoExecution it deps numWorkers = .error (.progress .cycle) := by
  classical
  simp [simulateFifoExecution, checkAcyclic_eq, hcyc]

end

/-- **The ready queue.**  In every state that any interleaving of any workers reaches: each task
    has entered the queue at most once (`claimed` followed by `ready` is the list of all enqueued
    tasks in order) and only after its predecessors completed, no task completes twice, the
    counters count the uncompleted predecessors, a held task completes without raising, and on an
    acyclic graph an unfinished run with nothing in flight has a ready task.  The dispatch loop
    retires every task of an acyclic graph and raises on any other. -/
theorem ready_queue_sound (it : SetOrder K) (deps : TaskDeps K) :
    (∀ (W : Type) [DecidableEq W] (r : Run K W), Reachable it deps r → (r.claimed ++ r.state.ready).Nodup ∧
      (∀ k ∈ r.claimed ++ r.state.ready, k ∈ deps.nodes ∧ ∀ p ∈ deps.preds k, p ∈ r.completed) ∧ r.completed.Nodup ∧
      (∀ k ∈ deps.nodes, r.state.remaining k = ((deps.preds k).filter (· ∉ r.completed)).card) ∧
      (∀ w k, r.held w = some k → (ReadyTaskState.complete it deps r.state k).isSome) ∧
      (deps.Acyclic → ¬ r.state.finished deps → (∀ w, r.held w = none) → r.state.ready ≠ [])) ∧
    (deps.Acyclic → ∀ numWorkers, 1 ≤ numWorkers → simulateFifoExecution it deps numWorkers =
      .ok ⟨deps.nodes.length, deps.nodes.length⟩) ∧ (¬ deps.Acyclic → ∀ numWorkers,
      simulateFifoExecution it deps numWorkers = .error (.progress .cycle)) := by
  refine ⟨fun W _ r hr => ?_, fun hac n hn => simulateFifoExecution_acyclic it hac hn,
    fun hcyc n => simulateFifoExecution_cyclic it hcyc n⟩
  have h := Run.Inv.reachable hr
  refine ⟨h.queue.count.nodup, fun k hk => ?_, h.queue.count.done_nodup, h.queue.count.pending,
    fun w k hk => ?_, fun hac hfin hidle hempty => ?_⟩
  · exact (h.queue.count.ready k).mp (mem_append.mp hk)
  · obtain ⟨_, _, hs⟩ := h.queue.complete_isSome it ((h.flight k).mp ⟨w, hk⟩).1
    simp [hs]
  · refine hfin (h.queue.finished_iff.mpr (h.queue.count.drained hac (fun k hk => ?_) hempty))
    by_contra hkd
    obtain ⟨w, hw⟩ := (h.flight k).mpr ⟨hk, hkd⟩
    rw [hidle w] at hw
    simp at hw

/-- Three tasks: `2` waits for `0` and `1`. -/
def joinDeps : TaskDeps ℕ where
  nodes := [0, 1, 2]
  preds k := if k = 2 then {0, 1} else ∅
  nodup := by decide
  closed := by decide

lemma joinDeps_acyclic : joinDeps.Acyclic :=
  acyclic joinDeps (l := [0, 1, 2])
    (concat _ (concat _ (concat _
      (nil _) (by decide)) (by decide)) (by decide)) (by decide)

theorem ready_queue_sound_join : simulateFifoExecution SetOrder.sorted joinDeps 2 = .ok ⟨3, 3⟩ :=
  (ready_queue_sound SetOrder.sorted joinDeps).2.1 joinDeps_acyclic 2 (by decide)

end VKernels.TaskQueue
