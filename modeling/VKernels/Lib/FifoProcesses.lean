import Mathlib.Data.Fintype.EquivFin
import VKernels.Lib.Interleaving

/-!
# Sequential processes over FIFO channels

Processes that send on a channel of their own and receive, blocking, from the channel of another.
A channel has one writer and one reader, so the network is deterministic whatever the timing.

* `Proc` — what a process does with its channels until it returns; `Net` — all processes and the
  messages in flight; `Net.step` — the next operation of one process.
* `Net.exchange` — a round in which every process sends once and then receives once.
-/

namespace VKernels.FifoProcesses

open Interleaving
open Function (Injective update update_comm)

inductive Proc (Msg Out : Type) where
  | ret (a : Out)
  | send (m : Msg) (next : Proc Msg Out)
  | recv (next : Msg → Proc Msg Out)

namespace Proc

variable {Msg Out Out' : Type}

def bind : Proc Msg Out → (Out → Proc Msg Out') → Proc Msg Out'
  | ret a, f => f a
  | send m next, f => send m (next.bind f)
  | recv next, f => recv fun m => (next m).bind f

instance monad_proc : Monad (Proc Msg) where
  pure := ret
  bind := bind

@[simp] lemma send_bind (m : Msg) (next : Proc Msg Out) (f : Out → Proc Msg Out') :
    (send m next >>= f) = send m (next >>= f) := rfl

@[simp] lemma recv_bind (next : Msg → Proc Msg Out) (f : Out → Proc Msg Out') :
    (recv next >>= f) = recv fun m => next m >>= f := rfl

lemma bind_ret (x : Proc Msg Out) : (x >>= ret) = x := by
  induction x with
  | ret a => rfl
  | send m next ih => rw [send_bind, ih]
  | recv next ih =>
    exact congrArg recv (funext ih)

lemma bind_assoc' {Out'' : Type} (x : Proc Msg Out) (f : Out → Proc Msg Out')
    (g : Out' → Proc Msg Out'') : (x >>= f >>= g) = x >>= fun a => f a >>= g := by
  induction x with
  | ret a => rfl
  | send m next ih =>
    simp only [send_bind]
    rw [ih]
  | recv next ih =>
    exact congrArg recv (funext ih)

instance lawful_proc : LawfulMonad (Proc Msg) :=
  LawfulMonad.mk' (Proc Msg) (fun x => bind_ret x) (fun _ _ => rfl) (fun x f g => bind_assoc' x f g)

end Proc

/-- The processes, and the messages sent by each and not yet received, oldest first. -/
structure Net (P Msg Out : Type) where
  procs : P → Proc Msg Out
  channels : P → List Msg

namespace Net

variable {P Msg Out : Type} [DecidableEq P]

/-- The next operation of `p`, which reads the channel of `src p`. -/
def step (src : P → P) (p : P) (n : Net P Msg Out) : Option (Net P Msg Out) :=
  match n.procs p with
  | .ret _ => none
  | .send m next => some ⟨update n.procs p next,
      update n.channels p (n.channels p ++ [m])⟩
  | .recv next =>
    match n.channels (src p) with
    | [] => none
    | m :: rest => some ⟨update n.procs p (next m),
        update n.channels (src p) rest⟩

/-- Every process has returned. -/
def Finished (n : Net P Msg Out) : Prop := ∀ p, ∃ a, n.procs p = .ret a

variable {src : P → P} {n n' : Net P Msg Out} {p : P}

lemma step_send {m : Msg} {next : Proc Msg Out} (h : n.procs p = .send m next) :
    n.step src p = some ⟨update n.procs p next, update n.channels p (n.channels p ++ [m])⟩ := by
  simp [step, h]

lemma step_recv {next : Msg → Proc Msg Out} {m : Msg} {rest : List Msg}
    (h : n.procs p = .recv next) (hm : n.channels (src p) = m :: rest) :
    n.step src p = some ⟨update n.procs p (next m), update n.channels (src p) rest⟩ := by
  simp [step, h, hm]

lemma step_cases (h : n.step src p = some n') :
    (∃ m next, n.procs p = .send m next ∧ n' = ⟨update n.procs p next,
      update n.channels p (n.channels p ++ [m])⟩) ∨
    (∃ next m rest, n.procs p = .recv next ∧ n.channels (src p) = m :: rest ∧
      n' = ⟨update n.procs p (next m), update n.channels (src p) rest⟩) := by
  unfold step at h
  split at h
  · cases h
  · exact .inl ⟨_, _, ‹_›, (Option.some.inj h).symm⟩
  · split at h
    · cases h
    · exact .inr ⟨_, _, _, ‹_›, ‹_›, (Option.some.inj h).symm⟩

lemma Finished.stuck (h : n.Finished) : Stuck (step src) n := by
  intro p
  obtain ⟨a, ha⟩ := h p
  simp [step, ha]

/-- **No interference**: a channel has one writer and one reader. -/
theorem step_commuting (hsrc : Injective src) : Commuting (@step P Msg Out _ src) := by
  intro p q hpq n a b ha hb
  have hne : src p ≠ src q := fun h => hpq (hsrc h)
  rcases step_cases ha with ⟨m, k, hp, rfl⟩ | ⟨k, m, _, hp, hm, rfl⟩ <;>
    rcases step_cases hb with ⟨_, _, hq, rfl⟩ | ⟨_, _, _, hq, hm', rfl⟩
  · refine ⟨_, step_send (by simpa [hpq.symm] using hq), ?_⟩
    rw [step_send (by simpa [hpq] using hp)]
    simp [hpq, hpq.symm, update_comm hpq]
  · -- `q` may be the reader of the channel that `p` writes
    by_cases hc : src q = p
    · refine ⟨_, step_recv (by simpa [hpq.symm] using hq) (by simp [hc] at hm' ⊢; rw [hm']; rfl), ?_⟩
      rw [step_send (by simpa [hpq] using hp)]
      simp [hc] at hm' ⊢
      simp [update_comm hpq]
    · refine ⟨_, step_recv (by simpa [hpq.symm] using hq) (by simpa [hc] using hm'), ?_⟩
      rw [step_send (by simpa [hpq] using hp)]
      simp [Ne.symm hc, update_comm hpq, update_comm (Ne.symm hc)]
  · by_cases hc : src p = q
    · refine ⟨_, step_send (by simpa [hpq.symm] using hq), ?_⟩
      rw [step_recv (by simpa [hpq] using hp) (by simp [hc] at hm ⊢; rw [hm]; rfl)]
      simp [hc] at hm ⊢
      simp [update_comm hpq]
    · refine ⟨_, step_send (by simpa [hpq.symm] using hq), ?_⟩
      rw [step_recv (by simpa [hpq] using hp) (by simpa [hc] using hm)]
      simp [Ne.symm hc, update_comm hpq, update_comm hc]
  · refine ⟨_, step_recv (by simpa [hpq.symm] using hq) (by simpa [hne.symm] using hm'), ?_⟩
    rw [step_recv (by simpa [hpq] using hp) (by simpa [hne] using hm)]
    simp [update_comm hpq, update_comm hne]

/-- Every run can be continued until all processes have returned `out`, and none goes on forever. -/
structure Yields (src : P → P) (n : Net P Msg Out) (out : Out) : Prop where
  /-- No deadlock. -/
  progress : ∀ {σ s}, run (step src) σ n = some s → s.Finished ∨ ∃ p s', s.step src p = some s'
  bounded : ∃ bound, ∀ {σ s}, run (step src) σ n = some s → σ.length ≤ bound
  agree : ∀ {σ s}, run (step src) σ n = some s → s.Finished → ∀ p, s.procs p = .ret out

/-- **Determinacy**: one run to the end decides all of them. -/
theorem yields_of_run (hsrc : Injective src) {out : Out} {channels : P → List Msg} {σ : List P}
    (hσ : run (step src) σ n = some ⟨fun _ => .ret out, channels⟩) : Yields src n out where
  progress {τ s} hτ := by
    obtain ⟨ρ, hρ, _⟩ := completes (step_commuting hsrc) hσ (Finished.stuck fun p => ⟨_, rfl⟩) hτ
    cases ρ with
    | nil =>
      cases hρ
      exact .inl fun p => ⟨_, rfl⟩
    | cons p ρ =>
      obtain ⟨s', hs', _⟩ := run_cons.mp hρ
      exact .inr ⟨p, s', hs'⟩
  bounded := ⟨σ.length, fun hτ => run_length_le (step_commuting hsrc) hσ (Finished.stuck fun p => ⟨_, rfl⟩) hτ⟩
  agree {τ s} hτ hs p := by
    rw [stuck_unique (step_commuting hsrc) hσ (Finished.stuck fun p => ⟨_, rfl⟩) hτ hs.stuck]

/-! ### A round of exchanges -/

section

variable (src : P → P) (msg : P → Msg) (next : P → Msg → Proc Msg Out)

/-- The processes of `S` have sent, and none has received. -/
def sent (S : Finset P) : Net P Msg Out where
  procs p := if p ∈ S then .recv (next p) else .send (msg p) (.recv (next p))
  channels p := if p ∈ S then [msg p] else []

/-- Every process has sent, and those of `S` have received. -/
def exchanged (S : Finset P) : Net P Msg Out where
  procs p := if p ∈ S then next p (msg (src p)) else .recv (next p)
  channels p := if p ∈ S.image src then [] else [msg p]

lemma step_sent {S : Finset P} {p : P} (hp : p ∉ S) :
    (sent msg next S).step src p = some (sent msg next (insert p S)) := by
  have hprog : (sent msg next S).procs p = .send (msg p) (.recv (next p)) := by simp [sent, hp]
  rw [step_send hprog]
  congr 1
  unfold sent
  congr 1 <;> funext q
  · by_cases hq : q = p
    · simp [hq]
    · simp [hq]
  · by_cases hq : q = p
    · simp [hq, hp]
    · simp [hq]

lemma step_exchanged (hsrc : Injective src) {S : Finset P} {p : P} (hp : p ∉ S) :
    (exchanged src msg next S).step src p = some (exchanged src msg next (insert p S)) := by
  have hunread : src p ∉ S.image src := by
    rw [hsrc.mem_finset_image]
    exact hp
  have hprog : (exchanged src msg next S).procs p = .recv (next p) := by simp [exchanged, hp]
  have hmsg : (exchanged src msg next S).channels (src p) = [msg (src p)] := by
    simp only [exchanged, if_neg hunread]
  rw [step_recv hprog hmsg]
  congr 1
  unfold exchanged
  congr 1 <;> funext q
  · by_cases hq : q = p
    · simp [hq]
    · simp [hq]
  · by_cases hq : q = src p
    · simp [hq]
    · simp [hq]

variable [Fintype P]

lemma exchange (hsrc : Injective src) :
    ∃ σ, run (step src) σ (⟨fun p => .send (msg p) (.recv (next p)), fun _ => []⟩ : Net P Msg Out) =
      some ⟨fun p => next p (msg (src p)), fun _ => []⟩ := by
  have hsend : ∀ S : Finset P, ∃ σ, run (step src) σ (sent msg next ∅) = some (sent msg next S) := by
    intro S
    induction S using Finset.induction with
    | empty => exact ⟨[], rfl⟩
    | insert p S hp ih =>
      obtain ⟨σ, hσ⟩ := ih
      exact ⟨σ ++ [p], run_append.mpr ⟨_, hσ, by simp [run, step_sent src msg next hp]⟩⟩
  have hrecv : ∀ S : Finset P, ∃ σ, run (step src) σ (exchanged src msg next ∅) = some (exchanged src msg next S) := by
    intro S
    induction S using Finset.induction with
    | empty => exact ⟨[], rfl⟩
    | insert p S hp ih =>
      obtain ⟨σ, hσ⟩ := ih
      exact ⟨σ ++ [p], run_append.mpr ⟨_, hσ, by simp [run, step_exchanged src msg next hsrc hp]⟩⟩
  have hmid : sent msg next Finset.univ = exchanged src msg next ∅ := by
    simp [sent, exchanged]
  have hstart : sent msg next ∅ = ⟨fun p => .send (msg p) (.recv (next p)), fun _ => []⟩ := by
    simp [sent]
  have hend : Finset.univ.image src = Finset.univ :=
    Finset.image_univ_of_surjective (Finite.injective_iff_surjective.mp hsrc)
  obtain ⟨σ, hσ⟩ := hsend Finset.univ
  obtain ⟨ρ, hρ⟩ := hrecv Finset.univ
  refine ⟨σ ++ ρ, run_append.mpr ⟨_, hstart ▸ hσ, ?_⟩⟩
  rw [hmid, hρ]
  simp [exchanged, hend]

end

end Net

end VKernels.FifoProcesses
