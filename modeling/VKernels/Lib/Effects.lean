import Mathlib.Tactic.Common

/-!
# Stateful calls that throw or wait

Sequential effects over an arbitrary state.

* `Eff` — a call that changes a state and returns, throws, or waits for ever.  What it did before
  it stopped stays done.
* `perform` and its equations run a call step by step; `perform_each_ok` is the loop rule.
-/

namespace VKernels.Effects

/-- Why a call has not returned. -/
inductive Stop where
  | threw (what : String)
  | blocked
  deriving DecidableEq, Repr

abbrev Eff (σ : Type) := ExceptT Stop (StateM σ)

section

variable {σ τ α : Type}

def perform (c : Eff σ α) (s : σ) : Except Stop α × σ := c.run.run s

/-- A contract check: `msg: text` is thrown unless `cond` holds. -/
def require (cond : Prop) [Decidable cond] (msg text : String) : Eff σ Unit :=
  if cond then pure () else throw (.threw (msg ++ ": " ++ text))

def change (f : σ → σ) : Eff σ Unit := modify f

/-- A call that depends on the state it starts in. -/
def byState (f : σ → Eff σ α) : Eff σ α := do f (← get)

/-- A call on the part of the state that `get` reads and `set` writes. -/
def zoom (get : σ → τ) (set : τ → σ → σ) (c : Eff τ α) : Eff σ α :=
  ExceptT.mk fun s => ((perform c (get s)).1, set (perform c (get s)).2 s)

/-- A `for` loop. -/
def each {ι : Type} : List ι → (ι → Eff σ Unit) → Eff σ Unit
  | [], _ => pure ()
  | i :: l, body => do
      body i
      each l body

/-- `c`, `n` times. -/
def repeatEff (c : Eff σ Unit) : ℕ → Eff σ Unit
  | 0 => pure ()
  | n + 1 => do
      c
      repeatEff c n

variable {β : Type} {cond : Prop} {msg : String}

lemma perform_bind {α : Type} (c : Eff σ α) (k : α → Eff σ β) (s : σ) : perform (c >>= k) s =
    match perform c s with
    | (.ok a, s') => perform (k a) s'
    | (.error e, s') => (.error e, s') := by
  show ExceptT.bind c k s = _
  unfold ExceptT.bind ExceptT.mk perform
  show (match c s with | (a, s') => ExceptT.bindCont k a s') = _
  rcases hc : c s with ⟨_ | _, _⟩
  · simp only [ExceptT.run, StateT.run, hc]
    rfl
  · simp only [ExceptT.run, StateT.run, hc]
    rfl

lemma perform_bind_ok {α : Type} {c : Eff σ α} {k : α → Eff σ β} {s s' : σ} {a : α}
    (h : perform c s = (.ok a, s')) : perform (c >>= k) s = perform (k a) s' := by
  rw [perform_bind, h]

lemma perform_bind_error {α : Type} {c : Eff σ α} {k : α → Eff σ β} {s s' : σ} {e : Stop}
    (h : perform c s = (.error e, s')) : perform (c >>= k) s = (.error e, s') := by
  rw [perform_bind, h]

@[simp] lemma perform_pure (a : α) (s : σ) : perform (pure a : Eff σ α) s = (.ok a, s) := rfl

@[simp] lemma perform_throw (e : Stop) (s : σ) : perform (throw e : Eff σ α) s = (.error e, s) := rfl

@[simp] lemma perform_byState (f : σ → Eff σ α) (s : σ) : perform (byState f) s = perform (f s) s := rfl

lemma perform_require [Decidable cond] {text : String} (s : σ) : perform (require cond msg text) s =
      (if cond then .ok () else .error (.threw (msg ++ ": " ++ text)), s) := by
  unfold require
  split <;> rfl

lemma perform_require_bind [Decidable cond] {text : String} {k : Unit → Eff σ Unit}
    (h : cond) (s : σ) : perform (require cond msg text >>= k) s = perform (k ()) s := by
  rw [perform_bind, perform_require, if_pos h]

lemma perform_require_fails [Decidable cond] {text : String} {k : Unit → Eff σ Unit}
    (h : ¬ cond) (s : σ) : perform (require cond msg text >>= k) s = (.error (.threw (msg ++ ": " ++ text)), s) := by
  rw [perform_bind, perform_require, if_neg h]

lemma perform_seq_assoc (a b c : Eff σ Unit) (s : σ) :
    perform ((a >>= fun _ => b) >>= fun _ => c) s = perform (a >>= fun _ => b >>= fun _ => c) s := by
  rw [perform_bind, perform_bind, perform_bind]
  rcases perform a s with ⟨_ | _, _⟩
  · rfl
  · exact (perform_bind _ _ _).symm

lemma perform_seq_congr {a a' b b' : Eff σ Unit} (ha : ∀ s, perform a s = perform a' s)
    (hb : ∀ s, perform b s = perform b' s) (s : σ) : perform (a >>= fun _ => b) s = perform (a' >>= fun _ => b') s := by
  rw [perform_bind, perform_bind, ha]
  rcases perform a' s with ⟨_ | _, s'⟩
  · rfl
  · exact hb s'

lemma perform_seq_pure (c : Eff σ Unit) (s : σ) :
    perform (c >>= fun _ => (pure () : Eff σ Unit)) s = perform c s := by
  rw [perform_bind]
  rcases perform c s with ⟨_ | _, _⟩
  · rfl
  · rfl

lemma each_append {ι : Type} (body : ι → Eff σ Unit) : ∀ (l l' : List ι) (s : σ),
    perform (each (l ++ l') body) s = perform (each l body >>= fun _ => each l' body) s
  | [], _, _ => rfl
  | i :: l, l', s => by
    rw [List.cons_append]
    show perform (body i >>= fun _ => each (l ++ l') body) s =
      perform ((body i >>= fun _ => each l body) >>= fun _ => each l' body) s
    rw [perform_seq_assoc]
    exact perform_seq_congr (fun _ => rfl) (each_append body l l') s

lemma perform_each_ok {ι : Type} {body : ι → Eff σ Unit} {g : ι → σ → σ} : ∀ {l : List ι},
    (∀ i ∈ l, ∀ s, perform (body i) s = (.ok (), g i s)) → ∀ s : σ,
      perform (each l body) s = (.ok (), l.foldl (fun s i => g i s) s)
  | [], _, _ => rfl
  | i :: l, hb, s => by
    rw [each, perform_bind, hb i (by simp)]
    exact perform_each_ok (fun j hj => hb j (by simp [hj])) _

end

/-! ## Parts of the state that a call leaves alone -/

section

variable {σ α γ : Type}

/-- `c` does not change what `view` sees, whether it returns or stops. -/
def Never (view : σ → γ) (c : Eff σ α) : Prop := ∀ s, view (perform c s).2 = view s

variable {view : σ → γ}

lemma Never.bind {β : Type} {c : Eff σ α} {k : α → Eff σ β} (hc : Never view c)
    (hk : ∀ a, Never view (k a)) : Never view (c >>= k) := by
  intro s
  rw [perform_bind]
  have h := hc s
  rcases hs : perform c s with ⟨_ | _, s'⟩
  · rw [hs] at h
    exact h
  · rw [hs] at h
    exact (hk _ s').trans h

lemma never_pure (a : α) : Never view (pure a : Eff σ α) := fun _ => rfl

lemma never_throw (e : Stop) : Never view (throw e : Eff σ α) := fun _ => rfl

lemma never_byState {f : σ → Eff σ α} (h : ∀ s, Never view (f s)) : Never view (byState f) :=
  fun s => h s s

end

end VKernels.Effects
