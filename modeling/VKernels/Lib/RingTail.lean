import Mathlib.Data.List.Basic
import Mathlib.Data.Nat.ModEq

/-!
# Rings

A stream written into `n` cells, each value at its position modulo `n`.

* `exists_recent` — every cell in use belongs to one of the last `n` positions.
-/

namespace VKernels.RingTail

variable {α : Type} {n : ℕ}

/-- Every one of the last `n` values of the stream is at its position modulo `n`. -/
def RingHolds (n : ℕ) (buf : ℕ → α) (xs : List α) : Prop :=
  ∀ q (hq : q < xs.length), xs.length ≤ q + n → buf (q % n) = xs[q]

lemma RingHolds.nil (buf : ℕ → α) : RingHolds n buf [] := fun _ hq => absurd hq (Nat.not_lt_zero _)

lemma mod_inj_of_close {a b : ℕ} (hab : a < b) (hclose : b < a + n) : a % n ≠ b % n := by
  intro h
  have hdvd : n ∣ b - a := (Nat.modEq_iff_dvd' hab.le).mp h
  have hle := Nat.le_of_dvd (by omega) hdvd
  omega

/-- The next value goes over the oldest. -/
lemma RingHolds.push {buf : ℕ → α} {xs : List α} (h : RingHolds n buf xs) (x : α) :
    RingHolds n (Function.update buf (xs.length % n) x) (xs ++ [x]) := by
  intro q hq hclose
  rw [List.length_append, List.length_singleton] at hq hclose
  rcases Nat.lt_succ_iff_lt_or_eq.mp hq with hlt | rfl
  · rw [Function.update_of_ne (mod_inj_of_close hlt (by omega)), List.getElem_append_left hlt]
    exact h q hlt (by omega)
  · simp

lemma exists_recent {t p : ℕ} (hp : p < n) (ht : n ≤ t) : ∃ q, t ≤ q + n ∧ q < t ∧ q % n = p := by
  have hdiv := Nat.div_add_mod (t - n) n
  have hmod := Nat.mod_lt (t - n) (by omega : 0 < n)
  by_cases hle : (t - n) % n ≤ p
  · refine ⟨n * ((t - n) / n) + p, by omega, by omega, ?_⟩
    rw [Nat.mul_add_mod, Nat.mod_eq_of_lt hp]
  · refine ⟨n * ((t - n) / n + 1) + p, ?_, ?_, ?_⟩
    · rw [mul_add_one]
      omega
    · rw [mul_add_one]
      omega
    · rw [Nat.mul_add_mod, Nat.mod_eq_of_lt hp]

end VKernels.RingTail
