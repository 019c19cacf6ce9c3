import Mathlib.Algebra.BigOperators.Intervals
import Mathlib.Algebra.BigOperators.Ring.Finset
import Mathlib.Tactic.Ring

/-!
# Linear recurrences

* `Solves` — a unit lower-triangular system, row by row; `Solves.unique` — it has one solution.
* `IsInverse` — an inverse from the right; `IsInverse.solves` — it solves every system.
-/

namespace VKernels.LinearRecurrences

open Finset

variable {R : Type} [CommRing R]

/-! ## Affine steps -/

/-- The product of the gates from `a` to before `b`. -/
def gates (g : ℕ → R) (a b : ℕ) : R := ∏ l ∈ Ico a b, g l

@[simp] lemma gates_self (g : ℕ → R) (a : ℕ) : gates g a a = 1 := by simp [gates]

lemma gates_succ (g : ℕ → R) {a b : ℕ} (h : a ≤ b) : gates g a (b + 1) = gates g a b * g b :=
  prod_Ico_succ_top h g

variable {n : ℕ}

/-- **The recurrence in closed form**: what came in and what was added, each under the gates since. -/
theorem unroll {g w x : ℕ → R} (h : ∀ i < n, x (i + 1) = g i * x i + w i) :
    x n = gates g 0 n * x 0 + ∑ j ∈ range n, gates g (j + 1) n * w j := by
  induction n with
  | zero => simp
  | succ n ih =>
    have hprev := ih fun i hi => h i (Nat.lt_succ_of_lt hi)
    have hold : ∑ j ∈ range n, gates g (j + 1) (n + 1) * w j = g n * ∑ j ∈ range n, gates g (j + 1) n * w j := by
      rw [mul_sum]
      apply sum_congr rfl
      intro j hj
      rw [gates_succ g (mem_range.mp hj)]
      ring
    rw [h n (Nat.lt_succ_self n), hprev, sum_range_succ, gates_self, hold, gates_succ g (Nat.zero_le n)]
    ring

/-! ## Triangular systems -/

/-- `(I + M) u = r` for a strictly lower-triangular `M` of `n` rows. -/
def Solves (M : ℕ → ℕ → R) (n : ℕ) (u r : ℕ → R) : Prop := ∀ t < n, u t + ∑ l ∈ range t, M t l * u l = r t

lemma Solves.unique {M : ℕ → ℕ → R} {u u' r : ℕ → R} (h : Solves M n u r) (h' : Solves M n u' r) :
    ∀ t < n, u t = u' t := by
  intro t
  induction t using Nat.strongRecOn with
  | ind t ih =>
    intro ht
    have hsum : ∑ l ∈ range t, M t l * u l = ∑ l ∈ range t, M t l * u' l := by
      apply sum_congr rfl
      intro l hl
      have hlt := mem_range.mp hl
      rw [ih l hlt (hlt.trans ht)]
    have hrow := (h t ht).trans (h' t ht).symm
    rw [hsum] at hrow
    exact add_right_cancel hrow

/-- `(I + M) A = I`. -/
def IsInverse (M A : ℕ → ℕ → R) (n : ℕ) : Prop :=
  ∀ t < n, ∀ j < n, A t j + ∑ l ∈ range t, M t l * A l j = if t = j then 1 else 0

lemma IsInverse.solves {M A : ℕ → ℕ → R} (h : IsInverse M A n) (r : ℕ → R) :
    Solves M n (fun t => ∑ j ∈ range n, A t j * r j) r := by
  intro t ht
  calc ∑ j ∈ range n, A t j * r j + ∑ l ∈ range t, M t l * ∑ j ∈ range n, A l j * r j
      = ∑ j ∈ range n, (A t j + ∑ l ∈ range t, M t l * A l j) * r j := by
        simp only [mul_sum, add_mul, sum_mul, sum_add_distrib]
        congr 1
        rw [sum_comm]
        apply sum_congr rfl
        intro j _
        apply sum_congr rfl
        intro l _
        ring
    _ = ∑ j ∈ range n, if t = j then r j else 0 := by
        apply sum_congr rfl
        intro j hj
        rw [h t ht j (mem_range.mp hj)]
        split <;> ring
    _ = r t := by
        simp [ht]

end VKernels.LinearRecurrences
