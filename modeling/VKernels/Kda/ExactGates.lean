import Mathlib.Algebra.Order.Ring.Rat
import Mathlib.Data.Matrix.Mul
import VKernels.Lib.LinearRecurrences

/-!
# Gates in log space

`kda.cpp` keeps the products of its forget gates as sums of logarithms.  Arithmetic is exact here: `exp` and `log` are any
that undo each other on positive gates and turn sums into products.

* `logGate`, `logCumsum` — `log_gate`, and the inclusive sum within a chunk.
* `exp_logCumsum`, `exp_logCumsum_sub` — what the sums stand for: the products of the gates.
-/

namespace VKernels.Kda

open VKernels.LinearRecurrences

/-- `exp` and `log` without rounding. -/
structure ExactGates (F Λ : Type) [Field F] [LinearOrder F] [AddCommGroup Λ] where
  log : F → Λ
  exp : Λ → F
  /-- `kNegLogFloor`. -/
  floor : Λ
  exp_zero : exp 0 = 1
  exp_add : ∀ a b, exp (a + b) = exp a * exp b
  exp_log : ∀ g, 0 < g → exp (log g) = g

/-- Sums of logarithms that are products of the gates. -/
def productGates : ExactGates ℚ (Additive ℚˣ) where
  log g := if h : g = 0 then 0 else Additive.ofMul (Units.mk0 g h)
  exp a := (Additive.toMul a : ℚˣ)
  floor := 0
  exp_zero := rfl
  exp_add := fun _ _ => rfl
  exp_log g hg := by simp [hg.ne']

section

variable {F Λ : Type} [Field F] [LinearOrder F] [AddCommGroup Λ] (E : ExactGates F Λ)

def logGate (g : F) : Λ := if g ≤ 0 then E.floor else E.log g

/-- The inclusive sum of the logarithms at `t`. -/
def logCumsum (g : ℕ → F) (t : ℕ) : Λ := (List.range (t + 1)).foldl (fun acc l => acc + logGate E (g l)) 0

variable {g : ℕ → F}

lemma exp_logGate {x : F} (hx : 0 < x) : E.exp (logGate E x) = x := by
  rw [logGate, if_neg (not_le.mpr hx), E.exp_log x hx]

lemma logCumsum_succ (g : ℕ → F) (t : ℕ) : logCumsum E g (t + 1) = logCumsum E g t + logGate E (g (t + 1)) := by
  unfold logCumsum
  rw [List.range_succ, List.foldl_append]
  rfl

/-- The sum at `t` stands for the product of the gates up to `t`. -/
lemma exp_logCumsum {t : ℕ} (hg : ∀ l ≤ t, 0 < g l) : E.exp (logCumsum E g t) = gates g 0 (t + 1) := by
  induction t with
  | zero =>
    have hsingle : logCumsum E g 0 = 0 + logGate E (g 0) := rfl
    rw [hsingle, zero_add, exp_logGate E (hg 0 le_rfl), gates_succ g le_rfl, gates_self, one_mul]
  | succ t ih =>
    rw [logCumsum_succ, E.exp_add, ih fun l hl => hg l (Nat.le_succ_of_le hl), exp_logGate E (hg (t + 1) le_rfl),
      gates_succ g (Nat.zero_le (t + 1))]

lemma exp_logCumsum_sub {j t : ℕ} (hjt : j ≤ t) (hg : ∀ l ≤ t, 0 < g l) :
    E.exp (logCumsum E g t - logCumsum E g j) = gates g (j + 1) (t + 1) := by
  induction t, hjt using Nat.le_induction with
  | base => rw [sub_self, E.exp_zero, gates_self]
  | succ t hjt ih =>
    rw [logCumsum_succ, add_sub_right_comm, E.exp_add, ih fun l hl => hg l (Nat.le_succ_of_le hl),
      exp_logGate E (hg (t + 1) le_rfl), gates_succ g (Nat.succ_le_succ hjt)]

end

/-! ## Rows -/

section

variable {F : Type} [CommRing F] {D : ℕ}

/-- `dot`. -/
def dot (x y : Fin D → F) : F := x ⬝ᵥ y

lemma gates_apply (g : ℕ → Fin D → F) (a b : ℕ) (kk : Fin D) : gates g a b kk = gates (fun l => g l kk) a b := by
  simp [gates]

lemma dot_unrolled (x : Fin D → F) (n : ℕ) (w : ℕ → Fin D → F) (y : Fin D → F) :
    dot (x + ∑ j ∈ Finset.range n, w j) y = dot x y + ∑ j ∈ Finset.range n, dot (w j) y := by
  simp [dot, add_dotProduct, sum_dotProduct]

end

end VKernels.Kda
