import Mathlib.Algebra.BigOperators.Group.List.Basic
import Mathlib.Algebra.Order.BigOperators.GroupWithZero.List
import Mathlib.Algebra.Order.Ring.Nat

/-!
# Strided addressing

An index into a box of `shape` has one coordinate a dimension; with a list of strides it has an
address.

## Results

* `dot_mono` — larger coordinates have larger addresses.
* `dot_last_rowMajor` — the last element of a dense layout has address `prod - 1`.
-/

namespace Strided

/-- `sum_i index_i * stride_i`. -/
def dot : List ℕ → List ℕ → ℕ
  | i :: idx, s :: strides => i * s + dot idx strides
  | _, _ => 0

@[simp] lemma dot_nil (strides : List ℕ) : dot [] strides = 0 := by
  cases strides <;> rfl

@[simp] lemma dot_cons (i s : ℕ) (idx strides : List ℕ) :
    dot (i :: idx) (s :: strides) = i * s + dot idx strides := rfl

/-- `prod` of the dimensions after each one. -/
def rowMajor : List ℕ → List ℕ
  | [] => []
  | _ :: shape => shape.prod :: rowMajor shape

@[simp] lemma rowMajor_length (shape : List ℕ) : (rowMajor shape).length = shape.length := by
  induction shape with
  | nil => rfl
  | cons d shape ih => exact congrArg (· + 1) ih

lemma dot_mono {idx idx' : List ℕ} (h : List.Forall₂ (· ≤ ·) idx idx') (strides : List ℕ) :
    dot idx strides ≤ dot idx' strides := by
  induction h generalizing strides with
  | nil => exact le_rfl
  | cons hi _ ih =>
    cases strides with
    | nil => exact le_rfl
    | cons s strides => exact Nat.add_le_add (Nat.mul_le_mul_right s hi) (ih strides)

lemma dot_last_rowMajor {shape : List ℕ} (h : ∀ d ∈ shape, 0 < d) :
    dot (shape.map (· - 1)) (rowMajor shape) = shape.prod - 1 := by
  induction shape with
  | nil => rfl
  | cons d shape ih =>
    have hrest : 0 < shape.prod := List.prod_pos fun e he => h e (by simp [he])
    obtain ⟨k, rfl⟩ := Nat.exists_eq_add_of_lt (h d (by simp))
    show (0 + k + 1 - 1) * shape.prod + dot (shape.map (· - 1)) (rowMajor shape) = _
    rw [ih fun e he => h e (by simp [he]), List.prod_cons, Nat.add_mul, Nat.add_sub_cancel]
    omega

end Strided
