import Mathlib.Algebra.Field.Basic
import Mathlib.Order.Lattice

/-!
# Floating-point values

Finite values over any ordered type, the two infinities and NaN.

* `Fp` — a value; its order is that of a descending sort, NaN behind everything.
-/

namespace VKernels

inductive Fp (R : Type) where
  | nan
  | negInf
  | fin (x : R)
  | posInf
  deriving Repr

namespace Fp

variable {R : Type}

def isNaN : Fp R → Bool
  | nan => true
  | _ => false

def isFinite : Fp R → Bool
  | fin _ => true
  | _ => false

/-- The value of a finite one, 0 for any other. -/
def finitePart [Zero R] : Fp R → R
  | fin x => x
  | _ => 0

/-- `a + b`: opposite infinities have no sum. -/
def add [Add R] : Fp R → Fp R → Fp R
  | nan, _ => nan
  | _, nan => nan
  | posInf, negInf => nan
  | negInf, posInf => nan
  | posInf, _ => posInf
  | _, posInf => posInf
  | negInf, _ => negInf
  | _, negInf => negInf
  | fin x, fin y => fin (x + y)

/-! ## The order of a descending sort -/

/-- `a` comes no earlier than `b`. -/
def Le [LE R] : Fp R → Fp R → Prop
  | nan, _ => True
  | _, nan => False
  | negInf, _ => True
  | _, negInf => False
  | _, posInf => True
  | posInf, fin _ => False
  | fin x, fin y => x ≤ y

variable [LinearOrder R]

instance decidableLe : ∀ a b : Fp R, Decidable (Le a b)
  | nan, _ => .isTrue trivial
  | negInf, nan | fin _, nan | posInf, nan => .isFalse id
  | negInf, negInf | negInf, fin _ | negInf, posInf => .isTrue trivial
  | fin _, negInf | posInf, negInf => .isFalse id
  | fin _, posInf | posInf, posInf => .isTrue trivial
  | posInf, fin _ => .isFalse id
  | fin x, fin y => LinearOrder.toDecidableLE x y

instance : LinearOrder (Fp R) where
  le := Le
  le_refl a := by
    cases a with
    | fin x => exact le_refl x
    | _ => trivial
  le_trans a b c hab hbc := by
    cases a <;> cases b <;> cases c <;> simp only [Le] at *
    exact le_trans hab hbc
  le_antisymm a b hab hba := by
    cases a <;> cases b <;> simp only [Le] at *
    exact congrArg fin (le_antisymm hab hba)
  le_total a b := by
    cases a <;> cases b <;> simp only [Le, true_or, or_true]
    exact le_total _ _
  toDecidableLE := decidableLe

lemma le_iff {a b : Fp R} : a ≤ b ↔ Le a b := Iff.rfl

@[simp] lemma fin_lt_fin {x y : R} : fin x < fin y ↔ x < y := by
  rw [← not_le, ← not_le]
  exact Iff.rfl

@[simp] lemma nan_le (a : Fp R) : nan ≤ a := le_iff.mpr trivial

@[simp] lemma negInf_lt_fin (x : R) : negInf < fin x := lt_of_not_ge fun h => h

@[simp] lemma fin_lt_posInf (x : R) : fin x < posInf := lt_of_not_ge fun h => h

@[simp] lemma negInf_lt_posInf : (negInf : Fp R) < posInf := lt_of_not_ge fun h => h

/-- `a > b`. -/
def gt (a b : Fp R) : Bool := !a.isNaN && !b.isNaN && decide (b < a)

/-- `a == b`. -/
def eq (a b : Fp R) : Bool := !a.isNaN && !b.isNaN && decide (a = b)

/-! ## Operations -/

/-- `a + -inf`. -/
def lowered : Fp R → Fp R
  | nan => nan
  | posInf => nan
  | _ => negInf

/-- The operations of a machine: how finite results are rounded, and the order of a sum, are left open. -/
structure Arith (R : Type) [Zero R] where
  add : Fp R → Fp R → Fp R
  mul : Fp R → Fp R → Fp R
  div : Fp R → Fp R → Fp R
  sum : List (Fp R) → Fp R
  add_zero : ∀ a, add a (fin 0) = a
  add_negInf : ∀ a, add a negInf = lowered a

/-- An operation on finite operands. -/
def onFinite (op : R → R → R) : Fp R → Fp R → Fp R
  | fin x, fin y => fin (op x y)
  | _, _ => nan

/-- Operations without rounding; products and quotients of finite operands only. -/
def Arith.exact [Field R] : Arith R where
  add := Fp.add
  mul := onFinite (· * ·)
  div := onFinite (· / ·)
  sum := fun l => l.foldl Fp.add (fin 0)
  add_zero a := by
    cases a <;> simp [Fp.add]
  add_negInf a := by
    cases a <;> rfl

end Fp

end VKernels
