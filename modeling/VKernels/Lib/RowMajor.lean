import VKernels.Lib.Blocks
import VKernels.Lib.Strided

/-!
# Row-major positions

The `k`-th index of a box in row-major order, and where a strided layout puts it.

* `kept` — the dimensions with more or less than one entry, with their strides.

## Results

* `unravel_inShape`, `dot_unravel`, `unravel_dot` — positions below the number of elements and indices
  of the box are in bijection.
* `dot_kept` — a dimension of one entry moves no element, whatever its stride.
* `dot_dense` — dense strides on the other dimensions address the `k`-th element at `k`.
-/

namespace Strided

/-- The `k`-th index in row-major order. -/
def unravel : List ℕ → ℕ → List ℕ
  | [], _ => []
  | _ :: shape, k => k / shape.prod :: unravel shape (k % shape.prod)

/-- One coordinate a dimension, each below its extent. -/
def InShape (shape idx : List ℕ) : Prop := List.Forall₂ (· < ·) idx shape

@[simp] lemma unravel_length (shape : List ℕ) (k : ℕ) : (unravel shape k).length = shape.length := by
  induction shape generalizing k with
  | nil => rfl
  | cons d shape ih => simp [unravel, ih]

section

variable {shape idx : List ℕ} {k : ℕ}

lemma pos_of_lt_prod {d : ℕ} (h : k < (d :: shape).prod) : 0 < d ∧ 0 < shape.prod := by
  exact ⟨Nat.pos_of_mul_pos_right (Nat.zero_lt_of_lt h), Nat.pos_of_mul_pos_left (Nat.zero_lt_of_lt h)⟩

lemma unravel_inShape (h : k < shape.prod) : InShape shape (unravel shape k) := by
  induction shape generalizing k with
  | nil => exact .nil
  | cons d shape ih =>
    have hpos := pos_of_lt_prod h
    refine .cons (Nat.div_lt_of_lt_mul ?_) (ih (Nat.mod_lt k hpos.2))
    rwa [mul_comm, ← List.prod_cons]

/-- The `k`-th index of a dense layout has address `k`. -/
lemma dot_unravel (h : k < shape.prod) : dot (unravel shape k) (rowMajor shape) = k := by
  induction shape generalizing k with
  | nil =>
    exact (Nat.lt_one_iff.mp h).symm
  | cons d shape ih =>
    show k / shape.prod * shape.prod + dot (unravel shape (k % shape.prod)) (rowMajor shape) = k
    rw [ih (Nat.mod_lt k (pos_of_lt_prod h).2), Nat.div_add_mod']

lemma dot_rowMajor_lt (h : InShape shape idx) : dot idx (rowMajor shape) < shape.prod := by
  induction h with
  | nil => exact one_pos
  | @cons i d idx shape hi _ ih =>
    calc i * shape.prod + dot idx (rowMajor shape) < i * shape.prod + shape.prod :=
          Nat.add_lt_add_left ih _
      _ = (i + 1) * shape.prod := (add_one_mul i _).symm
      _ ≤ d * shape.prod := Nat.mul_le_mul_right _ hi

lemma unravel_dot (h : InShape shape idx) : unravel shape (dot idx (rowMajor shape)) = idx := by
  induction h with
  | nil => rfl
  | @cons i d idx shape hi hrest ih =>
    have hlt := dot_rowMajor_lt hrest
    show (i * shape.prod + dot idx (rowMajor shape)) / shape.prod ::
      unravel shape ((i * shape.prod + dot idx (rowMajor shape)) % shape.prod) = i :: idx
    rw [VKernels.Blocks.block_div i hlt, VKernels.Blocks.block_mod i hlt, ih]

lemma dot_zero (shape strides : List ℕ) : dot (unravel shape 0) strides = 0 := by
  induction shape generalizing strides with
  | nil => exact dot_nil strides
  | cons d shape ih =>
    cases strides with
    | nil => rfl
    | cons s strides => simp [unravel, ih]

end

/-! ## Dimensions of one entry -/

def kept (shape strides : List ℕ) : List (ℕ × ℕ) := (shape.zip strides).filter fun p => p.1 ≠ 1

section

variable {d s : ℕ} {shape strides : List ℕ}

@[simp] lemma kept_one : kept (1 :: shape) (s :: strides) = kept shape strides := by
  simp [kept]

lemma kept_cons (hd : d ≠ 1) : kept (d :: shape) (s :: strides) = (d, s) :: kept shape strides := by
  simp [kept, hd]

lemma kept_prod (hlen : strides.length = shape.length) : ((kept shape strides).map Prod.fst).prod = shape.prod := by
  induction shape generalizing strides with
  | nil => rfl
  | cons d shape ih =>
    cases strides with
    | nil => cases hlen
    | cons s strides =>
      have hrest := ih (Nat.succ.inj hlen)
      by_cases hd : d = 1
      · simp [hd, hrest]
      · simp [kept_cons hd, hrest]

lemma dot_kept (hlen : strides.length = shape.length) {k : ℕ} (h : k < shape.prod) : dot (unravel shape k) strides =
      dot (unravel ((kept shape strides).map Prod.fst) k) ((kept shape strides).map Prod.snd) := by
  induction shape generalizing strides k with
  | nil => rfl
  | cons d shape ih =>
    cases strides with
    | nil => cases hlen
    | cons s strides =>
      have hlen := Nat.succ.inj hlen
      have hmod := Nat.mod_lt k (pos_of_lt_prod h).2
      show k / shape.prod * s + dot (unravel shape (k % shape.prod)) strides = _
      rw [ih hlen hmod]
      by_cases hd : d = 1
      · subst hd
        rw [List.prod_cons, one_mul] at h
        rw [kept_one, Nat.div_eq_of_lt h, Nat.mod_eq_of_lt h, Nat.zero_mul, zero_add]
      · rw [kept_cons hd]
        show _ = k / ((kept shape strides).map Prod.fst).prod * s +
          dot (unravel _ (k % ((kept shape strides).map Prod.fst).prod)) _
        rw [kept_prod hlen]

/-- Dense strides on the dimensions that are not of one entry. -/
def Dense : List ℕ → List ℕ → Prop
  | d :: shape, s :: strides => (d = 1 ∨ s = shape.prod) ∧ Dense shape strides
  | _, _ => True

lemma dot_dense (hlen : strides.length = shape.length) (hdense : Dense shape strides) {k : ℕ}
    (h : k < shape.prod) : dot (unravel shape k) strides = k := by
  induction shape generalizing strides k with
  | nil =>
    exact (Nat.lt_one_iff.mp h).symm
  | cons d shape ih =>
    cases strides with
    | nil => cases hlen
    | cons s strides =>
      obtain ⟨hs, hdense⟩ := hdense
      show k / shape.prod * s + dot (unravel shape (k % shape.prod)) strides = k
      rw [ih (Nat.succ.inj hlen) hdense (Nat.mod_lt k (pos_of_lt_prod h).2)]
      rcases hs with rfl | rfl
      · rw [List.prod_cons, one_mul] at h
        rw [Nat.div_eq_of_lt h, Nat.mod_eq_of_lt h, Nat.zero_mul, zero_add]
      · exact Nat.div_add_mod' k shape.prod

end

end Strided
