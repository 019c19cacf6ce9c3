import Mathlib

/-!
# Eight-bit floats

The two formats with four exponent bits and three mantissa bits, and the single-precision words that a kernel
assembles from the fields of a byte.

* `float32` — the value of a positive normal single.
* `float32_assembled` — the value of a word that was put together from an exponent and a mantissa.
* `e4m3fn_eq_two_mul` — a byte is twice as large in the one format as in the other.
-/

namespace VKernels.Float8

def exponent (raw : ℕ) : ℕ := (raw >>> 3) &&& 15

def mantissa (raw : ℕ) : ℕ := raw &&& 7

/-- The value without the sign. -/
def magnitude (bias : ℤ) (raw : ℕ) : ℚ :=
  if exponent raw = 0 then mantissa raw / 8 * 2 ^ (1 - bias) else (1 + mantissa raw / 8) * 2 ^ (exponent raw - bias)

def signed (raw : ℕ) (v : ℚ) : ℚ := if raw &&& 128 = 0 then v else -v

/-- Bias 7; NaN where all bits but the sign are set. -/
def e4m3fn (raw : ℕ) : Option ℚ := if raw &&& 127 = 127 then none else some (signed raw (magnitude 7 raw))

/-- Bias 8; NaN in place of the negative zero. -/
def e4m3fnuz (raw : ℕ) : Option ℚ := if raw = 128 then none else some (signed raw (magnitude 8 raw))

def float32 (bits : ℕ) : ℚ :=
  (1 + (bits &&& (2 ^ 23 - 1) : ℕ) / 2 ^ 23) * 2 ^ ((((bits >>> 23) &&& 255 : ℕ) : ℤ) - 127)

lemma exponent_lt (raw : ℕ) : exponent raw < 16 := Nat.lt_succ_of_le Nat.and_le_right

lemma mantissa_lt (raw : ℕ) : mantissa raw < 8 := Nat.lt_succ_of_le Nat.and_le_right

lemma float32_assembled {e m : ℕ} (he : e < 256) (hm : m < 8) :
    float32 ((e <<< 23) ||| (m <<< 20)) = (1 + m / 8) * 2 ^ ((e : ℤ) - 127) := by
  have hlow : m <<< 20 < 2 ^ 23 := by
    omega
  have hword : (e <<< 23) ||| (m <<< 20) = 2 ^ 23 * e + m <<< 20 := by
    rw [Nat.shiftLeft_eq, mul_comm, Nat.two_pow_add_eq_or_of_lt hlow]
  have hfraction : (2 ^ 23 * e + m <<< 20) &&& (2 ^ 23 - 1) = m <<< 20 := by
    rw [Nat.and_two_pow_sub_one_eq_mod, Nat.mul_add_mod, Nat.mod_eq_of_lt hlow]
  have hexponent : ((2 ^ 23 * e + m <<< 20) >>> 23) &&& 255 = e := by
    rw [Nat.shiftRight_eq_div_pow, Nat.mul_add_div (by norm_num), Nat.div_eq_of_lt hlow, add_zero,
      Nat.and_two_pow_sub_one_eq_mod e 8, Nat.mod_eq_of_lt he]
  rw [float32, hword, hfraction, hexponent, Nat.shiftLeft_eq]
  congr 2
  norm_num
  ring

lemma two_mul_magnitude (raw : ℕ) : magnitude 8 raw * 2 = magnitude 7 raw := by
  have hsucc (z : ℤ) : (2 : ℚ) ^ (z - 8) * 2 = 2 ^ (z - 7) := by
    rw [← zpow_add_one₀ (by norm_num)]
    congr 1
    ring
  unfold magnitude
  split
  · rw [mul_assoc, hsucc]
  · rw [mul_assoc, hsucc]

lemma signed_mul (raw : ℕ) (v w : ℚ) : signed raw v * w = signed raw (v * w) := by
  unfold signed
  split
  · rfl
  · exact neg_mul v w

lemma e4m3fn_negative_zero : e4m3fn 128 = some 0 := by
  have hexponent : exponent 128 = 0 := rfl
  have hmantissa : mantissa 128 = 0 := rfl
  have h : magnitude 7 128 = 0 := by simp [magnitude, hexponent, hmantissa]
  rw [e4m3fn, if_neg (by decide), h, signed, if_neg (by decide), neg_zero]

lemma e4m3fnuz_zero : e4m3fnuz 0 = some 0 := by
  have h : magnitude 8 0 = 0 := by simp [magnitude, exponent, mantissa]
  rw [e4m3fnuz, if_neg (by decide), h, signed, if_pos (by decide)]

end VKernels.Float8
