import VKernels.Lib.Float8
import VKernels.Lib.FloatValues
import VKernels.Lib.Nearest

/-!
# Single precision

The 32-bit patterns of single-precision numbers and their values.

* `Single` — a sign and a magnitude; `Single.ofBits` — of a bit pattern.
* `Single.Finite`, `Single.value` — the finite numbers and their values.
* `bf16ToFloat` — a 16-bit pattern is the upper half of a single.
-/

namespace VKernels.Binary32

open Float8 Nearest

structure Single where
  negative : Bool
  magnitude : Fp ℚ

/-- The magnitude of a bit pattern. -/
def magnitudeOf (bits : ℕ) : Fp ℚ :=
  if (bits >>> 23) &&& 255 = 255 then
    if bits &&& (2 ^ 23 - 1) = 0 then .posInf else .nan
  else if (bits >>> 23) &&& 255 = 0 then .fin ((bits &&& (2 ^ 23 - 1) : ℕ) / 2 ^ 23 * 2 ^ (-126 : ℤ))
  else .fin (float32 bits)

namespace Single

def ofBits (bits : ℕ) : Single := ⟨(bits >>> 31) &&& 1 != 0, magnitudeOf bits⟩

def Finite (f : Single) (a : ℚ) : Prop := f.magnitude = .fin a

def value (f : Single) : ℚ :=
  match f.magnitude with
  | .fin a => withSign f.negative a
  | _ => 0

variable {a : ℚ}

lemma Finite.value_eq {f : Single} (h : f.Finite a) : f.value = withSign f.negative a := by
  rw [value, h]

lemma Finite.nonneg {bits : ℕ} (h : (ofBits bits).Finite a) : 0 ≤ a := by
  unfold Finite ofBits magnitudeOf at h
  split_ifs at h
  · obtain rfl := Fp.fin.inj h
    positivity
  · obtain rfl := Fp.fin.inj h
    unfold float32
    positivity

lemma Finite.abs_value {bits : ℕ} (h : (ofBits bits).Finite a) : |(ofBits bits).value| = a := by
  rw [h.value_eq, abs_withSign, abs_of_nonneg h.nonneg]

end Single

lemma ofBits_signed {s w : ℕ} (hs : s < 2) (hw : w < 2 ^ 31) :
    Single.ofBits ((s <<< 31) ||| w) = ⟨s != 0, magnitudeOf w⟩ := by
  have hword : (s <<< 31) ||| w = 2 ^ 31 * s + w := by
    rw [Nat.shiftLeft_eq, mul_comm, Nat.two_pow_add_eq_or_of_lt hw]
  have hsign : ((2 ^ 31 * s + w) >>> 31) &&& 1 = s := by
    rw [Nat.shiftRight_eq_div_pow, Nat.and_one_is_mod]
    omega
  have hexponent : ((2 ^ 31 * s + w) >>> 23) &&& 255 = (w >>> 23) &&& 255 := by
    rw [Nat.shiftRight_eq_div_pow, Nat.shiftRight_eq_div_pow, Nat.and_two_pow_sub_one_eq_mod _ 8,
      Nat.and_two_pow_sub_one_eq_mod _ 8]
    omega
  have hfraction : (2 ^ 31 * s + w) &&& (2 ^ 23 - 1) = w &&& (2 ^ 23 - 1) := by
    rw [Nat.and_two_pow_sub_one_eq_mod, Nat.and_two_pow_sub_one_eq_mod]
    omega
  have hmagnitude : magnitudeOf (2 ^ 31 * s + w) = magnitudeOf w := by
    unfold magnitudeOf float32
    rw [hexponent, hfraction]
  rw [hword, Single.ofBits, hsign, hmagnitude]

lemma magnitudeOf_assembled {e m : ℕ} (he0 : 0 < e) (he : e < 255) (hm : m < 8) :
    magnitudeOf ((e <<< 23) ||| (m <<< 20)) = .fin ((1 + m / 8) * 2 ^ ((e : ℤ) - 127)) := by
  have hlow : m <<< 20 < 2 ^ 23 := by
    omega
  have hexponent : (((e <<< 23) ||| (m <<< 20)) >>> 23) &&& 255 = e := by
    rw [Nat.shiftLeft_eq e, mul_comm, ← Nat.two_pow_add_eq_or_of_lt hlow, Nat.shiftRight_eq_div_pow,
      Nat.and_two_pow_sub_one_eq_mod _ 8]
    omega
  rw [magnitudeOf, hexponent, if_neg (by omega), if_neg (by omega), float32_assembled (by omega) hm]

lemma ofBits_power {e : ℕ} (he0 : 0 < e) (he : e < 255) :
    Single.ofBits (e <<< 23) = ⟨false, .fin (2 ^ ((e : ℤ) - 127))⟩ := by
  have hlt : e <<< 23 < 2 ^ 31 := by
    omega
  have hsigned := ofBits_signed (s := 0) (by norm_num) hlt
  have hassembled := magnitudeOf_assembled he0 he (m := 0) (by norm_num)
  norm_num at hsigned hassembled
  rw [hsigned, hassembled]

variable {a : ℚ}

/-- Finite numbers are below `2 ^ 128`. -/
lemma Single.Finite.lt {bits : ℕ} (h : (ofBits bits).Finite a) : a < 2 ^ (128 : ℤ) := by
  have hfraction : ((bits &&& (2 ^ 23 - 1) : ℕ) : ℚ) < 2 ^ 23 := by
    exact_mod_cast lt_of_le_of_lt (Nat.and_le_right (n := bits)) (show 2 ^ 23 - 1 < 2 ^ 23 by norm_num)
  have hfraction : ((bits &&& (2 ^ 23 - 1) : ℕ) : ℚ) / 2 ^ 23 < 1 := (div_lt_one (by norm_num)).mpr hfraction
  unfold Single.Finite Single.ofBits magnitudeOf at h
  split_ifs at h with h₁ h₂ h₃
  · obtain rfl := Fp.fin.inj h
    have hsmall : ((bits &&& (2 ^ 23 - 1) : ℕ) : ℚ) / 2 ^ 23 * 2 ^ (-126 : ℤ) < 1 * 1 :=
      mul_lt_mul'' hfraction (by norm_num) (by positivity) (by norm_num)
    exact hsmall.trans (by norm_num)
  · obtain rfl := Fp.fin.inj h
    have hexponent : (bits >>> 23) &&& 255 ≤ 255 := Nat.and_le_right
    have hpower : (2 : ℚ) ^ ((((bits >>> 23) &&& 255 : ℕ) : ℤ) - 127) ≤ 2 ^ (127 : ℤ) :=
      zpow_le_zpow_right₀ (by norm_num) (by omega)
    calc float32 bits < 2 * 2 ^ ((((bits >>> 23) &&& 255 : ℕ) : ℤ) - 127) :=
          mul_lt_mul_of_pos_right (by linarith) (by positivity)
      _ ≤ 2 * 2 ^ (127 : ℤ) := mul_le_mul_of_nonneg_left hpower (by norm_num)
      _ = 2 ^ (128 : ℤ) := by norm_num

def bf16ToFloat (bits : ℕ) : Single := Single.ofBits (bits <<< 16)

/-! ## Fraction and exponent -/

/-- A positive number as a fraction in `[1/2, 1)` and an exponent. -/
def frexp (a : ℚ) : ℚ × ℤ :=
  if a = 0 then (0, 0)
  else
    let e := Int.log 2 a + 1
    (a / 2 ^ e, e)

lemma frexp_of_pos (ha : 0 < a) : frexp a = (a / 2 ^ (Int.log 2 a + 1), Int.log 2 a + 1) := if_neg ha.ne'

lemma two_zpow_log_le (ha : 0 < a) : (2 : ℚ) ^ Int.log 2 a ≤ a := by
  exact_mod_cast Int.zpow_log_le_self (b := 2) (by norm_num) ha

lemma lt_two_zpow_log (a : ℚ) : a < (2 : ℚ) ^ (Int.log 2 a + 1) := by
  exact_mod_cast Int.lt_zpow_succ_log_self (b := 2) (by norm_num) a

lemma le_log_iff (ha : 0 < a) {e : ℤ} : e ≤ Int.log 2 a ↔ (2 : ℚ) ^ e ≤ a := by
  have h := Int.zpow_le_iff_le_log (b := 2) (x := e) (by norm_num) ha
  exact_mod_cast h.symm

end VKernels.Binary32
