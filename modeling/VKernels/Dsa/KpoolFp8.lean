import VKernels.Lib.Binary32

/-!
# The eight-bit floats of the kpool cache

`f32_to_fp8e4m3fn_rne` and `fp8e4m3fn_to_f32` of `kernels/dsa_kpool.cpp`. Every operation of the two on a magnitude is
exact in single precision, so they are modelled on values.

* `roundMant`, `f32ToFp8e4m3fnRne` — the encoder.
* `fp8e4m3fnToF32` — the decoder.

## Results

* `encode_normal_eq`, `encode_small` — what the encoder does from `2^-6` on and below.
* `rounds_iff` — the encoder rounds exactly the numbers up to `2^-10` and from `2^-6` on: between them it takes the
  unit of the subnormals for `2^-6`, where it is `2^-9`.
* `decode_iff` — the decoder is right on the zeros only: its normals are biased by 8 and its subnormals by `2^-6`.
* `fp8_conversions_iff` — the two, and that decoding and encoding gives a code back for the zeros only.
-/

namespace VKernels.Dsa.KpoolFp8

open Float8 Nearest Binary32
open Int (log)
open Single (ofBits)

/-- `round_mant`. -/
def roundMant (mf : ℚ) : ℕ :=
  let fl := ⌊mf⌋₊
  let rem := mf - fl
  if rem < 1 / 2 then fl
  else if rem > 1 / 2 then fl + 1
  else if fl &&& 1 ≠ 0 then fl + 1 else fl

def f32ToFp8e4m3fnRne (fv : Single) : ℕ :=
  let sign := fv.negative.toNat
  match fv.magnitude with
  | .nan => 0x7F
  | .fin amag =>
    if amag = 0 then sign <<< 7
    else if amag > 448 then (sign <<< 7) ||| 0x7E
    else
      let (frac, e) := frexp amag
      let eUnbiased := e - 1
      if eUnbiased < -9 then sign <<< 7
      else if eUnbiased < -6 then
        let mant := roundMant (amag * 64)
        if mant ≥ 8 then (sign <<< 7) ||| 0x08 else (sign <<< 7) ||| mant
      else
        let mant := roundMant ((2 * frac - 1) * 8)
        let storedExp := (eUnbiased + 7).toNat
        -- carry into the exponent
        let (mant, storedExp) := if mant ≥ 8 then (0, storedExp + 1) else (mant, storedExp)
        if storedExp = 15 ∧ mant = 7 then (sign <<< 7) ||| 0x7E
        else if storedExp > 15 then (sign <<< 7) ||| 0x7E
        else (sign <<< 7) ||| (storedExp <<< 3) ||| mant
  | _ => (sign <<< 7) ||| 0x7E

def fp8e4m3fnToF32 (b : ℕ) : Single :=
  let s := (b >>> 7) &&& 1
  let e := (b >>> 3) &&& 15
  let m := b &&& 7
  if e = 15 ∧ m = 7 then ofBits 0x7fc00000
  else if e = 0 then
    if m = 0 then ⟨s != 0, .fin 0⟩ else ⟨s != 0, .fin (m * (1 / 64))⟩
  else ofBits ((s <<< 31) ||| ((e + 119) <<< 23) ||| (m <<< 20))

/-- The finite values of the format. -/
def codeValues : Set ℚ := {v | ∃ raw < 256, e4m3fn raw = some v}

/-- `raw` is the code of a number: its sign, the nearest value, and the even code of two as near. -/
structure Rounds (f : Single) (raw : ℕ) : Prop where
  byte : raw < 256
  sign : raw >>> 7 = f.negative.toNat
  nearest : ∃ v, e4m3fn raw = some v ∧ IsNearest codeValues f.value v
  even : ∀ v, e4m3fn raw = some v → ∀ w ∈ codeValues, w ≠ v → |f.value - w| = |f.value - v| → raw % 2 = 0

/-! ## Codes -/

lemma roundMant_eq (mf : ℚ) : roundMant mf = roundEven mf := by
  have hodd : (⌊mf⌋₊ &&& 1 ≠ 0) = (⌊mf⌋₊ % 2 = 1) := by
    rw [Nat.and_one_is_mod]
    exact propext (by omega)
  unfold roundMant roundEven
  simp

def code (s e m : ℕ) : ℕ := (s <<< 7) ||| (e <<< 3) ||| m

/-- The code has these fields. -/
structure Fields (s e m raw : ℕ) : Prop where
  byte : raw < 256
  sign : raw >>> 7 = s
  parity : raw % 2 = m % 2
  exponent : exponent raw = e
  mantissa : mantissa raw = m
  positive : raw &&& 128 = 0 ↔ s = 0
  nan : raw &&& 127 = 127 ↔ e = 15 ∧ m = 7

lemma code_fields {s e m : ℕ} (hs : s < 2) (he : e < 16) (hm : m < 8) : Fields s e m (code s e m) := by
  have hall : ∀ s : Fin 2, ∀ e : Fin 16, ∀ m : Fin 8, (code s e m < 256 ∧ code s e m >>> 7 = s ∧
      code s e m % 2 = m % 2) ∧ (exponent (code s e m) = e ∧ mantissa (code s e m) = m) ∧
      (code s e m &&& 128 = 0 ↔ s.val = 0) ∧ (code s e m &&& 127 = 127 ↔ e.val = 15 ∧ m.val = 7) := by
    decide +kernel
  obtain ⟨⟨h₁, h₂, h₃⟩, ⟨h₄, h₅⟩, h₆, h₇⟩ := hall ⟨s, hs⟩ ⟨e, he⟩ ⟨m, hm⟩
  exact ⟨h₁, h₂, h₃, h₄, h₅, h₆, h₇⟩

lemma byte_fields : ∀ raw < 256, exponent raw < 16 ∧ mantissa raw < 8 ∧
    raw = code ((raw >>> 7) &&& 1) (exponent raw) (mantissa raw) ∧ (raw >>> 7) &&& 1 < 2 := by
  decide +kernel

def codeMagnitude (e m : ℕ) : ℚ := if e = 0 then m / 8 * 2 ^ (-6 : ℤ) else (1 + m / 8) * 2 ^ ((e : ℤ) - 7)

lemma codeMagnitude_nonneg (e m : ℕ) : 0 ≤ codeMagnitude e m := by
  unfold codeMagnitude
  split <;> positivity

lemma e4m3fn_code {s e m : ℕ} (hs : s < 2) (he : e < 16) (hm : m < 8) (hfinite : ¬(e = 15 ∧ m = 7)) :
    e4m3fn (code s e m) = some (withSign (s != 0) (codeMagnitude e m)) := by
  have hfields := code_fields hs he hm
  rw [e4m3fn, if_neg (fun h => hfinite (hfields.nan.mp h)), signed, magnitude, hfields.exponent, hfields.mantissa]
  have hmagnitude : (if e = 0 then (m : ℚ) / 8 * 2 ^ (1 - 7 : ℤ) else (1 + m / 8) * 2 ^ ((e : ℤ) - 7)) =
      codeMagnitude e m := by
    unfold codeMagnitude
    norm_num
  rw [hmagnitude, withSign]
  by_cases h : s = 0
  · rw [if_pos (hfields.positive.mpr h)]
    simp [h]
  · rw [if_neg (fun h' => h (hfields.positive.mp h'))]
    simp [h]

lemma mem_codeValues {w : ℚ} (hw : w ∈ codeValues) :
    ∃ e < 16, ∃ m < 8, ¬(e = 15 ∧ m = 7) ∧ |w| = codeMagnitude e m := by
  obtain ⟨raw, hraw, hvalue⟩ := hw
  obtain ⟨he, hm, hcode, hs⟩ := byte_fields raw hraw
  have hfinite : ¬(exponent raw = 15 ∧ mantissa raw = 7) := by
    intro hnan
    have hfields := code_fields hs he hm
    rw [← hcode] at hfields
    rw [e4m3fn, if_pos (hfields.nan.mpr hnan)] at hvalue
    cases hvalue
  rw [hcode, e4m3fn_code hs he hm hfinite] at hvalue
  obtain rfl := Option.some.inj hvalue
  exact ⟨_, he, _, hm, hfinite, by rw [abs_withSign, abs_of_nonneg (codeMagnitude_nonneg _ _)]⟩

lemma codeMagnitude_mem {s e m : ℕ} (hs : s < 2) (he : e < 16) (hm : m < 8) (hfinite : ¬(e = 15 ∧ m = 7)) :
    withSign (s != 0) (codeMagnitude e m) ∈ codeValues :=
  ⟨_, (code_fields hs he hm).byte, e4m3fn_code hs he hm hfinite⟩

lemma codeMagnitude_grid {e m : ℕ} (hm : m < 8) {E : ℤ} (hE : -6 ≤ E) :
    codeMagnitude e m < 2 ^ E ∨ ∃ n : ℤ, codeMagnitude e m = (1 + n / 8) * 2 ^ E := by
  have hm' : (m : ℚ) < 8 := by exact_mod_cast hm
  unfold codeMagnitude
  split
  · left
    have hlow : (2 : ℚ) ^ (-6 : ℤ) ≤ 2 ^ E := zpow_le_zpow_right₀ (by norm_num) hE
    have hpos : (0 : ℚ) < 2 ^ (-6 : ℤ) := by positivity
    calc (m : ℚ) / 8 * 2 ^ (-6 : ℤ) < 1 * 2 ^ (-6 : ℤ) := by
          apply mul_lt_mul_of_pos_right _ hpos
          linarith
      _ ≤ 2 ^ E := by rwa [one_mul]
  · by_cases hlt : (e : ℤ) - 7 < E
    · left
      have hup : (2 : ℚ) ^ ((e : ℤ) - 7 + 1) ≤ 2 ^ E := zpow_le_zpow_right₀ (by norm_num) hlt
      rw [zpow_add_one₀ (by norm_num)] at hup
      have hpos : (0 : ℚ) < 2 ^ ((e : ℤ) - 7) := by positivity
      nlinarith
    · right
      obtain ⟨k, hk⟩ := Int.eq_ofNat_of_zero_le (show 0 ≤ (e : ℤ) - 7 - E by omega)
      refine ⟨(8 + m) * 2 ^ k - 8, ?_⟩
      have hsplit : (2 : ℚ) ^ ((e : ℤ) - 7) = 2 ^ k * 2 ^ E := by
        rw [← zpow_natCast, ← zpow_add₀ (by norm_num)]
        congr 1
        omega
      rw [hsplit]
      push_cast
      ring

lemma codeMagnitude_subnormal (m : ℕ) : codeMagnitude 0 m = m / 512 := by
  unfold codeMagnitude
  rw [if_pos rfl]
  ring

lemma codeMagnitude_ge (e m : ℕ) : codeMagnitude e m = 0 ∨ 1 / 512 ≤ codeMagnitude e m := by
  rcases eq_zero_or_pos e with rfl | he
  · rw [codeMagnitude_subnormal]
    rcases eq_zero_or_pos m with rfl | hm
    · left
      norm_num
    · right
      have : (1 : ℚ) ≤ m := by exact_mod_cast hm
      linarith
  · right
    unfold codeMagnitude
    rw [if_neg (by omega)]
    have hlow : (2 : ℚ) ^ (-6 : ℤ) ≤ 2 ^ ((e : ℤ) - 7) := zpow_le_zpow_right₀ (by norm_num) (by omega)
    have hm : (0 : ℚ) ≤ m := Nat.cast_nonneg m
    norm_num at hlow
    nlinarith

lemma codeMagnitude_le {e m : ℕ} (he : e < 16) (hm : m < 8) (hfinite : ¬(e = 15 ∧ m = 7)) :
    codeMagnitude e m ≤ 448 := by
  have hm' : (m : ℚ) < 8 := by exact_mod_cast hm
  rcases eq_zero_or_pos e with rfl | hpos
  · rw [codeMagnitude_subnormal]
    linarith
  · unfold codeMagnitude
    rw [if_neg (by omega)]
    by_cases hlast : e = 15
    · have hm6 : m ≤ 6 := by omega
      have hm6 : (m : ℚ) ≤ 6 := by exact_mod_cast hm6
      subst hlast
      linarith
    · have hup : (2 : ℚ) ^ ((e : ℤ) - 7) ≤ 2 ^ (7 : ℤ) := zpow_le_zpow_right₀ (by norm_num) (by omega)
      nlinarith

/-! ## Rounding to a code -/

section

variable {f : Single} {a : ℚ}

lemma rounds_of_code (hf : f.Finite a) (ha : 0 ≤ a) {e m : ℕ} (he : e < 16) (hm : m < 8)
    (hfinite : ¬(e = 15 ∧ m = 7))
    (hnearest : ∀ e' < 16, ∀ m' < 8, ¬(e' = 15 ∧ m' = 7) → |a - codeMagnitude e m| ≤ |a - codeMagnitude e' m'|)
    (heven : ∀ e' < 16, ∀ m' < 8, ¬(e' = 15 ∧ m' = 7) → codeMagnitude e' m' ≠ codeMagnitude e m →
      |a - codeMagnitude e' m'| = |a - codeMagnitude e m| → m % 2 = 0) :
    Rounds f (code f.negative.toNat e m) := by
  have hs : f.negative.toNat < 2 := by cases f.negative <;> decide
  have hfields := code_fields hs he hm
  have hvalue := e4m3fn_code hs he hm hfinite
  rw [Bool.toNat_bne_zero] at hvalue
  have hmem : withSign f.negative (codeMagnitude e m) ∈ codeValues := ⟨_, hfields.byte, hvalue⟩
  refine ⟨hfields.byte, hfields.sign, ⟨_, hvalue, ?_⟩, ?_⟩
  · rw [hf.value_eq]
    refine isNearest_signed ha hmem fun w hw => ?_
    obtain ⟨e', he', m', hm', hfinite', hw⟩ := mem_codeValues hw
    rw [hw]
    exact hnearest e' he' m' hm' hfinite'
  · intro v hv w hw hne htie
    obtain rfl := Option.some.inj (hvalue.symm.trans hv)
    rw [hfields.parity]
    rw [hf.value_eq, abs_withSign_sub] at htie
    obtain ⟨e', he', m', hm', hfinite', hmagnitude⟩ := mem_codeValues hw
    -- zero is a code, so nothing as near lies beyond it
    have hzero : |a - codeMagnitude e m| ≤ a := by
      have h := hnearest 0 (by norm_num) 0 (by norm_num) (by norm_num)
      have hcode : codeMagnitude 0 0 = 0 := by norm_num [codeMagnitude]
      rwa [hcode, sub_zero, abs_of_nonneg ha] at h
    have hsigned := eq_withSign_of_tie ha (htie.le.trans hzero)
    rw [hmagnitude] at hsigned
    refine heven e' he' m' hm' hfinite' (fun heq => hne ?_) ?_
    · rw [hsigned, heq]
    · rwa [hsigned, abs_withSign_sub] at htie

/-- The fraction above the power of two, in eighths. -/
def eighths (a : ℚ) : ℚ := (a / 2 ^ log 2 a - 1) * 8

lemma eighths_range (ha : 0 < a) : 0 ≤ eighths a ∧ eighths a < 8 := by
  have hpos : (0 : ℚ) < 2 ^ log 2 a := by positivity
  have hlow := (one_le_div hpos).mpr (two_zpow_log_le ha)
  have hhigh : a / 2 ^ log 2 a < 2 := by
    rw [div_lt_iff₀ hpos, mul_comm, ← zpow_add_one₀ (by norm_num)]
    exact lt_two_zpow_log a
  unfold eighths
  constructor <;> linarith

lemma roundEven_eighths_le (ha : 0 < a) : roundEven (eighths a) ≤ 8 := by
  obtain ⟨hlow, hhigh⟩ := eighths_range ha
  have herror := (abs_le.mp (roundEven_error hlow)).1
  have : (roundEven (eighths a) : ℚ) < 9 := by linarith
  have : roundEven (eighths a) < 9 := by exact_mod_cast this
  omega

lemma normal_range (hlo : (2 : ℚ) ^ (-6 : ℤ) ≤ a) (hhi : a ≤ 448) :
    -6 ≤ log 2 a ∧ log 2 a ≤ 8 ∧ (log 2 a = 8 → roundEven (eighths a) ≤ 6) := by
  have ha : 0 < a := lt_of_lt_of_le (by positivity) hlo
  refine ⟨(le_log_iff ha).mpr hlo, ?_, fun h8 => ?_⟩
  · by_contra h
    have := (le_log_iff ha).mp (show 9 ≤ log 2 a by omega)
    linarith
  · have herror := (abs_le.mp (roundEven_error (eighths_range ha).1)).1
    have hpow : (2 : ℚ) ^ (8 : ℤ) = 256 := by norm_num
    have hlast : eighths a ≤ 6 := by
      rw [eighths, h8, hpow]
      linarith
    have : (roundEven (eighths a) : ℚ) < 7 := by linarith
    have : roundEven (eighths a) < 7 := by exact_mod_cast this
    omega

/-- **From `2 ^ -6` on** the encoder rounds the fraction to eighths of the power of two below. -/
theorem encode_normal_eq (hf : f.Finite a) (hlo : (2 : ℚ) ^ (-6 : ℤ) ≤ a) (hhi : a ≤ 448) : f32ToFp8e4m3fnRne f =
    if roundEven (eighths a) ≥ 8 then code f.negative.toNat ((log 2 a + 7).toNat + 1) 0
    else code f.negative.toNat (log 2 a + 7).toNat (roundEven (eighths a)) := by
  have ha : 0 < a := lt_of_lt_of_le (by positivity) hlo
  obtain ⟨hE, hE8, hlast⟩ := normal_range hlo hhi
  have hfrac : (2 * (a / 2 ^ (log 2 a + 1)) - 1) * 8 = eighths a := by
    rw [eighths, zpow_add_one₀ (by norm_num)]
    field_simp
  unfold f32ToFp8e4m3fnRne
  rw [hf]
  simp only [roundMant_eq, frexp_of_pos ha, hfrac]
  rw [if_neg ha.ne', if_neg (not_lt.mpr hhi), if_neg (by omega), if_neg (by omega), add_sub_cancel_right]
  split
  · rw [if_neg (by omega), if_neg (by omega)]
    rfl
  · rw [if_neg (by omega), if_neg (by omega)]
    rfl

lemma encode_normal (hf : f.Finite a) (hlo : (2 : ℚ) ^ (-6 : ℤ) ≤ a) (hhi : a ≤ 448) :
    ∃ e < 16, ∃ m < 8, ¬(e = 15 ∧ m = 7) ∧ f32ToFp8e4m3fnRne f = code f.negative.toNat e m ∧
      codeMagnitude e m = (1 + roundEven (eighths a) / 8) * 2 ^ log 2 a ∧ m % 2 = roundEven (eighths a) % 2 := by
  obtain ⟨hE, hE8, hlast⟩ := normal_range hlo hhi
  have hround := roundEven_eighths_le (lt_of_lt_of_le (by positivity) hlo)
  obtain ⟨k, hk⟩ := Int.eq_ofNat_of_zero_le (show 0 ≤ log 2 a + 7 by omega)
  rw [encode_normal_eq hf hlo hhi, hk, Int.toNat_natCast]
  generalize roundEven _ = r at hround hlast ⊢
  split
  · refine ⟨k + 1, by omega, 0, by norm_num, by omega, rfl, ?_, by omega⟩
    have hr8 : r = 8 := by omega
    rw [codeMagnitude, if_neg (by omega), hr8, show ((k + 1 : ℕ) : ℤ) - 7 = log 2 a + 1 by omega,
      zpow_add_one₀ (by norm_num)]
    ring
  · refine ⟨k, by omega, r, by omega, by omega, rfl, ?_, rfl⟩
    rw [codeMagnitude, if_neg (by omega), show (k : ℤ) - 7 = log 2 a by omega]

/-- **The normal range rounds**, and everything above it saturates. -/
theorem rounds_normal (hf : f.Finite a) (hlo : (2 : ℚ) ^ (-6 : ℤ) ≤ a) : Rounds f (f32ToFp8e4m3fnRne f) := by
  have ha : 0 < a := lt_of_lt_of_le (by positivity) hlo
  have hpos : (0 : ℚ) < 2 ^ log 2 a := by positivity
  have hbelow := two_zpow_log_le ha
  have hE : -6 ≤ log 2 a := (le_log_iff ha).mpr hlo
  by_cases hhi : a ≤ 448
  · obtain ⟨e, he, m, hm, hfinite, hencode, hvalue, hparity⟩ := encode_normal hf hlo hhi
    have hmf : 0 ≤ (a / 2 ^ log 2 a - 1) * 8 := by
      have := (one_le_div hpos).mpr hbelow
      linarith
    -- distances are those of the fraction, in eighths
    have hdist (n : ℚ) : |a - (1 + n / 8) * 2 ^ log 2 a| =
        |(a / 2 ^ log 2 a - 1) * 8 - n| * (2 ^ log 2 a / 8) := by
      have hunit : (0 : ℚ) ≤ 2 ^ log 2 a / 8 := by positivity
      conv_rhs => rw [← abs_of_nonneg hunit, ← abs_mul]
      congr 1
      field_simp
      ring
    have hunit : (0 : ℚ) < 2 ^ log 2 a / 8 := by positivity
    have hfirst : |a - codeMagnitude e m| ≤ a - 2 ^ log 2 a := by
      have h := mul_le_mul_of_nonneg_right (roundEven_nearest hmf 0) hunit.le
      have h0 := hdist 0
      rw [zero_div, add_zero, one_mul, abs_of_nonneg (by linarith)] at h0
      rw [hvalue, hdist, h0]
      exact_mod_cast h
    rw [hencode]
    refine rounds_of_code hf ha.le he hm hfinite (fun e' _ m' hm' _ => ?_) (fun e' _ m' hm' _ hne htie => ?_)
    · rcases codeMagnitude_grid hm' hE with hlt | ⟨n, hn⟩
      · refine hfirst.trans ?_
        rw [abs_of_nonneg (by linarith)]
        linarith
      · rw [hvalue, hn, hdist, hdist]
        exact mul_le_mul_of_nonneg_right (roundEven_nearest hmf n) hunit.le
    · rcases codeMagnitude_grid hm' hE with hlt | ⟨n, hn⟩
      · -- a code of a lower binade is farther than the start of this one
        rw [abs_of_nonneg (by linarith)] at htie
        linarith
      · rw [hvalue, hn, hdist, hdist] at htie
        rw [hparity]
        refine roundEven_tie hmf (n := n) (fun heq => hne ?_) (mul_right_cancel₀ hunit.ne' htie)
        rw [hvalue, hn, heq, Int.cast_natCast]
  · have hhi := not_le.mp hhi
    have hencode : f32ToFp8e4m3fnRne f = code f.negative.toNat 15 6 := by
      unfold f32ToFp8e4m3fnRne
      rw [hf]
      simp only
      rw [if_neg ha.ne', if_pos hhi]
      cases f.negative <;> rfl
    have hmax : codeMagnitude 15 6 = 448 := by norm_num [codeMagnitude]
    rw [hencode]
    refine rounds_of_code hf ha.le (by norm_num) (by norm_num) (by norm_num) (fun e' he' m' hm' hfinite' => ?_)
      (fun e' he' m' hm' hfinite' hne htie => rfl)
    have := codeMagnitude_le he' hm' hfinite'
    rw [hmax, abs_of_pos (by linarith), abs_of_pos (by linarith)]
    linarith

/-- **Below `2 ^ -6`** the encoder has the codes 0 and 1 only. -/
theorem encode_small (hf : f.Finite a) (ha : 0 ≤ a) (hlt : a < 2 ^ (-6 : ℤ)) :
    f32ToFp8e4m3fnRne f = code f.negative.toNat 0 (if a ≤ 2 ^ (-7 : ℤ) then 0 else 1) := by
  have hzero (s : Bool) : s.toNat <<< 7 = code s.toNat 0 0 := by cases s <;> rfl
  have hmant (s : Bool) (m : ℕ) : (s.toNat <<< 7) ||| m = code s.toNat 0 m := by simp [code]
  have hseven : (2 : ℚ) ^ (-7 : ℤ) = 1 / 128 := by norm_num
  have hsix : (2 : ℚ) ^ (-6 : ℤ) = 1 / 64 := by norm_num
  unfold f32ToFp8e4m3fnRne
  rw [hf]
  simp only
  rw [hsix] at hlt
  rw [hseven]
  rcases ha.eq_or_lt with rfl | hpos
  · rw [if_pos rfl, if_pos (by norm_num), hzero]
  · have hE : log 2 a < -6 := by
      by_contra h
      have := (le_log_iff hpos).mp (not_lt.mp h)
      rw [hsix] at this
      linarith
    rw [if_neg hpos.ne', if_neg (by linarith), frexp_of_pos hpos]
    by_cases htiny : log 2 a + 1 - 1 < -9
    · have hle : a ≤ 1 / 128 := by
        by_contra h
        have h := (le_log_iff hpos).mpr (show (2 : ℚ) ^ (-9 : ℤ) ≤ a by norm_num; linarith)
        omega
      rw [if_pos htiny, if_pos hle, hzero]
    · have hfloor : ⌊a * 64⌋₊ = 0 := Nat.floor_eq_zero.mpr (by linarith)
      have hround : roundEven (a * 64) = if a ≤ 1 / 128 then 0 else 1 := by
        unfold roundEven
        rw [hfloor]
        push_cast
        rw [sub_zero]
        by_cases hle : a ≤ 1 / 128
        · rw [if_pos hle, if_neg (show ¬a * 64 > 1 / 2 by linarith)]
          simp
        · rw [if_neg hle, if_neg (by linarith), if_pos (by linarith)]
      rw [if_neg htiny, if_pos (by omega), roundMant_eq, hround]
      have hsmall : ¬(if a ≤ 1 / 128 then 0 else 1) ≥ 8 := by split <;> omega
      rw [if_neg hsmall, hmant]

lemma rounds_iff (hf : f.Finite a) (ha : 0 ≤ a) :
    Rounds f (f32ToFp8e4m3fnRne f) ↔ a ≤ 2 ^ (-10 : ℤ) ∨ 2 ^ (-6 : ℤ) ≤ a := by
  have hs : f.negative.toNat < 2 := by cases f.negative <;> decide
  constructor
  · intro hrounds
    by_contra hmiddle
    obtain ⟨hlo, hhi⟩ := not_or.mp hmiddle
    obtain ⟨hlo, hhi⟩ := And.intro (not_le.mp hlo) (not_le.mp hhi)
    obtain ⟨v, hv, -, hnearest⟩ := hrounds.nearest
    rw [encode_small hf ha hhi] at hv
    have hcloser (m : ℕ) (hm : m < 8) : |a - (if a ≤ 2 ^ (-7 : ℤ) then 0 else 1 : ℕ) / 512| ≤ |a - m / 512| := by
      have h := hnearest _ (by
        have h := codeMagnitude_mem hs (show 0 < 16 by norm_num) hm (by norm_num)
        rwa [Bool.toNat_bne_zero] at h)
      rw [e4m3fn_code hs (by norm_num) (by split <;> norm_num) (by norm_num), Bool.toNat_bne_zero] at hv
      obtain rfl := Option.some.inj hv
      rwa [hf.value_eq, abs_withSign_sub, abs_withSign_sub, codeMagnitude_subnormal, codeMagnitude_subnormal] at h
    norm_num at hlo hhi
    by_cases hle : a ≤ 2 ^ (-7 : ℤ)
    · -- the code 1 is nearer than 0
      have h := hcloser 1 (by norm_num)
      rw [if_pos hle] at h
      norm_num at h
      rw [abs_of_nonneg ha] at h
      rcases le_or_gt a (1 / 512) with hcase | hcase
      · rw [abs_of_nonpos (by linarith)] at h
        linarith
      · rw [abs_of_pos (by linarith)] at h
        linarith
    · -- the code 4 is nearer than 1
      have h := hcloser 4 (by norm_num)
      rw [if_neg hle] at h
      norm_num at hle h
      rw [abs_of_pos (by linarith), abs_of_pos (by linarith)] at h
      linarith
  · rintro (hle | hle)
    · have hsmall : a < 2 ^ (-6 : ℤ) := hle.trans_lt (by norm_num)
      have hseven : a ≤ 2 ^ (-7 : ℤ) := hle.trans (by norm_num)
      norm_num at hle
      rw [encode_small hf ha hsmall, if_pos hseven]
      refine rounds_of_code hf ha (by norm_num) (by norm_num) (by norm_num) (fun e' _ m' hm' _ => ?_)
        (fun _ _ _ _ _ _ _ => rfl)
      rw [codeMagnitude_subnormal]
      norm_num
      rw [abs_of_nonneg ha]
      -- every other code is at least twice as large
      rcases codeMagnitude_ge e' m' with h0 | hge
      · rw [h0, sub_zero, abs_of_nonneg ha]
      · rw [abs_of_nonpos (by linarith)]
        linarith
    · exact rounds_normal hf hle

end

/-! ## The decoder -/

section

variable {raw : ℕ}

/-- The magnitude that the decoder gives a code. -/
def decodedMagnitude (e m : ℕ) : ℚ := if e = 0 then m / 64 else (1 + m / 8) * 2 ^ ((e : ℤ) - 8)

/-- The decoder gives a code its value. -/
def Decodes (raw : ℕ) : Prop := ∃ a, (fp8e4m3fnToF32 raw).Finite a ∧ e4m3fn raw = some (fp8e4m3fnToF32 raw).value

/-- Decoding and encoding gives the code back. -/
def RoundTrip (raw : ℕ) : Prop := f32ToFp8e4m3fnRne (fp8e4m3fnToF32 raw) = raw

lemma code_iff : ∀ raw < 256, (raw &&& 127 = 0 ↔ exponent raw = 0 ∧ mantissa raw = 0) ∧
    (raw &&& 127 = 127 ↔ exponent raw = 15 ∧ mantissa raw = 7) := by
  decide +kernel

lemma fp8e4m3fnToF32_eq (hraw : raw < 256) (hfinite : raw &&& 127 ≠ 127) : fp8e4m3fnToF32 raw =
    ⟨(raw >>> 7) &&& 1 != 0, .fin (decodedMagnitude (exponent raw) (mantissa raw))⟩ := by
  obtain ⟨he, hm, -, hs⟩ := byte_fields raw hraw
  have hnan := fun h => hfinite ((code_iff raw hraw).2.mpr h)
  show (if exponent raw = 15 ∧ mantissa raw = 7 then _ else if exponent raw = 0 then
    if mantissa raw = 0 then _ else _ else _) = _
  rw [if_neg hnan]
  unfold decodedMagnitude
  by_cases he0 : exponent raw = 0
  · rw [if_pos he0, if_pos he0]
    by_cases hm0 : mantissa raw = 0
    · rw [if_pos hm0, hm0]
      norm_num
    · have hmagnitude : ((raw &&& 7 : ℕ) : ℚ) * (1 / 64) = mantissa raw / 64 := mul_one_div _ _
      rw [if_neg hm0, ← hmagnitude]
  · have hword : ((exponent raw + 119) <<< 23) ||| (mantissa raw <<< 20) < 2 ^ 31 := by
      have h₁ : mantissa raw <<< 20 < 2 ^ 31 := by
        omega
      have h₂ : (exponent raw + 119) <<< 23 < 2 ^ 31 := by
        omega
      exact Nat.or_lt_two_pow h₂ h₁
    rw [if_neg he0, if_neg he0]
    show ofBits ((((raw >>> 7) &&& 1) <<< 31) ||| ((exponent raw + 119) <<< 23) ||| (mantissa raw <<< 20)) = _
    rw [Nat.or_assoc, ofBits_signed hs hword, magnitudeOf_assembled (by omega) (by omega) hm]
    congr 4
    push_cast
    ring

lemma e4m3fn_eq (hraw : raw < 256) (hfinite : raw &&& 127 ≠ 127) : e4m3fn raw =
    some (withSign ((raw >>> 7) &&& 1 != 0) (codeMagnitude (exponent raw) (mantissa raw))) := by
  obtain ⟨he, hm, hcode, hs⟩ := byte_fields raw hraw
  have hnan := fun h => hfinite ((code_iff raw hraw).2.mpr h)
  conv_lhs => rw [hcode, e4m3fn_code hs he hm hnan]

lemma decodedMagnitude_eq_iff {e m : ℕ} : decodedMagnitude e m = codeMagnitude e m ↔ e = 0 ∧ m = 0 := by
  unfold decodedMagnitude
  constructor
  · intro h
    by_cases he : e = 0
    · subst he
      rw [if_pos rfl, codeMagnitude_subnormal] at h
      have hm : (m : ℚ) = 0 := by linarith
      exact ⟨rfl, by exact_mod_cast hm⟩
    · rw [if_neg he, codeMagnitude, if_neg he, show (e : ℤ) - 7 = e - 8 + 1 by ring, zpow_add_one₀ (by norm_num)] at h
      have hpos : (0 : ℚ) < (1 + m / 8) * 2 ^ ((e : ℤ) - 8) := by positivity
      linarith
  · rintro ⟨rfl, rfl⟩
    norm_num [codeMagnitude]

lemma decode_iff (hraw : raw < 256) (hfinite : raw &&& 127 ≠ 127) : Decodes raw ↔ raw &&& 127 = 0 := by
  have hdecoded := fp8e4m3fnToF32_eq hraw hfinite
  have hf : (fp8e4m3fnToF32 raw).Finite (decodedMagnitude (exponent raw) (mantissa raw)) := by
    rw [hdecoded]
    rfl
  rw [(code_iff raw hraw).1, ← decodedMagnitude_eq_iff]
  unfold Decodes
  rw [hf.value_eq, hdecoded, e4m3fn_eq hraw hfinite]
  constructor
  · rintro ⟨-, -, heq⟩
    exact (withSign_inj.mp (Option.some.inj heq)).symm
  · intro heq
    exact ⟨_, rfl, by rw [heq]⟩

/-- **A code comes back** for the zeros only. -/
theorem roundTrip_iff (hraw : raw < 256) (hfinite : raw &&& 127 ≠ 127) : RoundTrip raw ↔ raw &&& 127 = 0 := by
  obtain ⟨he, hm, hcode, hs⟩ := byte_fields raw hraw
  have hdecoded := fp8e4m3fnToF32_eq hraw hfinite
  have hf : (fp8e4m3fnToF32 raw).Finite (decodedMagnitude (exponent raw) (mantissa raw)) := by
    rw [hdecoded]
    rfl
  have hnonneg : 0 ≤ decodedMagnitude (exponent raw) (mantissa raw) := by
    unfold decodedMagnitude
    split <;> positivity
  have hneg : (fp8e4m3fnToF32 raw).negative.toNat = (raw >>> 7) &&& 1 := by
    rw [hdecoded]
    interval_cases _ &&& 1 <;> rfl
  rw [(code_iff raw hraw).1]
  unfold RoundTrip
  constructor
  · intro hback
    rcases lt_or_ge (decodedMagnitude (exponent raw) (mantissa raw)) (2 ^ (-6 : ℤ)) with hlt | hge
    · -- only the codes 0 and 1 come out, and 1 is decoded to a normal
      rw [encode_small hf hnonneg hlt] at hback
      have hfields := code_fields (s := (fp8e4m3fnToF32 raw).negative.toNat) (e := 0)
        (m := if decodedMagnitude (exponent raw) (mantissa raw) ≤ 2 ^ (-7 : ℤ) then 0 else 1)
        (by rw [hneg]; exact hs) (by norm_num) (by split <;> norm_num)
      rw [hback] at hfields
      refine ⟨hfields.exponent, ?_⟩
      unfold decodedMagnitude at hlt
      rw [if_pos hfields.exponent] at hlt
      have hone : (mantissa raw : ℚ) < 1 := by linarith
      have hone : mantissa raw < 1 := by exact_mod_cast hone
      omega
    · have hle : decodedMagnitude (exponent raw) (mantissa raw) ≤ 448 := by
        have hm' : (mantissa raw : ℚ) < 8 := by exact_mod_cast hm
        unfold decodedMagnitude
        split
        · linarith
        · have hup : (2 : ℚ) ^ ((exponent raw : ℤ) - 8) ≤ 2 ^ (7 : ℤ) := zpow_le_zpow_right₀ (by norm_num) (by omega)
          have hpos : (0 : ℚ) < 2 ^ ((exponent raw : ℤ) - 8) := by positivity
          nlinarith
      obtain ⟨_, he', _, hm', -, hencode, hvalue, -⟩ := encode_normal hf hge hle
      have hfields := code_fields (s := (fp8e4m3fnToF32 raw).negative.toNat) (by rw [hneg]; exact hs) he' hm'
      rw [← hencode, hback] at hfields
      rw [← hfields.exponent, ← hfields.mantissa] at hvalue
      generalize hdecodedMagnitude : decodedMagnitude _ _ = a at hge hvalue hnonneg
      have ha : 0 < a := lt_of_lt_of_le (by positivity) hge
      have hpos : (0 : ℚ) < 2 ^ log 2 a := by positivity
      have hbelow := two_zpow_log_le ha
      have hmf : 0 ≤ (a / 2 ^ log 2 a - 1) * 8 := by
        have := (one_le_div hpos).mpr hbelow
        linarith
      -- the code lies within a sixteenth of the decoded number
      have herror := abs_le.mp (roundEven_error hmf)
      have ha' : a = a / 2 ^ log 2 a * 2 ^ log 2 a := (div_mul_cancel₀ a hpos.ne').symm
      have hclose : |a - codeMagnitude (exponent raw) (mantissa raw)| ≤ a / 16 := by
        rw [hvalue, eighths, abs_le]
        generalize a / 2 ^ log 2 a = t at herror ha'
        constructor <;> nlinarith
      unfold decodedMagnitude codeMagnitude at *
      by_cases he0 : exponent raw = 0
      · rw [if_pos he0] at hdecodedMagnitude hclose
        rw [abs_of_nonneg (by linarith)] at hclose
        linarith
      · rw [if_neg he0] at hdecodedMagnitude hclose
        rw [show (exponent raw : ℤ) - 7 = exponent raw - 8 + 1 by ring, zpow_add_one₀ (by norm_num), ← mul_assoc,
          hdecodedMagnitude, abs_of_nonpos (by linarith)] at hclose
        linarith
  · rintro ⟨he0, hm0⟩
    have hzero : decodedMagnitude (exponent raw) (mantissa raw) = 0 := by
      rw [he0, hm0]
      norm_num [decodedMagnitude]
    rw [encode_small hf hnonneg (by rw [hzero]; positivity), hzero, if_pos (by positivity), hneg]
    rw [he0, hm0] at hcode
    exact hcode.symm

end

/-! ## The conversions -/

/-- **The two conversions**: which numbers are encoded to the nearest code, which codes are decoded to their values,
and which codes come back. -/
theorem fp8_conversions_iff (bits raw : ℕ) :
    (bits < 2 ^ 32 → ∀ a, (ofBits bits).Finite a →
      (Rounds (ofBits bits) (f32ToFp8e4m3fnRne (ofBits bits)) ↔
        |(ofBits bits).value| ≤ 2 ^ (-10 : ℤ) ∨ 2 ^ (-6 : ℤ) ≤ |(ofBits bits).value|)) ∧
    (raw < 256 → raw &&& 127 ≠ 127 → (Decodes raw ↔ raw &&& 127 = 0) ∧ (RoundTrip raw ↔ raw &&& 127 = 0)) := by
  refine ⟨fun _ a hf => ?_, fun hraw hfinite => ⟨decode_iff hraw hfinite, roundTrip_iff hraw hfinite⟩⟩
  rw [hf.abs_value]
  exact rounds_iff hf hf.nonneg

lemma two_pow_neg_seven_not_rounded :
    ¬Rounds (ofBits (120 <<< 23)) (f32ToFp8e4m3fnRne (ofBits (120 <<< 23))) := by
  have hsmall : (ofBits (120 <<< 23)).Finite (2 ^ (((120 : ℕ) : ℤ) - 127)) := by
    rw [ofBits_power (by norm_num) (by norm_num)]
    rfl
  intro h
  have h := (rounds_iff hsmall hsmall.nonneg).mp h
  norm_num at h

/-- One is rounded, and the codes of zero are decoded and come back. -/
theorem fp8_conversions_one : Rounds (ofBits (127 <<< 23)) (f32ToFp8e4m3fnRne (ofBits (127 <<< 23))) ∧
    Decodes 0x80 ∧ RoundTrip 0x80 ∧ ¬Decodes 0x38 := by
  have hone : (ofBits (127 <<< 23)).Finite 1 := by
    rw [ofBits_power (by norm_num) (by norm_num)]
    norm_num [Single.Finite]
  have hzero := (fp8_conversions_iff 0 0x80).2 (by decide) (by decide)
  have hcode := (fp8_conversions_iff 0 0x38).2 (by decide) (by decide)
  refine ⟨((fp8_conversions_iff (127 <<< 23) 0).1 (by decide) 1 hone).mpr (.inr ?_), hzero.1.mpr (by decide),
    hzero.2.mpr (by decide), fun h => ?_⟩
  · rw [hone.abs_value]
    norm_num
  · have h := hcode.1.mp h
    revert h
    decide

/-- The number `2^-7` is encoded to zero, the code of one is decoded to a half, and it does not come back. -/
theorem fp8_conversions_wrong : ¬Rounds (ofBits (120 <<< 23)) (f32ToFp8e4m3fnRne (ofBits (120 <<< 23))) ∧
    ¬Decodes 0x38 ∧ ¬RoundTrip 0x38 := by
  refine ⟨two_pow_neg_seven_not_rounded, fun h => ?_, fun h => ?_⟩
  · have h := (decode_iff (by decide) (by decide)).mp h
    revert h
    decide
  · have h := (roundTrip_iff (by decide) (by decide)).mp h
    revert h
    decide

end VKernels.Dsa.KpoolFp8
