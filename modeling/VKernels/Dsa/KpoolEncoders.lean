import VKernels.Dsa.KpoolFp8

/-!
# The two encoders of the kpool cache

`_fp8_e4m3fn_encode` of `_fallback.py` against `f32_to_fp8e4m3fn_rne`.  After the logarithm every operation of the
fallback is exact in single precision, so it is modelled on values; the logarithm's floor is a parameter.

## Results

* `fallback_eq` — whichever side of a power of two the logarithm falls, the byte is the same.
* `encoders_agree_iff` — the two agree exactly on `SameCode`.
-/

namespace VKernels.Dsa.KpoolFp8

open Float8 Nearest Binary32
open Int (log)
open Single (ofBits)

/-- `np.rint`. -/
def rint (x : ℚ) : ℤ :=
  let fl := ⌊x⌋
  let rem := x - fl
  if rem < 1 / 2 then fl
  else if rem > 1 / 2 then fl + 1
  else if fl % 2 = 0 then fl else fl + 1

/-- `np.clip`. -/
def clip (x lo hi : ℤ) : ℕ := (min (max x lo) hi).toNat

/-- `floorLog2` is `np.floor(np.log2(ax))`. -/
def fp8E4m3fnEncode (floorLog2 : ℚ → ℤ) (x : Single) : ℕ :=
  let sign := x.negative.toNat
  match x.magnitude with
  | .fin ax =>
    let eUnbiased := if ax = 0 then -127 else floorLog2 ax
    let frac := ax / 2 ^ eUnbiased - 1
    let mant := rint (frac * 8)
    let storedExp := eUnbiased + 7
    -- carry into the exponent
    let carry := mant ≥ 8
    let mant := if carry then 0 else mant
    let storedExp := if carry then storedExp + 1 else storedExp
    if ax = 0 then sign <<< 7 else (sign <<< 7) ||| (clip storedExp 0 15 <<< 3) ||| clip mant 0 7
  | _ => 0x7F

/-- The floor of a logarithm that is off by less than that of `65/64`. -/
def NearLog (floorLog2 : ℚ → ℤ) : Prop :=
  ∀ a : ℚ, 0 < a → 2 ^ floorLog2 a ≤ a * (65 / 64) ∧ a < 2 ^ (floorLog2 a + 1) * (65 / 64)

/-- Zero, the normals, the subnormals around `2^-7 * 9/8`, and below them what the fallback rounds to a power of two. -/
def SameCode (a : ℚ) : Prop :=
  a = 0 ∨ 2 ^ (-6 : ℤ) ≤ a ∨ (17 / 16 * 2 ^ (-7 : ℤ) < a ∧ a < 19 / 16 * 2 ^ (-7 : ℤ)) ∨
    a ≤ 2 ^ (-7 : ℤ) ∧ (a / 2 ^ log 2 a ≤ 17 / 16 ∨ 31 / 16 ≤ a / 2 ^ log 2 a)

/-! ## Rounding -/

variable {x : ℚ}

lemma rint_eq (hx : 0 ≤ x) : rint x = roundEven x := by
  have hfloor : ((⌊x⌋₊ : ℤ)) = ⌊x⌋ := Int.natCast_floor_eq_floor hx
  have hcast : (⌊x⌋₊ : ℚ) = ⌊x⌋ := by exact_mod_cast congrArg (Int.cast (R := ℚ)) hfloor
  unfold rint roundEven
  dsimp only
  rw [← hcast, ← hfloor]
  split_ifs <;> omega

lemma rint_small (hlow : -1 / 2 < x) (hneg : x < 0) : rint x = 0 := by
  have hfloor : ⌊x⌋ = -1 := Int.floor_eq_iff.mpr ⟨by push_cast; linarith, by push_cast; linarith⟩
  unfold rint
  rw [hfloor, if_neg (by push_cast; linarith), if_pos (by push_cast; linarith)]
  rfl

lemma roundEven_eq_iff (hx : 0 ≤ x) (k : ℕ) : roundEven x = k ↔ |x - k| < 1 / 2 ∨ |x - k| = 1 / 2 ∧ k % 2 = 0 := by
  have herror := roundEven_error hx
  constructor
  · rintro rfl
    rcases herror.lt_or_eq with hlt | heq
    · exact .inl hlt
    · refine .inr ⟨heq, ?_⟩
      -- the integer on the other side is as near
      rcases abs_cases (x - roundEven x) with ⟨habs, -⟩ | ⟨habs, -⟩
      · have htie : |x - ((roundEven x + 1 : ℕ) : ℤ)| = |x - roundEven x| := by
          rw [heq, abs_of_nonpos (by push_cast; linarith)]
          push_cast
          linarith
        exact roundEven_tie hx (by omega) htie
      · have htie : |x - ((roundEven x - 1 : ℤ))| = |x - roundEven x| := by
          rw [heq, abs_of_nonneg (by push_cast; linarith)]
          push_cast
          linarith
        exact roundEven_tie hx (by omega) htie
  · intro h
    by_contra hne
    have hfar : 1 / 2 ≤ |x - k| := by
      have := half_le_of_ne (n := (roundEven x : ℤ)) (m := (k : ℤ)) (by omega) (by exact_mod_cast herror)
      exact_mod_cast this
    obtain ⟨heq, heven⟩ := h.resolve_left (not_lt.mpr hfar)
    have htie : |x - roundEven x| = 1 / 2 := by
      refine le_antisymm herror ?_
      have := half_le_of_ne (n := (k : ℤ)) (m := (roundEven x : ℤ)) (by omega) (by exact_mod_cast heq.le)
      exact_mod_cast this
    have htwo := roundEven_tie hx (n := (k : ℤ)) (by omega) (by rw [htie]; exact_mod_cast heq)
    -- two even integers are not a half away from one number on both sides
    have hdist : |(roundEven x : ℚ) - k| ≤ 1 := by
      have := abs_sub_le (roundEven x : ℚ) x k
      rw [abs_sub_comm (roundEven x : ℚ) x] at this
      linarith
    have hdist : |(roundEven x : ℤ) - k| ≤ 1 := by exact_mod_cast hdist
    rw [abs_le] at hdist
    omega

/-! ## The encoders -/

section

variable {floorLog2 : ℚ → ℤ} {f : Single} {a : ℚ}

lemma fallback_eq (hlog : NearLog floorLog2) (hf : f.Finite a) (ha : 0 < a) : fp8E4m3fnEncode floorLog2 f =
    if roundEven (eighths a) ≥ 8 then code f.negative.toNat (clip (log 2 a + 8) 0 15) 0
    else code f.negative.toNat (clip (log 2 a + 7) 0 15) (roundEven (eighths a)) := by
  obtain ⟨hlow, hhigh⟩ := hlog a ha
  have hbelow := two_zpow_log_le ha
  have habove := lt_two_zpow_log a
  obtain ⟨hzero, height⟩ := eighths_range ha
  have hle := roundEven_eighths_le ha
  unfold fp8E4m3fnEncode
  rw [hf]
  dsimp only
  rw [if_neg ha.ne', if_neg ha.ne']
  generalize floorLog2 a = e at hlow hhigh ⊢
  have hsplit : a = (eighths a / 8 + 1) * 2 ^ log 2 a := by
    rw [eighths]
    field_simp
    ring
  have hlt : e < log 2 a + 2 := by
    by_contra h
    have hup : (2 : ℚ) ^ (log 2 a + 1 + 1) ≤ 2 ^ e := zpow_le_zpow_right₀ (by norm_num) (by omega)
    rw [zpow_add_one₀ (by norm_num)] at hup
    linarith
  have hgt : log 2 a - 2 < e := by
    by_contra h
    have hup : (2 : ℚ) ^ (e + 1) ≤ 2 ^ (log 2 a - 1) := zpow_le_zpow_right₀ (by norm_num) (by omega)
    rw [zpow_sub_one₀ (by norm_num)] at hup
    linarith
  obtain rfl | rfl | rfl : e = log 2 a ∨ e = log 2 a + 1 ∨ e = log 2 a - 1 := by omega
  · rw [show (a / 2 ^ log 2 a - 1) * 8 = eighths a from rfl, rint_eq hzero]
    generalize roundEven _ = r at hle ⊢
    by_cases hcarry : r ≥ 8
    · rw [if_pos (by omega), if_pos (by omega), if_pos hcarry, show log 2 a + 7 + 1 = log 2 a + 8 by ring]
      rfl
    · rw [if_neg (by omega), if_neg (by omega), if_neg hcarry]
      have hclip : clip r 0 7 = r := by
        unfold clip
        omega
      rw [hclip]
      rfl
  · -- one too large: the fraction is a little below zero
    rw [zpow_add_one₀ (by norm_num)] at hlow
    have hnear : 15 / 2 < eighths a := by
      by_contra h
      nlinarith
    have hround : roundEven (eighths a) = 8 :=
      (roundEven_eq_iff hzero 8).mpr (.inl (by rw [abs_lt]; constructor <;> push_cast <;> linarith))
    have hfrac : (a / 2 ^ (log 2 a + 1) - 1) * 8 = (eighths a - 8) / 2 := by
      rw [zpow_add_one₀ (by norm_num), eighths]
      field_simp
      ring
    rw [hfrac, rint_small (by linarith) (by linarith), hround, if_neg (by omega), if_neg (by omega), if_pos (by omega),
      show log 2 a + 1 + 7 = log 2 a + 8 by ring]
    rfl
  · -- one too small: the fraction is a little above one
    rw [sub_add_cancel] at hhigh
    have hnear : eighths a < 1 / 8 := by
      by_contra h
      nlinarith
    have hround : roundEven (eighths a) = 0 :=
      (roundEven_eq_iff hzero 0).mpr (.inl (by rw [abs_lt]; constructor <;> push_cast <;> linarith))
    have hfrac : (a / 2 ^ (log 2 a - 1) - 1) * 8 = eighths a * 2 + 8 := by
      rw [zpow_sub_one₀ (by norm_num), eighths]
      field_simp
      ring
    have hcarry : rint (eighths a * 2 + 8) = 8 := by
      rw [rint_eq (by linarith), (roundEven_eq_iff (by linarith) 8).mpr]
      · rfl
      · exact .inl (by rw [abs_lt]; constructor <;> push_cast <;> linarith)
    rw [hfrac, hcarry, hround, if_pos le_rfl, if_pos le_rfl, if_neg (by omega)]
    rw [show log 2 a - 1 + 7 + 1 = log 2 a + 7 by ring]
    rfl

lemma code_inj {s e e' m m' : ℕ} (hs : s < 2) (he : e < 16) (he' : e' < 16) (hm : m < 8) (hm' : m' < 8) :
    code s e m = code s e' m' ↔ e = e' ∧ m = m' := by
  constructor
  · intro h
    have hfields := code_fields hs he hm
    have hfields' := code_fields hs he' hm'
    rw [h] at hfields
    exact ⟨hfields.exponent.symm.trans hfields'.exponent, hfields.mantissa.symm.trans hfields'.mantissa⟩
  · rintro ⟨rfl, rfl⟩
    rfl

lemma agree_small (hlog : NearLog floorLog2) (hf : f.Finite a) (ha : 0 < a) (hlt : a < 2 ^ (-6 : ℤ)) :
    fp8E4m3fnEncode floorLog2 f = f32ToFp8e4m3fnRne f ↔ SameCode a := by
  have hs : f.negative.toNat < 2 := by cases f.negative <;> decide
  have hE : log 2 a < -6 := lt_of_not_ge fun h => absurd ((le_log_iff ha).mp h) (not_le.mpr hlt)
  obtain ⟨hzero, height⟩ := eighths_range ha
  have hle := roundEven_eighths_le ha
  have hpos : (0 : ℚ) < 2 ^ log 2 a := by positivity
  have hratio : a / 2 ^ log 2 a = eighths a / 8 + 1 := by
    rw [eighths]
    ring
  have hsplit : a = (eighths a / 8 + 1) * 2 ^ log 2 a := by rw [← hratio, div_mul_cancel₀ a hpos.ne']
  have hbelow := le_log_iff ha (e := -7)
  rw [fallback_eq hlog hf ha, encode_small hf ha.le hlt, SameCode, hratio]
  have hround0 := roundEven_eq_iff hzero 0
  have hround1 := roundEven_eq_iff hzero 1
  have hround8 := roundEven_eq_iff hzero 8
  generalize roundEven _ = r at hle hround0 hround1 hround8 ⊢
  generalize eighths a = x at hzero height hsplit hround0 hround1 hround8 ⊢
  have hr0 : r = 0 ↔ x ≤ 1 / 2 := by
    rw [hround0, Nat.cast_zero, sub_zero, abs_of_nonneg hzero, le_iff_lt_or_eq]
    simp
  have hr1 : r = 1 ↔ 1 / 2 < x ∧ x < 3 / 2 := by
    rw [hround1, Nat.cast_one, abs_lt]
    constructor
    · rintro (h | ⟨-, h⟩)
      · constructor <;> linarith
      · omega
    · exact fun h => .inl (by constructor <;> linarith)
  have hr8 : r = 8 ↔ 15 / 2 ≤ x := by
    rw [hround8, abs_of_neg (by push_cast; linarith)]
    push_cast
    constructor
    · rintro (h | ⟨h, -⟩) <;> linarith
    · intro h
      rcases h.lt_or_eq with h | h
      · exact .inl (by linarith)
      · exact .inr ⟨by linarith, trivial⟩
  by_cases hseven : log 2 a = -7
  · have hge : 2 ^ (-7 : ℤ) ≤ a := hbelow.mp hseven.ge
    rw [hseven] at hsplit ⊢
    norm_num at hsplit hge ⊢
    have hclip : clip 1 0 15 = 1 ∧ clip 0 0 15 = 0 := by decide
    rw [hclip.1, hclip.2]
    by_cases hone : a ≤ 1 / 128
    · have hr : r = 0 := hr0.mpr (by linarith)
      rw [if_pos hone, hr, if_neg (by omega)]
      exact iff_of_true rfl (.inr (.inr (.inr ⟨hone, .inl (by linarith)⟩)))
    · rw [if_neg hone]
      by_cases hcarry : 8 ≤ r
      · have hx := hr8.mp (by omega)
        rw [if_pos hcarry, code_inj hs (by omega) (by omega) (by omega) (by omega)]
        refine iff_of_false (by omega) ?_
        rintro (h | h | ⟨-, h⟩ | ⟨h, -⟩) <;> linarith
      · rw [if_neg hcarry, code_inj hs (by omega) (by omega) (by omega) (by omega), and_iff_right rfl, hr1]
        constructor
        · exact fun h => .inr (.inr (.inl ⟨by linarith, by linarith⟩))
        · rintro (h | h | ⟨h, h'⟩ | ⟨h, -⟩)
          · linarith
          · linarith
          · constructor <;> linarith
          · linarith
  · have htiny : a < 2 ^ (-7 : ℤ) := lt_of_not_ge fun h => by
      have := hbelow.mpr h
      omega
    have hclip : clip (log 2 a + 8) 0 15 = 0 ∧ clip (log 2 a + 7) 0 15 = 0 := by
      unfold clip
      omega
    rw [if_pos htiny.le, hclip.1, hclip.2]
    norm_num at htiny ⊢
    constructor
    · intro h
      refine .inr (.inr (.inr ⟨htiny.le, ?_⟩))
      by_cases hcarry : r < 8
      · have hr := ((code_inj hs (by omega) (by omega) hcarry (by omega)).mp (h hcarry)).2
        exact .inl (by linarith [hr0.mp hr])
      · exact .inr (by linarith [hr8.mp (by omega)])
    · intro h hcarry
      rcases h with h | h | ⟨h, -⟩ | ⟨-, h | h⟩
      · linarith
      · linarith
      · linarith
      · rw [hr0.mpr (by linarith)]
      · have := hr8.mpr (by linarith)
        omega

lemma agree_iff (hlog : NearLog floorLog2) (hf : f.Finite a) (ha : 0 ≤ a) (hhi : a ≤ 448) :
    fp8E4m3fnEncode floorLog2 f = f32ToFp8e4m3fnRne f ↔ SameCode a := by
  rcases ha.eq_or_lt with rfl | hpos
  · refine iff_of_true ?_ (.inl rfl)
    unfold fp8E4m3fnEncode f32ToFp8e4m3fnRne
    rw [hf]
    simp
  rcases lt_or_ge a (2 ^ (-6 : ℤ)) with hlt | hge
  · exact agree_small hlog hf hpos hlt
  · refine iff_of_true ?_ (.inr (.inl hge))
    obtain ⟨hE, hE8, hlast⟩ := normal_range hge hhi
    rw [fallback_eq hlog hf hpos, encode_normal_eq hf hge hhi]
    have hclip : clip (log 2 a + 7) 0 15 = (log 2 a + 7).toNat := by
      unfold clip
      omega
    split
    · have hnext : clip (log 2 a + 8) 0 15 = (log 2 a + 7).toNat + 1 := by
        unfold clip
        omega
      rw [hnext]
    · rw [hclip]

end

lemma nearLog_log : NearLog (log 2) := by
  intro a ha
  have hbelow := two_zpow_log_le ha
  have habove := lt_two_zpow_log a
  constructor <;> linarith

/-- **When the two encoders agree**, for every finite single up to 448 in absolute value. -/
theorem encoders_agree_iff (floorLog2 : ℚ → ℤ) (hlog : NearLog floorLog2) (bits : ℕ) (a : ℚ)
    (hf : (ofBits bits).Finite a) (ha : a ≤ 448) :
    fp8E4m3fnEncode floorLog2 (ofBits bits) = f32ToFp8e4m3fnRne (ofBits bits) ↔ SameCode a :=
  agree_iff hlog hf hf.nonneg ha

theorem encoders_agree_one : fp8E4m3fnEncode (log 2) (ofBits (127 <<< 23)) =
    f32ToFp8e4m3fnRne (ofBits (127 <<< 23)) := by
  have hone : (ofBits (127 <<< 23)).Finite 1 := by
    rw [ofBits_power (by norm_num) (by norm_num)]
    norm_num [Single.Finite]
  exact (encoders_agree_iff (log 2) nearLog_log (127 <<< 23) 1 hone (by norm_num)).mpr (.inr (.inl (by norm_num)))

/-- The number `3/2 * 2^-7`: C++ gives 1, the fallback 4. -/
theorem encoders_differ : fp8E4m3fnEncode (log 2) (ofBits ((120 <<< 23) ||| (4 <<< 20))) ≠
    f32ToFp8e4m3fnRne (ofBits ((120 <<< 23) ||| (4 <<< 20))) := by
  have hvalue : (1 + ((4 : ℕ) : ℚ) / 8) * 2 ^ (((120 : ℕ) : ℤ) - 127) = 3 / 256 := by norm_num
  have hword : (ofBits ((120 <<< 23) ||| (4 <<< 20))).Finite (3 / 256) := by
    rw [← hvalue]
    exact magnitudeOf_assembled (e := 120) (m := 4) (by norm_num) (by norm_num) (by norm_num)
  rw [Ne, agree_iff nearLog_log hword (by norm_num) (by norm_num), SameCode]
  norm_num

end VKernels.Dsa.KpoolFp8
