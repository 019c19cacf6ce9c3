import VKernels.Lib.Binary32

/-!
# The MXFP4 groups of the MoE kernels

The E2M1 and ue8m0 conversions of `kernels/moe_aux.cpp`, and the groups of `quant_row`, over exact values.

* `fp4NibbleToFloat`, `floatToFp4Nib` — a nibble to its value and back.
* `ue8m0ToFloat`, `groupAmax`, `groupScale` — the scale of a group.

## Results

* `groupAmax_fin` — the largest magnitude of a group of finite elements.
* `groupScale_spec` — the scale is a power of two that brings a group down to `mxFp4Max`, unless the clamp binds.
* `magnitudeCode_spec` — the chain of thresholds finds a nearest magnitude, the larger one of two as near.
* `quant_group_error` — every element of a bf16 group is quantised; of a group of rationals, exactly if none exceeds
  `3 * 2^127`.
-/

namespace VKernels.Moe.MxFp4

open Nearest Binary32

/-- `kMxFp4Max`. -/
def mxFp4Max : ℚ := 3

/-- An E2M1 nibble as a number. -/
def fp4NibbleToFloat (nibble : ℕ) : Single :=
  let s := (nibble >>> 3) &&& 1
  let e := (nibble >>> 1) &&& 3
  let m := nibble &&& 1
  if e = 0 then
    if m = 0 then ⟨s != 0, .fin 0⟩ else ⟨s != 0, .fin (1 / 4)⟩
  else if e = 3 then
    if m = 0 then ⟨s != 0, .posInf⟩ else ⟨false, .nan⟩
  else ⟨s != 0, .fin ((1 + m * (1 / 2)) * (1 <<< (e - 1) : ℕ))⟩

/-- The chain of thresholds of `float_to_fp4_nib`. -/
def magnitudeCode (v : Fp ℚ) : ℕ :=
  if Fp.gt (.fin (1 / 8)) v then 0
  else if Fp.gt (.fin (5 / 8)) v then 1
  else if Fp.gt (.fin (5 / 4)) v then 2
  else if Fp.gt (.fin (7 / 4)) v then 3
  else if Fp.gt (.fin (5 / 2)) v then 4
  else 5

def floatToFp4Nib (x : Single) : ℕ :=
  let mag := magnitudeCode x.magnitude
  if x.negative && Fp.gt x.magnitude (.fin 0) then mag ||| 8 else mag

def ue8m0ToFloat (s : ℕ) : Single := if s = 0xFF then ⟨false, .fin 0⟩ else Single.ofBits (s <<< 23)

/-- `x / y` without rounding. -/
def quotient (x y : Single) : Single :=
  ⟨x.negative != y.negative,
    match x.magnitude, y.magnitude with
    | .fin a, .fin b => if b = 0 then (if a = 0 then .nan else .posInf) else .fin (a / b)
    | .posInf, .fin _ => .posInf
    | .fin _, .posInf => .fin 0
    | _, _ => .nan⟩

/-! ## Groups -/

/-- `amax` of a group of `n` elements. -/
def groupAmax (x : ℕ → Single) (n : ℕ) : Fp ℚ :=
  (List.range n).foldl (fun amax i => if Fp.gt (x i).magnitude amax then (x i).magnitude else amax) (.fin 0)

/-- `sb` and `scale`. -/
def groupScale (amax : Fp ℚ) : ℕ × Single :=
  match amax with
  | .fin a =>
    if 0 < a then
      let e := Int.clog 2 (a / mxFp4Max)
      let s := e + 127
      let s := if s < 1 then 1 else s
      let s := if s > 254 then 254 else s
      (s.toNat, ue8m0ToFloat s.toNat)
    else (0xFF, ⟨false, .fin 0⟩)
  | _ => (0xFF, ⟨false, .fin 0⟩)

/-- The nibble of an element: zero throughout a group without a scale. -/
def groupNibble (scale : ℕ × Single) (x : Single) : ℕ :=
  if scale.1 = 0xFF then 0 else floatToFp4Nib (quotient x scale.2)

/-! ## What is promised -/

def fp4Values : Set ℚ := {v | ∃ nib < 16, ∃ a, (fp4NibbleToFloat nib).Finite a ∧ v = (fp4NibbleToFloat nib).value}

/-- Two values without one between them. -/
structure Adjacent (lo hi : ℚ) : Prop where
  lo_mem : lo ∈ fp4Values
  hi_mem : hi ∈ fp4Values
  lt : lo < hi
  none_between : ∀ w ∈ fp4Values, w ≤ lo ∨ hi ≤ w

/-- `nib` is the code of `x` at this scale: the scaled magnitude is in range, the value is a nearest one, the larger
magnitude of two as near, and what comes back is off by at most half the spacing around it, scaled. -/
structure Quantised (scale x : ℚ) (nib : ℕ) : Prop where
  bounded : |x / scale| ≤ mxFp4Max
  nearest : IsNearest fp4Values (x / scale) (fp4NibbleToFloat nib).value
  tie : ∀ w ∈ fp4Values, |x / scale - w| = |x / scale - (fp4NibbleToFloat nib).value| →
    |w| ≤ |(fp4NibbleToFloat nib).value|
  error : ∃ lo hi, Adjacent lo hi ∧ lo ≤ |x / scale| ∧ |x / scale| ≤ hi ∧
    |x - (fp4NibbleToFloat nib).value * scale| ≤ (hi - lo) / 2 * scale

/-! ## Nibbles -/

def fp4Magnitude (m : ℕ) : ℚ := [0, 1 / 4, 1, 3 / 2, 2, 3].getD m 0

lemma fp4Magnitude_nonneg (m : ℕ) : 0 ≤ fp4Magnitude m := by
  unfold fp4Magnitude
  rcases lt_or_ge m 6 with h | h
  · interval_cases m <;> norm_num
  · rw [List.getD_eq_default _ _ h]

/-- A magnitude's code with a sign. -/
def signedCode (negative : Bool) (m : ℕ) : ℕ := if negative then m ||| 8 else m

lemma signedCode_fields (negative : Bool) : ∀ m < 6, signedCode negative m < 16 ∧
    (signedCode negative m >>> 3) &&& 1 = negative.toNat ∧ (signedCode negative m >>> 1) &&& 3 = m / 2 ∧
    signedCode negative m &&& 1 = m % 2 := by
  cases negative <;> decide

lemma fp4Nibble_eq (negative : Bool) {m : ℕ} (hm : m < 6) :
    fp4NibbleToFloat (signedCode negative m) = ⟨negative, .fin (fp4Magnitude m)⟩ := by
  obtain ⟨-, hs, he, hparity⟩ := signedCode_fields negative m hm
  have hsign : (negative.toNat != 0) = negative := by cases negative <;> rfl
  unfold fp4NibbleToFloat
  simp only [hs, he, hparity, hsign]
  interval_cases m <;> norm_num [fp4Magnitude, Nat.shiftLeft_eq]

lemma fp4Values_of_magnitude {m : ℕ} (hm : m < 6) (negative : Bool) :
    withSign negative (fp4Magnitude m) ∈ fp4Values := by
  have heq := fp4Nibble_eq negative hm
  exact ⟨_, (signedCode_fields negative m hm).1, _, congrArg Single.magnitude heq, by rw [heq]; rfl⟩

lemma abs_fp4Value {w : ℚ} (hw : w ∈ fp4Values) : ∃ m < 6, |w| = fp4Magnitude m := by
  obtain ⟨nib, hnib, a, hfinite, rfl⟩ := hw
  have hcodes : ∀ nib < 16, (∃ negative, ∃ m < 6, nib = signedCode negative m) ∨ (nib >>> 1) &&& 3 = 3 := by
    decide
  obtain ⟨negative, m, hm, rfl⟩ | hexponent := hcodes nib hnib
  · refine ⟨m, hm, ?_⟩
    rw [fp4Nibble_eq negative hm]
    exact abs_withSign.trans (abs_of_nonneg (fp4Magnitude_nonneg m))
  · unfold Single.Finite fp4NibbleToFloat at hfinite
    rw [hexponent, if_neg (by norm_num), if_pos rfl] at hfinite
    split at hfinite <;> cases hfinite

lemma adjacent_magnitude {j : ℕ} (hj : j < 5) : Adjacent (fp4Magnitude j) (fp4Magnitude (j + 1)) where
  lo_mem := fp4Values_of_magnitude (by omega) false
  hi_mem := fp4Values_of_magnitude (by omega) false
  lt := by
    interval_cases j <;> norm_num [fp4Magnitude]
  none_between w hw := by
    obtain ⟨m, hm, habs⟩ := abs_fp4Value hw
    rcases le_total w 0 with hneg | hpos
    · exact .inl (hneg.trans (fp4Magnitude_nonneg j))
    · rw [abs_of_nonneg hpos] at habs
      rw [habs]
      interval_cases j <;> interval_cases m <;> norm_num [fp4Magnitude]

lemma gt_fin (a b : ℚ) : Fp.gt (.fin a) (.fin b) = decide (b < a) := by
  simp [Fp.gt, Fp.isNaN]

lemma fp4Magnitude_mono (i j : ℕ) (hij : i < j) (hj : j < 6) : fp4Magnitude i < fp4Magnitude j := by
  interval_cases j <;> interval_cases i <;> norm_num [fp4Magnitude]

/-- **The thresholds** are the midpoints of the magnitudes. -/
theorem magnitudeCode_between (v : ℚ) : Between fp4Magnitude 6 (magnitudeCode (.fin v)) v := by
  have hchain : magnitudeCode (.fin v) = if v < 1 / 8 then 0 else if v < 5 / 8 then 1 else if v < 5 / 4 then 2
      else if v < 7 / 4 then 3 else if v < 5 / 2 then 4 else 5 := by
    simp [magnitudeCode, gt_fin, decide_eq_true_eq]
  rw [hchain]
  split_ifs
  all_goals refine ⟨fp4Magnitude_mono, by norm_num, fun hk => ?_, fun hk => ?_⟩
  all_goals first
    | omega
    | norm_num [fp4Magnitude]
      linarith

/-! ## The scale -/

lemma groupAmax_fin {x : ℕ → Single} {a : ℕ → ℚ} {n : ℕ} (hx : ∀ i < n, (x i).Finite (a i)) :
    ∃ amax, groupAmax x n = .fin amax ∧ 0 ≤ amax ∧ (∀ i < n, a i ≤ amax) ∧ (amax = 0 ∨ ∃ i < n, a i = amax) := by
  induction n with
  | zero => exact ⟨0, rfl, le_rfl, fun i hi => absurd hi (Nat.not_lt_zero i), .inl rfl⟩
  | succ n ih =>
    obtain ⟨amax, hfold, hnonneg, hle, hmem⟩ := ih fun i hi => hx i (by omega)
    have hstep : groupAmax x (n + 1) =
        if Fp.gt (x n).magnitude (groupAmax x n) then (x n).magnitude else groupAmax x n := by
      unfold groupAmax
      rw [List.range_succ, List.foldl_concat]
    have hn : (x n).magnitude = .fin (a n) := hx n (Nat.lt_succ_self n)
    simp only [hfold, hn, gt_fin, decide_eq_true_eq] at hstep
    by_cases hlt : amax < a n
    · refine ⟨a n, by rw [hstep, if_pos hlt], by linarith, fun i hi => ?_, .inr ⟨n, by omega, rfl⟩⟩
      rcases Nat.lt_succ_iff_lt_or_eq.mp hi with hi | rfl
      · exact (hle i hi).trans hlt.le
      · exact le_rfl
    · refine ⟨amax, by rw [hstep, if_neg hlt], hnonneg, fun i hi => ?_, ?_⟩
      · rcases Nat.lt_succ_iff_lt_or_eq.mp hi with hi | rfl
        · exact hle i hi
        · exact not_lt.mp hlt
      · rcases hmem with h0 | ⟨i, hi, heq⟩
        · exact .inl h0
        · exact .inr ⟨i, by omega, heq⟩

lemma groupScale_zero : groupScale (.fin 0) = (0xFF, ⟨false, .fin 0⟩) := by
  unfold groupScale
  exact if_neg (lt_irrefl 0)

lemma clamp_bounds (s : ℤ) : 1 ≤ (if (if s < 1 then 1 else s) > 254 then 254 else if s < 1 then 1 else s) ∧
    (if (if s < 1 then 1 else s) > 254 then 254 else if s < 1 then 1 else s) ≤ 254 ∧
    (s ≤ 254 → s ≤ if (if s < 1 then 1 else s) > 254 then 254 else if s < 1 then 1 else s) := by
  split_ifs <;> omega

/-- **The scale** is a power of two. It brings the group down to `mxFp4Max` unless the upper clamp binds, and then it
is `2^127`. -/
theorem groupScale_spec {amax : ℚ} (hpos : 0 < amax) : ∃ scale : ℚ, ∃ sb < 255,
    groupScale (.fin amax) = (sb, ⟨false, .fin scale⟩) ∧ 0 < scale ∧ scale ≤ 2 ^ (127 : ℤ) ∧
      (amax ≤ mxFp4Max * 2 ^ (127 : ℤ) → amax ≤ mxFp4Max * scale) := by
  have hquotient : 0 < amax / mxFp4Max := by
    unfold mxFp4Max
    positivity
  generalize he : Int.clog 2 (amax / mxFp4Max) = e
  have habove : amax / mxFp4Max ≤ 2 ^ e := by
    rw [← he]
    exact_mod_cast Int.self_le_zpow_clog (b := 2) (by norm_num) (amax / mxFp4Max)
  have hunclamped (hle : amax ≤ mxFp4Max * 2 ^ (127 : ℤ)) : e + 127 ≤ 254 := by
    have hle' : amax / mxFp4Max ≤ ((2 : ℕ) : ℚ) ^ (127 : ℤ) := by
      rw [div_le_iff₀ (by norm_num [mxFp4Max])]
      push_cast
      linarith
    have := (Int.le_zpow_iff_clog_le (by norm_num) hquotient).mp hle'
    omega
  obtain ⟨hlo, hhi, hkeep⟩ := clamp_bounds _
  unfold groupScale
  dsimp only
  rw [if_pos hpos, he]
  generalize (if (if e + 127 < 1 then 1 else e + 127) > 254 then 254 else if e + 127 < 1 then 1 else e + 127) = s
    at hlo hhi hkeep ⊢
  have hs : (s.toNat : ℤ) = s := Int.toNat_of_nonneg (by omega)
  have hvalue : ue8m0ToFloat s.toNat = ⟨false, .fin (2 ^ (s - 127))⟩ := by
    unfold ue8m0ToFloat
    rw [if_neg (by omega), ofBits_power (by omega) (by omega), hs]
  refine ⟨2 ^ (s - 127), s.toNat, by omega, by rw [hvalue], by positivity,
    zpow_le_zpow_right₀ (by norm_num) (by omega), fun hle => ?_⟩
  have hexponent : (2 : ℚ) ^ e ≤ 2 ^ (s - 127) :=
    zpow_le_zpow_right₀ (by norm_num) (by have := hkeep (hunclamped hle); omega)
  rw [div_le_iff₀ (by norm_num [mxFp4Max])] at habove
  have := mul_le_mul_of_nonneg_left hexponent (show (0 : ℚ) ≤ mxFp4Max by norm_num [mxFp4Max])
  linarith

/-! ## The error -/

lemma quantised_of {x : Single} {a scale : ℚ} {sb : ℕ} (hx : x.Finite a) (ha : 0 ≤ a) (hsb : sb < 255)
    (hscale : 0 < scale) (hle : a ≤ mxFp4Max * scale) :
    Quantised scale x.value (groupNibble (sb, ⟨false, .fin scale⟩) x) := by
  have hv0 : 0 ≤ a / scale := by positivity
  have hv3 : a / scale ≤ mxFp4Max := (div_le_iff₀ hscale).mpr hle
  have hbetween := magnitudeCode_between (a / scale)
  have hquotient : quotient x ⟨false, .fin scale⟩ = ⟨x.negative, .fin (a / scale)⟩ := by
    unfold quotient
    rw [show x.magnitude = .fin a from hx, Bool.bne_false]
    simp [if_neg hscale.ne']
  have hnib : groupNibble (sb, ⟨false, .fin scale⟩) x =
      signedCode (x.negative && decide (0 < a / scale)) (magnitudeCode (.fin (a / scale))) := by
    unfold groupNibble
    rw [if_neg (by omega), hquotient]
    unfold floatToFp4Nib signedCode
    rw [gt_fin]
  generalize magnitudeCode _ = k at hbetween hnib
  have hvalue : (fp4NibbleToFloat (groupNibble (sb, ⟨false, .fin scale⟩) x)).value =
      withSign x.negative (fp4Magnitude k) := by
    rw [hnib, fp4Nibble_eq _ hbetween.lt]
    show withSign _ _ = _
    rcases hv0.eq_or_lt with h0 | hpos
    · -- zero has no sign to keep
      have hzero : fp4Magnitude k = 0 := by
        have hnear := hbetween.nearest (m := 0) (by norm_num)
        rw [← h0] at hnear
        norm_num [fp4Magnitude] at hnear
        exact hnear
      rw [hzero, withSign_zero, withSign_zero]
    · rw [decide_eq_true hpos, Bool.and_true]
  have hx' : x.value / scale = withSign x.negative (a / scale) := by
    rw [hx.value_eq]
    unfold withSign
    split
    · exact neg_div _ _
    · rfl
  have hmem : withSign x.negative (fp4Magnitude k) ∈ fp4Values := fp4Values_of_magnitude hbetween.lt _
  have hcloser : ∀ w ∈ fp4Values, |a / scale - fp4Magnitude k| ≤ |a / scale - abs w| := by
    intro w hw
    obtain ⟨m, hm, habs⟩ := abs_fp4Value hw
    rw [habs]
    exact hbetween.nearest hm
  refine ⟨?_, ?_, fun w hw htie => ?_, ?_⟩
  · rwa [hx', abs_withSign, abs_of_nonneg hv0]
  · rw [hx', hvalue]
    exact isNearest_signed hv0 hmem hcloser
  · rw [hx', hvalue, abs_withSign_sub] at htie
    have hsigned : |a / scale - abs w| ≤ |withSign x.negative (a / scale) - w| := abs_sub_le_withSign hv0 w
    have hmagnitude := hsigned.trans htie.le
    have heq := le_antisymm hmagnitude (hcloser w hw)
    obtain ⟨m, hm, habs⟩ := abs_fp4Value hw
    rw [habs] at heq ⊢
    rw [hvalue, abs_withSign, abs_of_nonneg (fp4Magnitude_nonneg k)]
    exact hbetween.tie hm heq
  · obtain ⟨j, hj, hlo, hhi, herror⟩ := hbetween.error (by norm_num) hv0 hv3
    refine ⟨_, _, adjacent_magnitude (j := j) (by omega), ?_, ?_, ?_⟩
    · rwa [hx', abs_withSign, abs_of_nonneg hv0]
    · rwa [hx', abs_withSign, abs_of_nonneg hv0]
    · have hback : x.value - withSign x.negative (fp4Magnitude k) * scale =
          (x.value / scale - withSign x.negative (fp4Magnitude k)) * scale := by
        field_simp
      rw [hvalue, hback, hx', withSign_sub, abs_mul, abs_withSign, abs_of_pos hscale]
      exact mul_le_mul_of_nonneg_right herror hscale.le

lemma quantised_zero : Quantised 0 0 0 where
  bounded := by norm_num [mxFp4Max]
  nearest := by
    refine ⟨fp4Values_of_magnitude (m := 0) (by norm_num) false, fun w _ => ?_⟩
    norm_num [fp4NibbleToFloat, Single.value]
  tie w _ htie := by
    norm_num [fp4NibbleToFloat, Single.value] at htie ⊢
    exact htie
  error := by
    refine ⟨_, _, adjacent_magnitude (j := 0) (by norm_num), ?_⟩
    norm_num [fp4Magnitude]

lemma group_quantised {x : ℕ → Single} {a : ℕ → ℚ} {n : ℕ} (hx : ∀ i < n, (x i).Finite (a i))
    (hnonneg : ∀ i < n, 0 ≤ a i) (hbound : ∀ i < n, a i ≤ mxFp4Max * 2 ^ (127 : ℤ)) : ∀ i < n,
    Quantised (groupScale (groupAmax x n)).2.value (x i).value (groupNibble (groupScale (groupAmax x n)) (x i)) := by
  intro i hi
  obtain ⟨amax, hamax, hamax0, hle, hmem⟩ := groupAmax_fin hx
  rw [hamax]
  rcases hamax0.eq_or_lt with rfl | hpos
  · have hzero : a i = 0 := le_antisymm (hle i hi) (hnonneg i hi)
    rw [groupScale_zero, (hx i hi).value_eq, hzero, withSign_zero]
    exact quantised_zero
  · obtain ⟨_, _, hsb, hscale, hscale0, -, hspec⟩ := groupScale_spec hpos
    have hamax_le : amax ≤ mxFp4Max * 2 ^ (127 : ℤ) := by
      rcases hmem with h0 | ⟨j, hj, heq⟩
      · exact absurd h0 hpos.ne'
      · rw [← heq]
        exact hbound j hj
    rw [hscale]
    exact quantised_of (hx i hi) (hnonneg i hi) hsb hscale0 ((hle i hi).trans (hspec hamax_le))

/-- A rational as a number. -/
def ofRat (q : ℚ) : Single := ⟨q < 0, .fin |q|⟩

lemma ofRat_value (q : ℚ) : (ofRat q).value = q := by
  show withSign (decide (q < 0)) |q| = q
  unfold withSign
  by_cases h : q < 0
  · rw [if_pos (decide_eq_true h), abs_of_neg h, neg_neg]
  · rw [if_neg (by simpa using h), abs_of_nonneg (not_lt.mp h)]

/-- **The error of a group**: with the scale of its group every element of a bf16 group is quantised; and so are the
elements of a group of rationals, exactly if none of them exceeds `3 * 2^127`, where the scale byte is clamped. -/
theorem quant_group_error :
    (∀ (row : ℕ → ℕ) (base n : ℕ), (∀ i < n, ∃ a, (bf16ToFloat (row (base + i))).Finite a) → ∀ i < n,
      Quantised (groupScale (groupAmax (fun i => bf16ToFloat (row (base + i))) n)).2.value
        (bf16ToFloat (row (base + i))).value
        (groupNibble (groupScale (groupAmax (fun i => bf16ToFloat (row (base + i))) n))
          (bf16ToFloat (row (base + i))))) ∧
    ∀ (x : ℕ → ℚ) (n : ℕ), (∀ i < n, Quantised (groupScale (groupAmax (fun i => ofRat (x i)) n)).2.value (x i)
      (groupNibble (groupScale (groupAmax (fun i => ofRat (x i)) n)) (ofRat (x i)))) ↔
        ∀ i < n, |x i| ≤ mxFp4Max * 2 ^ (127 : ℤ) := by
  constructor
  · intro row base n hfinite
    have hvalue : ∀ i < n, (bf16ToFloat (row (base + i))).Finite |(bf16ToFloat (row (base + i))).value| := by
      intro i hi
      obtain ⟨a, ha⟩ := hfinite i hi
      have habs : |(bf16ToFloat (row (base + i))).value| = a := ha.abs_value
      rwa [habs]
    refine group_quantised hvalue (fun i _ => abs_nonneg _) fun i hi => ?_
    refine (hvalue i hi).lt.le.trans ?_
    norm_num [mxFp4Max]
  · intro x n
    have hfinite : ∀ i < n, (ofRat (x i)).Finite |x i| := fun i _ => rfl
    constructor
    · intro hquantised i hi
      have hbounded := (hquantised i hi).bounded
      obtain ⟨_, hamax, hamax0, hle, -⟩ := groupAmax_fin hfinite
      rcases hamax0.eq_or_lt with h0 | hpos
      · refine (hle i hi).trans ?_
        rw [← h0]
        norm_num [mxFp4Max]
      · obtain ⟨scale, _, -, hscale, hscale0, hscale127, -⟩ := groupScale_spec hpos
        rw [hamax, hscale] at hbounded
        have hbounded : |x i / scale| ≤ mxFp4Max := hbounded
        rw [abs_div, abs_of_pos hscale0, div_le_iff₀ hscale0] at hbounded
        exact hbounded.trans (mul_le_mul_of_nonneg_left hscale127 (by norm_num [mxFp4Max]))
    · intro hbound i hi
      have h := group_quantised hfinite (fun i _ => abs_nonneg _) hbound i hi
      rwa [ofRat_value] at h

/-- A group of one element, one. -/
theorem quant_group_error_one :
    Quantised (groupScale (groupAmax (fun _ => bf16ToFloat 0x3F80) 1)).2.value (bf16ToFloat 0x3F80).value
      (groupNibble (groupScale (groupAmax (fun _ => bf16ToFloat 0x3F80) 1)) (bf16ToFloat 0x3F80)) :=
  quant_group_error.1 (fun _ => 0x3F80) 0 1 (fun _ _ => ⟨_, congrArg Single.magnitude
    (ofBits_power (e := 127) (by norm_num) (by norm_num))⟩) 0 (by norm_num)

end VKernels.Moe.MxFp4
