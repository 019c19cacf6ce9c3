import Mathlib.Algebra.Order.Archimedean.Basic

/-!
# Nearest values

Rounding a rational to a set of values, and to the integers.

* `roundEven` — a non-negative rational to an integer, ties to the even one.
* `Between` — `k` is the place of `v` between the midpoints of an increasing sequence.

## Results

* `isNearest_signed` — of a set with both signs the nearest value has the sign of the input and the nearest magnitude.
* `roundEven_error`, `roundEven_nearest`, `roundEven_tie` — the error of `roundEven` is at most one half, no integer
  is closer, and a tie goes to the even one.
* `Between.nearest`, `Between.tie`, `Between.error` — the member at that place is a nearest one, the larger of two as
  near, and the error is at most half of the spacing around `v`.
-/

namespace VKernels.Nearest

/-- `v` is a value of the set, and none is closer to `x`. -/
def IsNearest (values : Set ℚ) (x v : ℚ) : Prop := v ∈ values ∧ ∀ w ∈ values, |x - v| ≤ |x - w|

def withSign (negative : Bool) (a : ℚ) : ℚ := if negative then -a else a

section

variable {negative : Bool} {a b : ℚ}

lemma withSign_sub : withSign negative a - withSign negative b = withSign negative (a - b) := by
  cases negative <;> simp [withSign]
  ring

lemma abs_withSign : |withSign negative a| = |a| := by
  cases negative <;> simp [withSign]

lemma abs_withSign_sub : |withSign negative a - withSign negative b| = |a - b| := by
  rw [withSign_sub, abs_withSign]

@[simp] lemma withSign_zero : withSign negative 0 = 0 := by
  cases negative <;> simp [withSign]

lemma withSign_inj : withSign negative a = withSign negative b ↔ a = b := by
  cases negative <;> simp [withSign]

lemma abs_sub_le_withSign (ha : 0 ≤ a) (w : ℚ) : |a - abs w| ≤ |withSign negative a - w| := by
  have h := abs_abs_sub_abs_le (withSign negative a) w
  rwa [abs_withSign, abs_of_nonneg ha] at h

lemma isNearest_signed {values : Set ℚ} (ha : 0 ≤ a) (hmem : withSign negative b ∈ values)
    (hnearest : ∀ w ∈ values, |a - b| ≤ |a - abs w|) : IsNearest values (withSign negative a) (withSign negative b) := by
  refine ⟨hmem, fun w hw => ?_⟩
  rw [abs_withSign_sub]
  exact (hnearest w hw).trans (abs_sub_le_withSign ha w)

lemma eq_withSign_of_tie (ha : 0 ≤ a) {w : ℚ} (hle : |withSign negative a - w| ≤ a) : w = withSign negative |w| := by
  rcases lt_trichotomy w 0 with hw | rfl | hw
  · cases negative
    · simp only [withSign, Bool.false_eq_true, if_false] at hle ⊢
      rw [abs_of_nonneg (by linarith)] at hle
      linarith
    · simp [withSign, abs_of_neg hw]
  · simp
  · cases negative
    · simp [withSign, abs_of_pos hw]
    · simp only [withSign, if_true] at hle ⊢
      rw [abs_of_nonpos (by linarith)] at hle
      linarith

end

/-! ## Rounding to integers -/

def roundEven (x : ℚ) : ℕ :=
  let fl := ⌊x⌋₊
  let rem := x - fl
  if rem < 1 / 2 then fl
  else if rem > 1 / 2 then fl + 1
  else if fl % 2 = 1 then fl + 1 else fl

section

variable {x : ℚ}

lemma roundEven_error (hx : 0 ≤ x) : |x - roundEven x| ≤ 1 / 2 := by
  have hlo := Nat.floor_le hx
  have hhi := Nat.lt_floor_add_one x
  unfold roundEven
  dsimp only
  rw [abs_le]
  split_ifs <;> push_cast <;> constructor <;> linarith

lemma half_le_of_ne {n m : ℤ} (h : n ≠ m) (herror : |x - n| ≤ 1 / 2) : 1 / 2 ≤ |x - m| := by
  have hone : (1 : ℚ) ≤ |(n : ℚ) - m| := by
    exact_mod_cast Int.one_le_abs (sub_ne_zero.mpr h)
  have htriangle := abs_sub_le (n : ℚ) x m
  rw [abs_sub_comm (n : ℚ) x] at htriangle
  linarith

lemma roundEven_nearest (hx : 0 ≤ x) (n : ℤ) : |x - roundEven x| ≤ |x - n| := by
  have herror := roundEven_error hx
  by_cases h : (roundEven x : ℤ) = n
  · rw [← h]
    norm_cast
  · have := half_le_of_ne h (by exact_mod_cast herror)
    linarith

lemma roundEven_tie (hx : 0 ≤ x) {n : ℤ} (hne : n ≠ roundEven x) (htie : |x - n| = |x - roundEven x|) :
    roundEven x % 2 = 0 := by
  have hhalf : 1 / 2 ≤ |x - n| := half_le_of_ne (Ne.symm hne) (by exact_mod_cast roundEven_error hx)
  rw [htie] at hhalf
  have hlo := Nat.floor_le hx
  have hhi := Nat.lt_floor_add_one x
  unfold roundEven at hhalf ⊢
  dsimp only at hhalf ⊢
  split_ifs at hhalf ⊢ with h₁ h₂ h₃
  · rw [abs_of_nonneg (by linarith)] at hhalf
    linarith
  · rw [abs_of_nonpos (by push_cast; linarith)] at hhalf
    push_cast at hhalf
    linarith
  · omega
  · omega

end

/-! ## Thresholds -/

section

variable {c : ℕ → ℚ} {n k : ℕ} {v a b : ℚ}

lemma abs_sub_le_iff_midpoint (h : a < b) : |v - a| ≤ |v - b| ↔ v ≤ (a + b) / 2 := by
  rw [← sq_le_sq]
  constructor
  · intro hle
    by_contra hmid
    nlinarith
  · intro hmid
    nlinarith

lemma abs_sub_le_iff_ge_midpoint (h : a < b) : |v - b| ≤ |v - a| ↔ (a + b) / 2 ≤ v := by
  rw [← sq_le_sq]
  constructor
  · intro hle
    by_contra hmid
    nlinarith
  · intro hmid
    nlinarith

structure Between (c : ℕ → ℚ) (n k : ℕ) (v : ℚ) : Prop where
  mono : ∀ i j, i < j → j < n → c i < c j
  lt : k < n
  above : 0 < k → (c (k - 1) + c k) / 2 ≤ v
  below : k + 1 < n → v < (c k + c (k + 1)) / 2

namespace Between

variable (h : Between c n k v)

include h

lemma mono_le {i j : ℕ} (hij : i ≤ j) (hj : j < n) : c i ≤ c j := by
  rcases hij.lt_or_eq with hlt | rfl
  · exact (h.mono i j hlt hj).le
  · exact le_rfl

variable {m : ℕ}

lemma midpoint_le (hm : m < k) : (c m + c k) / 2 ≤ v := by
  have habove := h.above (by omega)
  have hle := h.mono_le (show m ≤ k - 1 by omega) (by have := h.lt; omega)
  linarith

lemma lt_midpoint (hm : k < m) (hmn : m < n) : v < (c k + c m) / 2 := by
  have hbelow := h.below (by omega)
  have hle := h.mono_le (show k + 1 ≤ m by omega) hmn
  linarith

lemma nearest (hm : m < n) : |v - c k| ≤ |v - c m| := by
  rcases lt_trichotomy m k with hlt | rfl | hgt
  · exact (abs_sub_le_iff_ge_midpoint (h.mono m k hlt h.lt)).mpr (h.midpoint_le hlt)
  · exact le_rfl
  · exact (abs_sub_le_iff_midpoint (h.mono k m hgt hm)).mpr (h.lt_midpoint hgt hm).le

lemma tie (hm : m < n) (htie : |v - c m| = |v - c k|) : c m ≤ c k := by
  rcases le_or_gt m k with hle | hgt
  · exact h.mono_le hle h.lt
  · have hmid := (abs_sub_le_iff_ge_midpoint (h.mono k m hgt hm)).mp htie.le
    exact absurd hmid (not_le.mpr (h.lt_midpoint hgt hm))

lemma error (hn : 1 < n) (h0 : c 0 ≤ v) (hlast : v ≤ c (n - 1)) :
    ∃ j, j + 1 < n ∧ c j ≤ v ∧ v ≤ c (j + 1) ∧ |v - c k| ≤ (c (j + 1) - c j) / 2 := by
  have hk := h.lt
  rcases le_or_gt (c k) v with hle | hgt
  · by_cases hnext : k + 1 < n
    · have hbelow := h.below hnext
      have hstep := h.mono k (k + 1) (Nat.lt_succ_self k) hnext
      refine ⟨k, hnext, hle, by linarith, ?_⟩
      rw [abs_of_nonneg (by linarith)]
      linarith
    · -- the last member
      obtain rfl : k = n - 1 := by omega
      have heq : v = c (n - 1) := le_antisymm hlast hle
      have hstep := h.mono (n - 2) (n - 1) (by omega) hk
      have hindex : n - 2 + 1 = n - 1 := by omega
      refine ⟨n - 2, by omega, by linarith, by rw [hindex]; exact hlast, ?_⟩
      rw [heq, sub_self, abs_zero, hindex]
      linarith
  · have hpos : 0 < k := pos_of_ne_zero fun hzero => by
      rw [hzero] at hgt
      linarith
    have habove := h.above hpos
    have hindex : k - 1 + 1 = k := by omega
    refine ⟨k - 1, by omega, by linarith, by rw [hindex]; exact hgt.le, ?_⟩
    rw [hindex, abs_of_neg (by linarith)]
    linarith

end Between

end

end VKernels.Nearest
