import Mathlib.Analysis.Calculus.Deriv.Inv
import Mathlib.Analysis.SpecialFunctions.ExpDeriv
import Mathlib.Topology.Algebra.Module.ModuleTopology
import VKernels.Lib.SplitSoftmax

/-!
# The derivative of a softmax-weighted mean

* `weight` — the softmax weight of a key.
* `hasDerivAt_attention` — the mean, when scores and values move along a parameter.
* `hasDerivAt_contracted` — its contraction with fixed coefficients: every score moves it by its weight times how far its
  value is from the mean.
* `hasDerivAt_coordinate` — one coordinate of a tensor.
-/

namespace VKernels.SoftmaxGradient

open Finset SplitSoftmax
open Real (exp)

variable {ι δ : Type} {S : Finset ι} {score : ℝ → ι → ℝ} {value : ℝ → ι → δ → ℝ} {score' : ι → ℝ} {value' : ι → δ → ℝ}
  {x : ℝ}

noncomputable def weight (S : Finset ι) (score : ι → ℝ) (i : ι) : ℝ := exp (score i) / ∑ j ∈ S, exp (score j)

lemma sum_exp_pos (hS : S.Nonempty) (score : ι → ℝ) : 0 < ∑ i ∈ S, exp (score i) :=
  sum_pos (fun _ _ => Real.exp_pos _) hS

lemma hasDerivAt_attention (hscore : ∀ i ∈ S, HasDerivAt (fun t => score t i) (score' i) x) {d : δ}
    (hvalue : ∀ i ∈ S, HasDerivAt (fun t => value t i d) (value' i d) x) :
    HasDerivAt (fun t => attention exp (score t) (value t) S d) (∑ i ∈ S, weight S (score x) i *
        ((value x i d - attention exp (score x) (value x) S d) * score' i + value' i d)) x := by
  by_cases hS : S.Nonempty
  · have hexp (i : ι) (hi : i ∈ S) := (hscore i hi).exp
    have hnum : HasDerivAt (fun t => ∑ i ∈ S, exp (score t i) * value t i d)
        (∑ i ∈ S, (exp (score x i) * score' i * value x i d + exp (score x i) * value' i d)) x :=
      HasDerivAt.fun_sum fun i hi => (hexp i hi).mul (hvalue i hi)
    have hden : HasDerivAt (fun t => ∑ i ∈ S, exp (score t i)) (∑ i ∈ S, exp (score x i) * score' i) x :=
      HasDerivAt.fun_sum hexp
    have hZ : (∑ i ∈ S, exp (score x i)) ≠ 0 := (sum_exp_pos hS _).ne'
    refine (hnum.div hden hZ).congr_deriv ?_
    -- over the common denominator
    have hmean : attention exp (score x) (value x) S d * ∑ i ∈ S, exp (score x i) =
        ∑ i ∈ S, exp (score x i) * value x i d := div_mul_cancel₀ _ hZ
    have hsum : ∑ i ∈ S, weight S (score x) i *
          ((value x i d - attention exp (score x) (value x) S d) * score' i + value' i d) =
        (∑ i ∈ S, (exp (score x i) * score' i * value x i d + exp (score x i) * value' i d) -
          attention exp (score x) (value x) S d * ∑ i ∈ S, exp (score x i) * score' i) /
            ∑ i ∈ S, exp (score x i) := by
      rw [mul_sum, ← sum_sub_distrib, sum_div]
      refine sum_congr rfl fun i _ => ?_
      rw [weight]
      ring
    rw [hsum, ← hmean]
    field_simp
  · rw [not_nonempty_iff_eq_empty.mp hS]
    simpa using hasDerivAt_const x (0 : ℝ)

lemma hasDerivAt_contracted {D : Finset δ} (coeff : δ → ℝ)
    (hscore : ∀ i ∈ S, HasDerivAt (fun t => score t i) (score' i) x)
    (hvalue : ∀ i ∈ S, ∀ d ∈ D, HasDerivAt (fun t => value t i d) (value' i d) x) :
    HasDerivAt (fun t => ∑ d ∈ D, coeff d * attention exp (score t) (value t) S d)
      (∑ i ∈ S, (weight S (score x) i *
          ((∑ d ∈ D, coeff d * value x i d) - ∑ d ∈ D, coeff d * attention exp (score x) (value x) S d) * score' i +
        weight S (score x) i * ∑ d ∈ D, coeff d * value' i d)) x := by
  have hd (d : δ) (hd : d ∈ D) := (hasDerivAt_attention hscore fun i hi => hvalue i hi d hd).const_mul (coeff d)
  refine (HasDerivAt.fun_sum hd).congr_deriv ?_
  simp only [mul_sum]
  rw [sum_comm]
  refine sum_congr rfl fun i _ => ?_
  rw [← sum_sub_distrib, mul_sum, sum_mul, ← sum_add_distrib]
  refine sum_congr rfl fun d _ => ?_
  ring

lemma hasDerivAt_coordinate {L : Type} [DecidableEq L] (f : L → ℝ) (o l : L) :
    HasDerivAt (fun t => Function.update f o t l) (if l = o then 1 else 0) (f o) := by
  by_cases h : l = o
  · subst h
    simpa using hasDerivAt_id' (f l)
  · simpa [h] using hasDerivAt_const (f o) (f l)

end VKernels.SoftmaxGradient
