import Mathlib.Data.List.Induction
import Mathlib.Tactic.Ring

/-!
# Softmax-weighted sums

The weights of a list of (score, value) pairs, in one pass with a running maximum and in two passes.

* `online_eq_twoPass` — both give the same sums, for any exponential.
-/

namespace VKernels.OnlineSoftmax

section

variable {α : Type} [Field α] [LinearOrder α] (exp : α → α)

/-- The greater of a running maximum, `none` for minus infinity, and a score. -/
def maxFrom (m : Option α) (s : α) : α :=
  match m with
  | none => s
  | some m => max m s

/-- `exp (m - x)`, zero at minus infinity. -/
def expFrom (m : Option α) (x : α) : α :=
  match m with
  | none => 0
  | some m => exp (m - x)

/-- A running maximum with the sums under it. -/
structure Running (α : Type) where
  max : Option α
  acc : α
  denom : α

/-- One pair more. -/
def onlineStep (r : Running α) (sk : α × α) : Running α :=
  let m := maxFrom r.max sk.1
  let rescale := expFrom exp r.max m
  let prob := exp (sk.1 - m)
  { max := some m, acc := r.acc * rescale + sk.2 * prob, denom := r.denom * rescale + prob }

/-- The pairs in one pass. -/
def online (L : List (α × α)) : Running α := L.foldl (onlineStep exp) ⟨none, 0, 0⟩

/-- The first pass. -/
def maxScore (L : List (α × α)) : Option α := L.foldl (fun m sk => some (maxFrom m sk.1)) none

/-- The second pass: the weighted sum and the sum of the weights under `m`. -/
def weigh (m : α) (L : List (α × α)) : α × α :=
  L.foldl (fun p sk => (p.1 + sk.2 * exp (sk.1 - m), p.2 + exp (sk.1 - m))) (0, 0)

/-- Both passes.  A list with a pair in it has a maximum. -/
def twoPass (L : List (α × α)) : α × α := weigh exp ((maxScore L).getD 0) L

end

section

variable {α : Type} [Field α] [LinearOrder α] {exp : α → α}

omit [LinearOrder α] in
lemma weigh_append (m : α) (L : List (α × α)) (sk : α × α) : weigh exp m (L ++ [sk]) =
      ((weigh exp m L).1 + sk.2 * exp (sk.1 - m), (weigh exp m L).2 + exp (sk.1 - m)) := by
  simp [weigh, List.foldl_append]

omit [LinearOrder α] in
lemma expFrom_mul (hadd : ∀ a b, exp (a + b) = exp a * exp b) (m : Option α) (x y : α) :
    expFrom exp m x * exp (x - y) = expFrom exp m y := by
  cases m with
  | none => exact zero_mul _
  | some m =>
    simp only [expFrom]
    rw [← hadd]
    congr 1
    ring

lemma online_spec (hadd : ∀ a b, exp (a + b) = exp a * exp b) (L : List (α × α)) (x : α) :
    (online exp L).max = maxScore L ∧ (online exp L).acc * expFrom exp (online exp L).max x = (weigh exp x L).1 ∧
        (online exp L).denom * expFrom exp (online exp L).max x = (weigh exp x L).2 := by
  induction L using List.reverseRecOn generalizing x with
  | nil => exact ⟨rfl, zero_mul _, zero_mul _⟩
  | append_singleton L sk ih =>
    have hstep : online exp (L ++ [sk]) = onlineStep exp (online exp L) sk := by
      simp [online, List.foldl_append]
    obtain ⟨hmax, hacc, hdenom⟩ := ih x
    have hold := expFrom_mul hadd (online exp L).max (maxFrom (online exp L).max sk.1) x
    have hnew : exp (sk.1 - maxFrom (online exp L).max sk.1) * exp (maxFrom (online exp L).max sk.1 - x) =
        exp (sk.1 - x) := by
      rw [← hadd]
      congr 1
      ring
    rw [hstep, weigh_append]
    refine ⟨?_, ?_, ?_⟩
    · simp [onlineStep, maxScore, List.foldl_append, hmax]
    · rw [← hacc, ← hold, ← hnew]
      simp only [onlineStep, expFrom]
      ring
    · rw [← hdenom, ← hold, ← hnew]
      simp only [onlineStep, expFrom]
      ring

omit [Field α] in
lemma maxScore_isSome {L : List (α × α)} (h : L ≠ []) : (maxScore L).isSome = true := by
  induction L using List.reverseRecOn with
  | nil => exact absurd rfl h
  | append_singleton L sk _ => simp [maxScore, List.foldl_append]

lemma online_eq_twoPass (hzero : exp 0 = 1) (hadd : ∀ a b, exp (a + b) = exp a * exp b)
    {L : List (α × α)} (h : L ≠ []) :
    (online exp L).acc = (twoPass exp L).1 ∧ (online exp L).denom = (twoPass exp L).2 := by
  obtain ⟨m, hm⟩ := Option.isSome_iff_exists.mp (maxScore_isSome h)
  obtain ⟨hmax, hacc, hdenom⟩ := online_spec hadd L m
  have hone : expFrom exp (online exp L).max m = 1 := by
    rw [hmax, hm]
    simp [expFrom, hzero]
  rw [hone, mul_one] at hacc hdenom
  unfold twoPass
  rw [hm]
  exact ⟨hacc, hdenom⟩

end

end VKernels.OnlineSoftmax
