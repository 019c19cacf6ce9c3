import Mathlib.Algebra.BigOperators.Field
import Mathlib.Algebra.BigOperators.Intervals
import Mathlib.Algebra.Order.BigOperators.Group.Finset
import Mathlib.Algebra.Order.Field.Basic
import Mathlib.Tactic.FieldSimp
import VKernels.Lib.OnlineSoftmax

/-!
# Softmax-weighted sums in parts

The softmax-weighted mean of the values of a finite set of keys, gathered by sets of keys, each under a reference point
of its own.

* `mass`, `moment` — the sums of the weights and of the weighted values under a reference point; `attention`.
* `Gathered`, `Holds` — partial sums, and that they are those of a set of keys.

## Results

* `Holds.advance` — more keys, under a new reference point.
* `Holds.at` — the sums under any reference point.
* `Holds.finish` — the mean.
* `holds_blocks` — blocks of masked scores, each under the running maximum or zero; `holds_range`, each with a key.
* `Holds.merged` — two parts under the greater maximum.
* `moment_parts`, `mass_parts` — the sums of disjoint parts.
* `attention_parts` — the mean from the means and log-sum-exps of disjoint parts.
-/

namespace VKernels.SplitSoftmax

open OnlineSoftmax (expFrom expFrom_mul)
open Finset

section

variable {ι δ σ α : Type} [Field α] (E : α → α) (score : ι → α) (value : ι → δ → α)

def mass (S : Finset ι) (m : α) : α := ∑ i ∈ S, E (score i - m)

def moment (S : Finset ι) (m : α) (d : δ) : α := ∑ i ∈ S, E (score i - m) * value i d

/-- The softmax-weighted mean; zero over no keys. -/
def attention (S : Finset ι) (d : δ) : α := (∑ i ∈ S, E (score i) * value i d) / ∑ i ∈ S, E (score i)

@[simp] lemma mass_empty (m : α) : mass E score ∅ m = 0 := rfl

@[simp] lemma moment_empty (m : α) (d : δ) : moment E score value ∅ m d = 0 := rfl

@[simp] lemma attention_empty (d : δ) : attention E score value ∅ d = 0 := by
  simp [attention]

variable {E score value}

variable {score' : ι → α} {S : Finset ι}

section

variable (h : ∀ i ∈ S, score i = score' i)
include h

lemma mass_congr (m : α) : mass E score S m = mass E score' S m := by
  refine sum_congr rfl fun i hi => ?_
  rw [h i hi]

lemma moment_congr {value' : ι → δ → α} {d : δ}
    (hvalue : ∀ i ∈ S, value i d = value' i d) (m : α) : moment E score value S m d = moment E score' value' S m d := by
  refine sum_congr rfl fun i hi => ?_
  rw [h i hi, hvalue i hi]

lemma attention_congr {value' : ι → δ → α} {d : δ}
    (hvalue : ∀ i ∈ S, value i d = value' i d) : attention E score value S d = attention E score' value' S d := by
  unfold attention
  congr 1
  · refine sum_congr rfl fun i hi => ?_
    rw [h i hi, hvalue i hi]
  · refine sum_congr rfl fun i hi => ?_
    rw [h i hi]

end

lemma mass_parts [DecidableEq ι] {parts : Finset σ} {part : σ → Finset ι}
    (h : (parts : Set σ).PairwiseDisjoint part) (m : α) :
    ∑ s ∈ parts, mass E score (part s) m = mass E score (parts.biUnion part) m := (sum_biUnion h).symm

lemma moment_parts [DecidableEq ι] {parts : Finset σ} {part : σ → Finset ι}
    (h : (parts : Set σ).PairwiseDisjoint part) (m : α) (d : δ) :
    ∑ s ∈ parts, moment E score value (part s) m d = moment E score value (parts.biUnion part) m d :=
  (sum_biUnion h).symm

end

/-! ## Maxima -/

section

variable {α : Type} [LinearOrder α]

/-- The greater of two, with `none` for minus infinity. -/
def maximum (a b : Option α) : Option α :=
  match a, b with
  | none, b => b
  | a, none => a
  | some x, some y => some (max x y)

/-- The greatest of `n`. -/
def maxOver (n : ℕ) (f : ℕ → Option α) : Option α := (List.range n).foldl (fun m j => maximum m (f j)) none

@[simp] lemma maximum_none_right (a : Option α) : maximum a none = a := by
  cases a <;> rfl

variable {a b : Option α} {n : ℕ} {f : ℕ → Option α}

lemma maximum_isSome (h : b.isSome = true) : (maximum a b).isSome = true := by
  obtain ⟨y, rfl⟩ := Option.isSome_iff_exists.mp h
  cases a <;> rfl

lemma maximum_isSome_left (h : a.isSome = true) : (maximum a b).isSome = true := by
  obtain ⟨x, rfl⟩ := Option.isSome_iff_exists.mp h
  cases b <;> rfl

lemma maxOver_succ (n : ℕ) (f : ℕ → Option α) : maxOver (n + 1) f = maximum (maxOver n f) (f n) := by
  simp [maxOver, List.range_succ, List.foldl_append]

lemma maxOver_congr {n : ℕ} {f f' : ℕ → Option α} (h : ∀ i < n, f i = f' i) : maxOver n f = maxOver n f' := by
  induction n with
  | zero => rfl
  | succ n ih => rw [maxOver_succ, maxOver_succ, ih fun i hi => h i (by omega), h n (by omega)]

lemma maxOver_isSome {j : ℕ} (hj : j < n) (h : (f j).isSome = true) : (maxOver n f).isSome = true := by
  induction n with
  | zero => omega
  | succ n ih =>
    rw [maxOver_succ]
    by_cases heq : j = n
    · subst heq
      exact maximum_isSome h
    · exact maximum_isSome_left (ih (by omega))

lemma maximum_eq_none (h : maximum a b = none) : a = none ∧ b = none := by
  cases a with
  | none => exact ⟨rfl, h⟩
  | some x => cases b <;> cases h

lemma maxOver_eq_none (h : maxOver n f = none) : ∀ j < n, f j = none := by
  intro j hj
  by_contra hne
  have hsome := maxOver_isSome (f := f) hj (Option.isSome_iff_ne_none.mpr hne)
  rw [h] at hsome
  cases hsome

lemma maxOver_none (h : ∀ j < n, f j = none) : maxOver n f = none := by
  induction n with
  | zero => rfl
  | succ n ih => rw [maxOver_succ, ih fun j hj => h j (by omega), h n (by omega), maximum_none_right]

end

/-! ## Exact exponentials -/

/-- Sums become products. -/
structure Exponential {α : Type} [Field α] [LinearOrder α] (E : α → α) : Prop where
  add : ∀ a b, E (a + b) = E a * E b
  pos : ∀ a, 0 < E a

section

variable {ι δ α : Type} [Field α] [LinearOrder α] {E : α → α} (hE : Exponential E) {score : ι → α}
  {value : ι → δ → α}
include hE

lemma Exponential.sub_mul (x m m' : α) : E (x - m) * E (m - m') = E (x - m') := by
  rw [← hE.add]
  congr 1
  ring

lemma Exponential.sub (x m : α) : E (x - m) = E x * E (-m) := by
  rw [← hE.add, sub_eq_add_neg]

lemma Exponential.zero : E 0 = 1 := by
  have h := hE.add 0 0
  rw [add_zero] at h
  exact mul_left_cancel₀ (ne_of_gt (hE.pos 0)) (h.symm.trans (mul_one _).symm)

lemma mass_shift (S : Finset ι) (m m' : α) : mass E score S m * E (m - m') = mass E score S m' := by
  unfold mass
  rw [sum_mul]
  exact sum_congr rfl fun _ _ => hE.sub_mul _ _ _

lemma moment_shift (S : Finset ι) (m m' : α) (d : δ) :
    moment E score value S m d * E (m - m') = moment E score value S m' d := by
  unfold moment
  rw [sum_mul]
  refine sum_congr rfl fun i _ => ?_
  rw [mul_right_comm, hE.sub_mul]

variable [IsStrictOrderedRing α]

lemma mass_pos {S : Finset ι} (h : S.Nonempty) (m : α) : 0 < mass E score S m :=
  sum_pos (fun _ _ => hE.pos _) h

omit [IsStrictOrderedRing α] in
lemma moment_div_mass (S : Finset ι) (m : α) (d : δ) :
    moment E score value S m d / mass E score S m = attention E score value S d := by
  have hpos : E (-m) ≠ 0 := ne_of_gt (hE.pos _)
  have hmoment : moment E score value S m d = (∑ i ∈ S, E (score i) * value i d) * E (-m) := by
    rw [sum_mul]
    refine sum_congr rfl fun i _ => ?_
    rw [hE.sub, mul_right_comm]
  have hmass : mass E score S m = (∑ i ∈ S, E (score i)) * E (-m) := by
    rw [sum_mul]
    exact sum_congr rfl fun _ _ => hE.sub _ _
  rw [hmoment, hmass, mul_div_mul_right _ _ hpos, attention]

end

/-! ## Partial sums -/

/-- Sums under a reference point, `none` as long as there is nothing. -/
structure Gathered (δ α : Type) where
  max : Option α
  denom : α
  acc : δ → α

namespace Gathered

variable {ι δ α : Type} [Field α] (E : α → α) (score : ι → α) (value : ι → δ → α)

/-- Nothing yet. -/
def start : Gathered δ α := ⟨none, 0, fun _ => 0⟩

def Holds (r : Gathered δ α) (S : Finset ι) : Prop :=
  match r.max with
  | none => S = ∅ ∧ r.denom = 0 ∧ ∀ d, r.acc d = 0
  | some m => r.denom = mass E score S m ∧ ∀ d, r.acc d = moment E score value S m d

variable {E score value}

lemma holds_start : (start : Gathered δ α).Holds E score value ∅ := ⟨rfl, rfl, fun _ => rfl⟩

lemma Holds.congr {score' : ι → α} {value' : ι → δ → α} {r : Gathered δ α} {S : Finset ι}
    (h : r.Holds E score value S) (hscore : ∀ i ∈ S, score i = score' i)
    (hvalue : ∀ i ∈ S, ∀ d, value i d = value' i d) : r.Holds E score' value' S := by
  obtain ⟨max, _, _⟩ := r
  cases max with
  | none => exact h
  | some m =>
    obtain ⟨hdenom, hacc⟩ := h
    refine ⟨hdenom.trans (mass_congr hscore m), fun d => (hacc d).trans ?_⟩
    exact moment_congr hscore (fun i hi => hvalue i hi d) m

section

variable [LinearOrder α] (hE : Exponential E) {r : Gathered δ α} {S : Finset ι}
include hE

lemma Holds.at (h : r.Holds E score value S) (m : α) : r.denom * expFrom E r.max m = mass E score S m ∧
      ∀ d, r.acc d * expFrom E r.max m = moment E score value S m d := by
  obtain ⟨max, denom, acc⟩ := r
  cases max with
  | none =>
    obtain ⟨rfl, hdenom, hacc⟩ := h
    exact ⟨mul_zero _, fun d => mul_zero _⟩
  | some m₀ =>
    obtain ⟨hdenom, hacc⟩ := h
    refine ⟨?_, fun d => ?_⟩
    · show denom * E (m₀ - m) = _
      rw [← mass_shift hE, ← hdenom]
    · show acc d * E (m₀ - m) = _
      rw [← moment_shift hE, ← hacc d]

lemma Holds.advance [DecidableEq ι] (h : r.Holds E score value S) {T : Finset ι} (hST : Disjoint S T) (m : α)
    {denom : α} {acc : δ → α} (hdenom : denom = r.denom * expFrom E r.max m + mass E score T m)
    (hacc : ∀ d, acc d = r.acc d * expFrom E r.max m + moment E score value T m d) :
    (⟨some m, denom, acc⟩ : Gathered δ α).Holds E score value (S ∪ T) := by
  obtain ⟨hmass, hmoment⟩ := h.at hE m
  refine ⟨?_, fun d => (hacc d).trans ?_⟩
  · rw [hdenom, hmass]
    exact (sum_union hST).symm
  · rw [hmoment d]
    exact (sum_union hST).symm

lemma Holds.finish (h : r.Holds E score value S) (d : δ) : r.acc d / r.denom = attention E score value S d := by
  obtain ⟨max, _, _⟩ := r
  cases max with
  | none =>
    obtain ⟨rfl, hdenom, hacc⟩ := h
    rw [hacc d, zero_div, attention_empty]
  | some m =>
    obtain ⟨hdenom, hacc⟩ := h
    rw [hacc d, hdenom]
    exact moment_div_mass hE S m d

section

variable [IsStrictOrderedRing α]

lemma Holds.denom_pos (h : r.Holds E score value S) (hS : S.Nonempty) : 0 < r.denom := by
  obtain ⟨max, _, _⟩ := r
  cases max with
  | none => exact absurd h.1 hS.ne_empty
  | some m =>
    rw [h.1]
    exact mass_pos hE hS m

/-- **The mean**, by the reciprocal of a denominator that may be zero. -/
theorem Holds.normalise (h : r.Holds E score value S) (d : δ) :
    r.acc d * (if 0 < r.denom then 1 / r.denom else 0) = attention E score value S d := by
  rw [← h.finish hE d]
  split
  · rw [mul_one_div]
  · rename_i hzero
    have hempty : S = ∅ := by
      by_contra hne
      exact hzero (h.denom_pos hE (nonempty_iff_ne_empty.mpr hne))
    subst hempty
    rw [h.finish hE d, attention_empty, mul_zero]

/-- **The mean**, over a denominator that is one in place of zero. -/
theorem Holds.quotient (h : r.Holds E score value S) (d : δ) :
    r.acc d / (if 0 < r.denom then r.denom else 1) = attention E score value S d := by
  rw [← h.normalise hE d]
  split
  · rw [mul_one_div]
  · rename_i hzero
    have hempty : S = ∅ := by
      by_contra hne
      exact hzero (h.denom_pos hE (nonempty_iff_ne_empty.mpr hne))
    have hmean := h.normalise hE d
    have hacc : r.acc d = 0 := by
      obtain ⟨max, _, _⟩ := r
      subst hempty
      cases max with
      | none => exact h.2.2 d
      | some m => exact (h.2 d).trans (moment_empty E score value m d)
    rw [hacc, zero_div, zero_mul]

end

end

/-! ### Masked blocks -/

section

variable {δ α : Type} [Field α] [LinearOrder α] (E : α → α)

section

/-- A block of `n` scores, some of them minus infinity, under the new maximum or zero. -/
def block (n : ℕ) (masked : ℕ → Option α) (value : ℕ → δ → α) (g : Gathered δ α) : Gathered δ α :=
  let newMax := maximum g.max (maxOver n masked)
  let safe := newMax.getD 0
  { max := newMax
    denom := g.denom * expFrom E g.max safe + ∑ j ∈ range n, expFrom E (masked j) safe
    acc := fun d => g.acc d * expFrom E g.max safe + ∑ j ∈ range n, expFrom E (masked j) safe * value j d }

variable {E}

variable {n : ℕ}

lemma block_eq {masked : ℕ → Option α} {value : ℕ → δ → α} {g : Gathered δ α} {newMax : Option α}
    (h : maximum g.max (maxOver n masked) = newMax) : g.block E n masked value =
      ⟨newMax, g.denom * expFrom E g.max (newMax.getD 0) + ∑ j ∈ range n, expFrom E (masked j) (newMax.getD 0),
        fun d => g.acc d * expFrom E g.max (newMax.getD 0) +
          ∑ j ∈ range n, expFrom E (masked j) (newMax.getD 0) * value j d⟩ := by
  subst h
  rfl

variable (hE : Exponential E) {score : ℕ → α} {value : ℕ → δ → α} {p : ℕ → Prop} [DecidablePred p]
include hE

/-- **A masked block** adds the keys that are not masked. -/
theorem Holds.block {g : Gathered δ α} {S : Finset ℕ} (h : g.Holds E score value S) {start : ℕ} {masked : ℕ → Option α}
    (hmasked : ∀ j < n, masked j = if p (start + j) then some (score (start + j)) else none) (hS : ∀ i ∈ S, i < start) :
    (g.block E n masked fun j => value (start + j)).Holds E score value (S ∪ (Ico start (start + n)).filter p) := by
  have hdisjoint : Disjoint S ((Ico start (start + n)).filter p) := by
    rw [disjoint_left]
    intro i hi hi'
    have hlo := (mem_Ico.mp (mem_filter.mp hi').1).1
    exact Nat.not_lt.mpr hlo (hS i hi)
  have hsum (m : α) (f : ℕ → α) : ∑ j ∈ range n, expFrom E (masked j) m * f (start + j) =
      ∑ i ∈ (Ico start (start + n)).filter p, E (score i - m) * f i := by
    rw [sum_filter, sum_Ico_eq_sum_range, Nat.add_sub_cancel_left]
    refine sum_congr rfl fun j hj => ?_
    rw [hmasked j (mem_range.mp hj)]
    split
    · rfl
    · exact zero_mul _
  cases hmax : maximum g.max (maxOver n masked) with
  | none =>
    obtain ⟨hold, hnew⟩ := maximum_eq_none hmax
    have hempty : (Ico start (start + n)).filter p = ∅ := by
      rw [filter_eq_empty_iff]
      intro i hi hp
      obtain ⟨hlo, hhi⟩ := mem_Ico.mp hi
      have hj := maxOver_eq_none hnew (i - start) (by omega)
      rw [hmasked _ (by omega), Nat.add_sub_cancel' hlo, if_pos hp] at hj
      cases hj
    have hzero (m : α) (j : ℕ) (hj : j ∈ range n) : expFrom E (masked j) m = 0 := by
      rw [maxOver_eq_none hnew j (mem_range.mp hj)]
      rfl
    have hholds : S = ∅ := by
      unfold Holds at h
      rw [hold] at h
      exact h.1
    rw [hempty, union_empty, block_eq hmax, hold]
    refine ⟨hholds, ?_, fun d => ?_⟩
    · show g.denom * 0 + _ = 0
      rw [sum_eq_zero (hzero _), mul_zero, add_zero]
    · have hvalues (m : α) : ∑ j ∈ range n, expFrom E (masked j) m * value (start + j) d = 0 :=
        sum_eq_zero fun j hj => by rw [hzero m j hj, zero_mul]
      show g.acc d * 0 + _ = 0
      rw [hvalues, mul_zero, add_zero]
  | some m =>
    rw [block_eq hmax]
    refine h.advance hE hdisjoint m ?_ fun d => ?_
    · congr 1
      simpa [mass] using hsum m fun _ => 1
    · rw [Option.getD_some, hsum m fun i => value i d, moment]

lemma holds_blocks {masked : ℕ → Option α} (hmasked : ∀ i, masked i = if p i then some (score i) else none)
    (blocks : ℕ) :
    ((List.range blocks).foldl (fun g t => g.block E n (fun j => masked (t * n + j)) fun j => value (t * n + j))
        (start : Gathered δ α)).Holds E score value ((range (blocks * n)).filter p) := by
  induction blocks with
  | zero =>
    rw [Nat.zero_mul]
    exact holds_start
  | succ t ih =>
    rw [List.range_succ, List.foldl_append]
    have hstep := ih.block hE (fun j (_ : j < n) => hmasked _) fun i hi => mem_range.mp (mem_filter.mp hi).1
    have hset : (range (t * n)).filter p ∪ (Ico (t * n) (t * n + n)).filter p = (range ((t + 1) * n)).filter p := by
      rw [← filter_union, add_one_mul]
      congr 1
      ext i
      simp only [mem_union, mem_range, mem_Ico]
      omega
    rw [← hset]
    exact hstep

end

/-! ### Blocks under their own maximum -/

section

/-- A block under the new maximum itself; `none` where that is minus infinity, which has no difference to itself. -/
def blockUnder (n : ℕ) (masked : ℕ → Option α) (value : ℕ → δ → α) (g : Gathered δ α) : Option (Gathered δ α) := do
  let newMax ← maximum g.max (maxOver n masked)
  let alpha := expFrom E g.max newMax
  let p (j : ℕ) : α := expFrom E (masked j) newMax
  some {
    max := some newMax
    denom := g.denom * alpha + ∑ j ∈ range n, p j
    acc := fun d => g.acc d * alpha + ∑ j ∈ range n, p j * value j d }

def merged (g part : Gathered δ α) : Option (Gathered δ α) := do
  let newMax ← maximum g.max part.max
  let alpha := expFrom E g.max newMax
  let beta := expFrom E part.max newMax
  some {
    max := some newMax
    denom := g.denom * alpha + part.denom * beta
    acc := fun d => g.acc d * alpha + part.acc d * beta }

variable {E}

lemma blockUnder_eq {n j : ℕ} {masked : ℕ → Option α} {value : ℕ → δ → α} {g : Gathered δ α} (hj : j < n)
    (h : (masked j).isSome = true) : g.blockUnder E n masked value = some (g.block E n masked value) := by
  obtain ⟨_, hmax⟩ := Option.isSome_iff_exists.mp
    (maximum_isSome (maxOver_isSome hj h) : (maximum g.max _).isSome = true)
  rw [blockUnder, hmax, block_eq hmax]
  rfl

variable (hE : Exponential E) {score : ℕ → α} {value : ℕ → δ → α}
include hE

/-- **Blocks from `start` to `stop`**, each with a key of its own. -/
theorem holds_range {n start stop : ℕ} {masked : ℕ → Option α} (hn : 0 < n)
    (hmasked : ∀ i, masked i = if i < stop then some (score i) else none) (value : ℕ → δ → α) (blocks : ℕ)
    (hblocks : ∀ t < blocks, start + t * n < stop) :
    ∃ g, (List.range blocks).foldlM (fun g t => g.blockUnder E n (fun j => masked (start + t * n + j))
        fun j => value (start + t * n + j)) (Gathered.start : Gathered δ α) = some g ∧
      g.Holds E score value ((Ico start (start + blocks * n)).filter (· < stop)) := by
  induction blocks with
  | zero =>
    refine ⟨Gathered.start, rfl, ?_⟩
    rw [Nat.zero_mul, add_zero, Ico_self, filter_empty]
    exact holds_start
  | succ t ih =>
    obtain ⟨g, hg, hholds⟩ := ih fun t' ht' => hblocks t' (by omega)
    have hfirst : (masked (start + t * n + 0)).isSome = true := by
      rw [hmasked, add_zero, if_pos (hblocks t (Nat.lt_succ_self t))]
      rfl
    have hstep := hholds.block (p := fun i => i < stop) hE (fun j (_ : j < n) => hmasked _)
      fun i hi => (mem_Ico.mp (mem_filter.mp hi).1).2
    have hset : (Ico start (start + t * n)).filter (· < stop) ∪
          (Ico (start + t * n) (start + t * n + n)).filter (· < stop) =
        (Ico start (start + (t + 1) * n)).filter (· < stop) := by
      rw [← filter_union, add_one_mul]
      congr 1
      ext i
      simp only [mem_union, mem_Ico]
      omega
    rw [hset] at hstep
    refine ⟨_, ?_, hstep⟩
    rw [List.range_succ, List.foldlM_append, hg]
    rw [Option.bind_eq_bind, Option.bind_some, List.foldlM_cons, blockUnder_eq hn hfirst]
    rfl

lemma Holds.merged {g part : Gathered δ α} {S T : Finset ℕ} (h : g.Holds E score value S)
    (hpart : part.Holds E score value T) (hST : Disjoint S T) (hS : S.Nonempty ∨ T.Nonempty) :
    ∃ g', g.merged E part = some g' ∧ g'.Holds E score value (S ∪ T) := by
  have hsome {r : Gathered δ α} {U : Finset ℕ} (hr : r.Holds E score value U) (hU : U.Nonempty) :
      r.max.isSome = true := by
    unfold Holds at hr
    cases hmax : r.max with
    | none =>
      rw [hmax] at hr
      exact absurd hr.1 hU.ne_empty
    | some m => rfl
  have hmax : (maximum g.max part.max).isSome = true := by
    rcases hS with hS | hT
    · exact maximum_isSome_left (hsome h hS)
    · exact maximum_isSome (hsome hpart hT)
  obtain ⟨newMax, hmax⟩ := Option.isSome_iff_exists.mp hmax
  obtain ⟨hmass, hmoment⟩ := hpart.at hE newMax
  refine ⟨_, by rw [Gathered.merged, hmax]; rfl, h.advance hE hST newMax ?_ fun d => ?_⟩
  · rw [hmass]
  · rw [hmoment d]

end

end

end Gathered

/-! ## Parts with their log-sum-exps -/

section

variable {ι δ σ α : Type} [Field α] [LinearOrder α] {E log : α → α} {score : ι → α} {value : ι → δ → α}

/-- A log-sum-exp of the scores of a set of keys, `none` for minus infinity. -/
def LogMass (E : α → α) (score : ι → α) (S : Finset ι) (l : Option α) : Prop :=
  match l with
  | none => S = ∅
  | some y => E y = mass E score S 0

lemma LogMass.at (hE : Exponential E) {S : Finset ι} {l : Option α} (h : LogMass E score S l) (m : α) :
    expFrom E l m = mass E score S 0 * E (-m) := by
  cases l with
  | none =>
    obtain rfl : S = ∅ := h
    rw [mass_empty, zero_mul]
    rfl
  | some y =>
    have hy : E y = mass E score S 0 := h
    rw [← hy]
    exact hE.sub y m

variable [IsStrictOrderedRing α]

lemma Gathered.Holds.logMass (hE : Exponential E) (hlog : ∀ y, 0 < y → E (log y) = y) {r : Gathered δ α} {S : Finset ι}
    (h : r.Holds E score value S) :
    LogMass E score S (if 0 < r.denom then r.max.map fun m => m + log r.denom else none) := by
  split
  · rename_i hpos
    obtain ⟨max, denom, _⟩ := r
    cases max with
    | none => exact absurd h.2.1 (ne_of_gt hpos)
    | some m =>
      show E (m + log denom) = _
      have hshift : mass E score S m * E (m - 0) = mass E score S 0 := mass_shift hE S m 0
      rw [sub_zero] at hshift
      have hdenom : denom = mass E score S m := h.1
      rw [hE.add, hlog denom hpos, hdenom, mul_comm, hshift]
  · rename_i hzero
    by_contra hne
    exact hzero (h.denom_pos hE (nonempty_iff_ne_empty.mpr hne))

lemma attention_parts [DecidableEq ι] (hE : Exponential E) (hlog : ∀ y, 0 < y → E (log y) = y) {parts : Finset σ}
    {part : σ → Finset ι} (hdisjoint : (parts : Set σ).PairwiseDisjoint part) {l : σ → Option α}
    (hl : ∀ s ∈ parts, LogMass E score (part s) (l s)) (hS : (parts.biUnion part).Nonempty) (m : α) (d : δ) :
    ∑ s ∈ parts, expFrom E (l s) (m + log (∑ s ∈ parts, expFrom E (l s) m)) * attention E score value (part s) d =
      attention E score value (parts.biUnion part) d := by
  have hmass : ∑ s ∈ parts, expFrom E (l s) m = mass E score (parts.biUnion part) 0 * E (-m) := by
    rw [← mass_parts hdisjoint, sum_mul]
    exact sum_congr rfl fun s hs => (hl s hs).at hE m
  have hpos : 0 < mass E score (parts.biUnion part) 0 := mass_pos hE hS 0
  have htotal : E (-(m + log (∑ s ∈ parts, expFrom E (l s) m))) = (mass E score (parts.biUnion part) 0)⁻¹ := by
    have hsum : 0 < ∑ s ∈ parts, expFrom E (l s) m := by
      rw [hmass]
      exact mul_pos hpos (hE.pos _)
    have hone : E (m + log (∑ s ∈ parts, expFrom E (l s) m)) = mass E score (parts.biUnion part) 0 := by
      rw [hE.add, hlog _ hsum, hmass, mul_comm, mul_assoc, ← hE.add, neg_add_cancel, hE.zero, mul_one]
    have hinv := hE.add (m + log (∑ s ∈ parts, expFrom E (l s) m)) (-(m + log (∑ s ∈ parts, expFrom E (l s) m)))
    rw [add_neg_cancel, hE.zero, hone] at hinv
    exact eq_inv_of_mul_eq_one_right hinv.symm
  have hpart (s : σ) (hs : s ∈ parts) :
      expFrom E (l s) (m + log (∑ s ∈ parts, expFrom E (l s) m)) * attention E score value (part s) d =
        moment E score value (part s) 0 d * (mass E score (parts.biUnion part) 0)⁻¹ := by
    rw [(hl s hs).at hE, htotal, ← moment_div_mass hE]
    rcases (part s).eq_empty_or_nonempty with hempty | hne
    · simp [hempty]
    · have hmass_ne : mass E score (part s) 0 ≠ 0 := ne_of_gt (mass_pos hE hne 0)
      field_simp
  rw [sum_congr rfl hpart, ← sum_mul, moment_parts hdisjoint, ← moment_div_mass hE, div_eq_mul_inv]

end

end VKernels.SplitSoftmax
