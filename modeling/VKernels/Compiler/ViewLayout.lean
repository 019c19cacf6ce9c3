import VKernels.Compiler.OperatorIR
import VKernels.Lib.RowMajor
import Mathlib.Algebra.BigOperators.Ring.List

/-!
# Reshaped views

`TensorValue.view` element for element, for every layout with one stride a dimension.

* `TensorValue.elementAddr` — the storage address of the `k`-th element in row-major order.

## Results

* `isContiguous_dense` — the contiguity check reads as dense strides.
* `kept_fillStrides` — the squeeze path keeps the strides it copies, as long as none of them is 0.
* `view_exact_iff` — a reshape is exact unless the squeeze path meets a stride of 0, which it takes
  for the mark it has put on the dimensions of one entry.
-/

namespace VKernels.Compiler

open Strided
open List
open Prod (fst snd)

namespace TensorValue

variable (tv : TensorValue)

def elementAddr (k : ℕ) : ℕ := tv.offset + dot (unravel tv.shape k) tv.strides

/-- Every element stays where it is. -/
def ViewExact (newShape : List ℕ) : Prop :=
  ∀ (name : String) (tv' : TensorValue), tv.view name newShape = .ok tv' →
    tv'.storageId = tv.storageId ∧ ∀ k < tv.numel, tv'.elementAddr k = tv.elementAddr k

/-- The same extents in the same order, up to those of 1. -/
def Squeezes (newShape : List ℕ) : Prop :=
  (kept tv.shape tv.strides).map fst = newShape.filter (· ≠ 1)

instance (newShape : List ℕ) : Decidable (tv.Squeezes newShape) := by
  unfold Squeezes
  infer_instance

/-! ## Contiguity -/

lemma contiguousFrom_append (l : List (ℕ × ℕ)) (expected d s : ℕ) : contiguousFrom expected (l ++ [(d, s)]) = true ↔
      contiguousFrom expected l = true ∧ (d = 1 ∨ s = expected * (l.map fst).prod) := by
  induction l generalizing expected with
  | nil =>
    by_cases h : d ≠ 1 ∧ s ≠ expected
    · simp [contiguousFrom, h]
    · simp only [nil_append, contiguousFrom, h, if_false, map_nil, prod_nil, mul_one, true_and, true_iff]
      omega
  | cons p l ih =>
    obtain ⟨d', s'⟩ := p
    rw [cons_append]
    unfold contiguousFrom
    by_cases h : d' ≠ 1 ∧ s' ≠ expected
    · simp [h]
    · rw [if_neg h, if_neg h, ih, map_cons, prod_cons, mul_assoc]

variable {shape strides newShape : List ℕ}

lemma contiguous_iff_dense (hlen : strides.length = shape.length) :
    contiguousFrom 1 (shape.zip strides).reverse = true ↔ Strided.Dense shape strides := by
  induction shape generalizing strides with
  | nil => simp [contiguousFrom, Strided.Dense]
  | cons d shape ih =>
    cases strides with
    | nil => cases hlen
    | cons s strides =>
      have hlen := Nat.succ.inj hlen
      have hdims : ((shape.zip strides).reverse.map fst).prod = shape.prod := by
        rw [map_reverse, map_fst_zip (by omega), prod_reverse]
      rw [zip_cons_cons, reverse_cons, contiguousFrom_append, ih hlen, hdims, one_mul]
      exact and_comm

lemma isContiguous_dense (hlen : tv.strides.length = tv.shape.length) :
    tv.isContiguous = true ↔ Strided.Dense tv.shape tv.strides := by
  unfold isContiguous
  rw [← contiguous_iff_dense hlen, zip_eq_zipWith, zip_eq_zipWith, reverse_zipWith hlen.symm]

/-! ## The squeeze path -/

lemma keptStrides_length (newShape : List ℕ) (old : List (ℕ × ℕ)) :
    (keptStrides newShape old).length = newShape.length := by
  induction newShape generalizing old with
  | nil => rfl
  | cons d newShape ih =>
    unfold keptStrides
    split <;> simp [ih]

lemma fillStrides_length (l : List ℕ) : (fillStrides l).length = l.length := by
  induction l with
  | nil => rfl
  | cons s l ih => simp [fillStrides, ih]

lemma fillStrides_pos (l : List ℕ) : ∀ s ∈ fillStrides l, 0 < s := by
  induction l with
  | nil => simp [fillStrides]
  | cons s l ih =>
    intro x hx
    rcases mem_cons.mp hx with rfl | hx
    · by_cases h0 : s = 0
      · rw [if_pos h0]
        cases hfill : fillStrides l with
        | nil => exact one_pos
        | cons y ys => exact ih y (by simp [hfill])
      · rw [if_neg h0]
        exact pos_of_ne_zero h0
    · exact ih x hx

lemma kept_fst (hlen : strides.length = shape.length) : (kept shape strides).map fst = shape.filter (· ≠ 1) := by
  induction shape generalizing strides with
  | nil => rfl
  | cons d shape ih =>
    cases strides with
    | nil => cases hlen
    | cons s strides =>
      have hrest := ih (Nat.succ.inj hlen)
      by_cases hd : d = 1
      · subst hd
        rw [kept_one, hrest]
        simp
      · rw [kept_cons hd, map_cons, hrest]
        simp [hd]

lemma kept_snd_mem {s : ℕ} (h : s ∈ (kept shape strides).map snd) : s ∈ strides := by
  obtain ⟨p, hp, rfl⟩ := mem_map.mp h
  exact (of_mem_zip (mem_filter.mp hp).1).2

lemma kept_fillStrides {old : List (ℕ × ℕ)}
    (hdims : old.map fst = newShape.filter (· ≠ 1)) (hpos : ∀ p ∈ old, p.2 ≠ 0) :
    kept newShape (fillStrides (keptStrides newShape old)) = old := by
  induction newShape generalizing old with
  | nil =>
    rw [filter_nil, map_eq_nil_iff] at hdims
    subst hdims
    rfl
  | cons d newShape ih =>
    by_cases hd : d = 1
    · subst hd
      have hdims : old.map fst = newShape.filter (· ≠ 1) := by simpa using hdims
      unfold keptStrides
      rw [if_pos rfl]
      unfold fillStrides
      exact ih hdims hpos
    · cases old with
      | nil => simp [hd] at hdims
      | cons p old =>
        obtain ⟨d', s⟩ := p
        have hcons : d' :: old.map fst = d :: newShape.filter (· ≠ 1) := by simpa [hd] using hdims
        obtain ⟨rfl, htail⟩ := cons.inj hcons
        have hs : s ≠ 0 := hpos _ mem_cons_self
        unfold keptStrides
        rw [if_neg hd]
        unfold fillStrides
        rw [kept_cons hd]
        show (d', if s = 0 then _ else s) :: kept newShape (fillStrides (keptStrides newShape old)) = _
        rw [if_neg hs, ih htail fun q hq => hpos q (mem_cons_of_mem _ hq)]

/-! ## Exact views -/

lemma strides_ext {a b : List ℕ} (ha : a.length = shape.length) (hb : b.length = shape.length)
    (hshape : ∀ d ∈ shape, 2 ≤ d)
    (h : ∀ k < shape.prod, dot (unravel shape k) a = dot (unravel shape k) b) : a = b := by
  induction shape generalizing a b with
  | nil => rw [length_eq_zero_iff.mp ha, length_eq_zero_iff.mp hb]
  | cons d shape ih =>
    obtain ⟨s, a, rfl⟩ := exists_of_length_succ a ha
    obtain ⟨_, b, rfl⟩ := exists_of_length_succ b hb
    have hd : 2 ≤ d := hshape d mem_cons_self
    have hrest : ∀ e ∈ shape, 2 ≤ e := fun e he => hshape e (mem_cons_of_mem _ he)
    have hpos : 0 < shape.prod := prod_pos fun e he => by
      have := hrest e he
      omega
    have hprod : (d :: shape).prod = d * shape.prod := prod_cons
    have htwo : 2 * shape.prod ≤ d * shape.prod := Nat.mul_le_mul_right _ hd
    -- the first slice tells the strides behind, the start of the second the stride in front
    have htail : a = b := by
      refine ih (Nat.succ.inj ha) (Nat.succ.inj hb) hrest fun k hk => ?_
      have hk' := h k (by omega)
      simp only [unravel, dot_cons, Nat.div_eq_of_lt hk, Nat.mod_eq_of_lt hk, Nat.zero_mul, Nat.zero_add] at hk'
      exact hk'
    have hhead := h shape.prod (by omega)
    simp only [unravel, dot_cons, Nat.div_self hpos, Nat.mod_self, dot_zero, Nat.one_mul, Nat.add_zero] at hhead
    rw [hhead, htail]

variable {tv}

lemma view_ok {name : String} {tv' : TensorValue}
    (h : tv.view name newShape = .ok tv') : tv.shape.prod = newShape.prod ∧
      (tv.Squeezes newShape ∧ tv' = { tv with
          name := name
          shape := newShape
          strides := fillStrides (keptStrides newShape (kept tv.shape tv.strides)) } ∨
        ¬ tv.Squeezes newShape ∧ tv.isContiguous = true ∧
          tv' = { tv with name := name, shape := newShape, strides := rowMajor newShape }) := by
  unfold view at h
  by_cases hnumel : tv.shape.prod = newShape.prod
  · refine ⟨hnumel, ?_⟩
    rw [if_neg (not_not_intro hnumel)] at h
    by_cases hsq : tv.Squeezes newShape
    · refine .inl ⟨hsq, ?_⟩
      change (if tv.Squeezes newShape then _ else _) = _ at h
      rw [if_pos hsq] at h
      cases h
      rfl
    · refine .inr ⟨hsq, ?_⟩
      change (if tv.Squeezes newShape then _ else _) = _ at h
      rw [if_neg hsq] at h
      by_cases hcont : tv.isContiguous = true
      · rw [if_pos hcont] at h
        cases h
        exact ⟨hcont, rfl⟩
      · rw [if_neg hcont] at h
        cases h
  · rw [if_pos hnumel] at h
    cases h

lemma view_squeeze (name : String) (hlen : tv.strides.length = tv.shape.length)
    (hsq : tv.Squeezes newShape) : tv.view name newShape = .ok { tv with
      name := name
      shape := newShape
      strides := fillStrides (keptStrides newShape (kept tv.shape tv.strides)) } := by
  have hnumel : tv.shape.prod = newShape.prod := by
    have hnew : (newShape.filter (· ≠ 1)).prod = newShape.prod := by
      rw [← kept_fst (rowMajor_length newShape), kept_prod (rowMajor_length newShape)]
    rw [← kept_prod hlen, hsq, hnew]
  unfold view
  rw [if_neg (not_not_intro hnumel)]
  exact if_pos hsq

/-- **Reshapes.**  Every accepted reshape keeps the address of every element exactly when, on the
    squeeze path, there is no element or no dimension of more than one entry has stride 0. -/
theorem view_exact_iff (hlen : tv.strides.length = tv.shape.length) (newShape : List ℕ) : tv.ViewExact newShape ↔
      (tv.Squeezes newShape → tv.numel = 0 ∨ ∀ p ∈ tv.shape.zip tv.strides, p.1 ≠ 1 → p.2 ≠ 0) := by
  have hstrides : (fillStrides (keptStrides newShape (kept tv.shape tv.strides))).length =
      newShape.length := by rw [fillStrides_length, keptStrides_length]
  constructor
  · intro hexact hsq
    by_cases hzero : tv.numel = 0
    · exact .inl hzero
    refine .inr fun p hp hone hstride => ?_
    have haddr := (hexact "" _ (view_squeeze "" hlen hsq)).2
    have hnumel := (view_ok (view_squeeze "" hlen hsq)).1
    -- both layouts, on the dimensions that count
    have hdims : (kept newShape (fillStrides (keptStrides newShape (kept tv.shape tv.strides)))).map
        fst = (kept tv.shape tv.strides).map fst := (kept_fst hstrides).trans hsq.symm
    have hkept : ∀ k < ((kept tv.shape tv.strides).map fst).prod,
        dot (unravel ((kept tv.shape tv.strides).map fst) k) ((kept newShape
          (fillStrides (keptStrides newShape (kept tv.shape tv.strides)))).map snd) =
        dot (unravel ((kept tv.shape tv.strides).map fst) k) ((kept tv.shape tv.strides).map snd) := by
      intro k hk
      rw [kept_prod hlen] at hk
      have hk' := haddr k hk
      unfold elementAddr at hk'
      rw [dot_kept hlen hk, dot_kept hstrides (hnumel ▸ hk), hdims] at hk'
      exact add_left_cancel hk'
    have htwo : ∀ d ∈ (kept tv.shape tv.strides).map fst, 2 ≤ d := by
      intro d hd
      rw [kept_fst hlen] at hd
      obtain ⟨hmem, hd1⟩ := mem_filter.mp hd
      have hd0 : d ≠ 0 := fun h0 => hzero (prod_eq_zero_iff.mpr (h0 ▸ hmem))
      have hd1 : d ≠ 1 := by simpa using hd1
      omega
    have heq := strides_ext (by simpa using congrArg length hdims) (by simp) htwo hkept
    have hmem : p.2 ∈ (kept tv.shape tv.strides).map snd :=
      mem_map_of_mem (mem_filter.mpr ⟨hp, by simpa using hone⟩)
    rw [← heq] at hmem
    have := fillStrides_pos _ _ (kept_snd_mem hmem)
    omega
  · intro hcond _ _ hview
    obtain ⟨hnumel, ⟨hsq, rfl⟩ | ⟨_, hcont, rfl⟩⟩ := view_ok hview
    · refine ⟨rfl, fun k hk => ?_⟩
      rcases hcond hsq with hzero | hpos
      · omega
      · have hold : ∀ p ∈ kept tv.shape tv.strides, p.2 ≠ 0 := by
          intro p hp
          obtain ⟨hmem, hone⟩ := mem_filter.mp hp
          exact hpos p hmem (by simpa using hone)
        unfold elementAddr
        rw [dot_kept hlen hk, dot_kept hstrides (hnumel ▸ hk), kept_fillStrides hsq hold]
    · refine ⟨rfl, fun k hk => ?_⟩
      unfold elementAddr
      rw [dot_dense hlen ((isContiguous_dense tv hlen).mp hcont) hk]
      rw [dot_unravel (hnumel ▸ hk)]

/-- A row of a transposed matrix, squeezed: strides 1 and 3. -/
theorem view_exact_transposed : (TensorValue.mk "w" [1, 2, 3] [6, 1, 2] 0 4).ViewExact [2, 3, 1] :=
  (@view_exact_iff ⟨"w", [1, 2, 3], [6, 1, 2], 0, 4⟩ rfl [2, 3, 1]).mpr fun _ => .inr (by decide)

/-- A row repeated twice by a stride of 0 loses the repetition. -/
theorem view_broadcast_lost : ¬ (TensorValue.mk "b" [2, 3] [0, 1] 0 0).ViewExact [2, 3, 1] := by
  intro h
  have haddr := (h "v" ⟨"v", [2, 3, 1], [1, 1, 1], 0, 0⟩ rfl).2 3 (by decide)
  exact absurd haddr (by decide)

end TensorValue

end VKernels.Compiler
