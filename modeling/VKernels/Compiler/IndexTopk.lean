import VKernels.Lib.FloatValues
import VKernels.Lib.RankedLanes
import Mathlib.Algebra.BigOperators.Group.Finset.Basic
import Mathlib.Algebra.Field.Rat
import Mathlib.Algebra.Order.Ring.Rat

/-!
# The fixed-count selection of the indexer

The reference body of `index_topk`: ranks by counting, a table of `k` indices filled at the ranks, and the scores
over the norm of the valid ones. A score is any floating-point value; the finite ones are exact.

* `Scored` — a valid position whose score is not NaN.
* `Selects` — what the body is for.

## Results

* `indexTopk_eq` — what the body writes: its candidates, best first, then the padding.
* `indexTopk_congr` — nothing at or beyond the valid count has a part in it.
* `index_topk_exact_iff` — the body selects among the scored positions exactly when no valid score is infinite:
  the candidate test is `isfinite`, which drops the infinities with the NaNs.
-/

namespace VKernels.Compiler

open TopK
open List hiding countBefore lt_asymm

section

variable {R : Type} [LinearOrder R]

/-- `max(0, min(vc, m))`. -/
def validCount (m : ℕ) (valid : ℤ) : ℕ := (max 0 (min valid m)).toNat

/-- `cand = valid_mask & finite`. -/
def candidate (row : ℕ → Fp R) (vc i : ℕ) : Bool := decide (i < vc) && (row i).isFinite

/-- `rank = gt.sum(axis=1) + eq_lower.sum(axis=1)`. -/
def rankOf (m : ℕ) (row : ℕ → Fp R) (vc j : ℕ) : ℕ :=
  (range m).countP (fun i => (row i).gt (row j) && candidate row vc i) +
    (range m).countP fun i => (row i).eq (row j) && candidate row vc i && decide (i < j)

/-- `np.nonzero(cand & (rank < k))`. -/
def selIdx (m k : ℕ) (row : ℕ → Fp R) (vc : ℕ) : List ℕ :=
  (range m).filter fun j => candidate row vc j && decide (rankOf m row vc j < k)

/-- `row[j] / norm`, for a positive norm. -/
def overNorm [Div R] (norm : R) : Fp R → Fp R
  | .fin x => .fin (x / norm)
  | s => s

/-- `np.sqrt((valid_finite**2).sum())`, 0 where there is none. -/
def validNorm [Field R] (sqrt : R → R) (row : ℕ → Fp R) (vc : ℕ) : R :=
  let squares := (range vc).filterMap fun i =>
    match row i with
    | .fin x => some (x * x)
    | _ => none
  if squares = [] then 0 else sqrt squares.sum

/-- `_body_index_topk` for one row: the index row and the bias row. -/
def indexTopk [Field R] (sqrt : R → R) (m k : ℕ) (row : ℕ → Fp R) (valid : ℤ) : List ℤ × List (Fp R) :=
  let vc := validCount m valid
  let rank := rankOf m row vc
  let sel := selIdx m k row vc
  let norm := validNorm sqrt row vc
  let idxRow := scatter rank (fun j : ℕ => (j : ℤ)) sel (replicate k (-1))
  let zeros := replicate k (Fp.fin 0)
  let biasRow := if 0 < norm then scatter rank (fun j => overNorm norm (row j)) sel zeros else zeros
  (idxRow, biasRow)

def Scored (row : ℕ → Fp R) (vc i : ℕ) : Prop := i < vc ∧ (row i).isNaN = false

instance (row : ℕ → Fp R) (vc : ℕ) : DecidablePred (Scored row vc) := fun _ => inferInstanceAs (Decidable (_ ∧ _))

/-- The scored positions by score descending, index ascending. -/
def bestScored (m : ℕ) (row : ℕ → Fp R) (vc : ℕ) : List ℕ := ranked (fun i => decide (Scored row vc i)) m row

structure Selects [Field R] (sqrt : R → R) (m k : ℕ) (row : ℕ → Fp R) (valid : ℤ) : Prop where
  /-- The candidates are the scored positions. -/
  candidates : ∀ i, candidate row (validCount m valid) i = true ↔ Scored row (validCount m valid) i
  /-- Each rank below their number belongs to one of them. -/
  ranks : Set.BijOn (rankOf m row (validCount m valid)) {i | Scored row (validCount m valid) i}
    {r | r < (bestScored m row (validCount m valid)).length}
  /-- The best `k`, then the padding. -/
  indices : (indexTopk sqrt m k row valid).1 =
    ((bestScored m row (validCount m valid)).take k).map (fun j : ℕ => (j : ℤ)) ++
      replicate (k - (bestScored m row (validCount m valid)).length) (-1)
  /-- A padding slot has bias 0. -/
  padding : ∀ t < k, (bestScored m row (validCount m valid)).length ≤ t →
    (indexTopk sqrt m k row valid).2[t]? = some (.fin 0)
  /-- No position at or beyond the valid count has a part in the result. -/
  unread : ∀ row', (∀ i < validCount m valid, row' i = row i) →
    indexTopk sqrt m k row' valid = indexTopk sqrt m k row valid

end

/-! ## Candidates and ranks -/

section

variable {R : Type} {m k vc : ℕ} {row row' : ℕ → Fp R}

lemma validCount_le (m : ℕ) (valid : ℤ) : validCount m valid ≤ m := by
  unfold validCount
  omega

lemma candidate_iff {i : ℕ} : candidate row vc i = true ↔ i < vc ∧ (row i).isFinite = true := by
  simp [candidate]

lemma not_nan_of_candidate {i : ℕ} (h : candidate row vc i = true) : (row i).isNaN = false := by
  obtain ⟨-, hfinite⟩ := candidate_iff.mp h
  cases hi : row i <;> simp_all [Fp.isFinite, Fp.isNaN]

lemma candidate_congr (h : ∀ i < vc, row' i = row i) : candidate row' vc = candidate row vc := by
  funext i
  by_cases hi : i < vc
  · simp [candidate, h i hi]
  · simp [candidate, hi]

variable [LinearOrder R]

lemma rankOf_candidate {j : ℕ} (hj : candidate row vc j = true) :
    rankOf m row vc j = countBefore (candidate row vc) m row j := by
  have hnan := not_nan_of_candidate hj
  unfold rankOf countBefore
  induction range m with
  | nil => rfl
  | cons i l ih =>
    simp only [countP_cons]
    by_cases hi : candidate row vc i = true
    · have hinan := not_nan_of_candidate hi
      rcases lt_trichotomy (row j) (row i) with hlt | heq | hgt
      · have : Beats row i j := .inl hlt
        simp only [Fp.gt, Fp.eq, hi, hnan, hinan, hlt, hlt.ne', this] at ih ⊢
        simp at ih ⊢
        omega
      · have hbeats : Beats row i j ↔ i < j := by
          unfold Beats
          simp [heq]
        simp only [Fp.gt, Fp.eq, hi, hnan, ← heq, hbeats] at ih ⊢
        simp at ih ⊢
        omega
      · have : ¬Beats row i j := by
          rintro (h | ⟨h, -⟩)
          · exact lt_asymm h hgt
          · exact hgt.ne h
        simp only [Fp.gt, Fp.eq, hi, hnan, hinan, hgt.ne, not_lt_of_gt hgt, this] at ih ⊢
        simp at ih ⊢
        omega
    · simp only [hi] at ih ⊢
      simp at ih ⊢
      omega

end

/-! ## The body -/

section

variable {R : Type} [Field R] {sqrt : R → R} {m k : ℕ} {row row' : ℕ → Fp R} {valid : ℤ}

lemma validNorm_congr {vc : ℕ} (h : ∀ i < vc, row' i = row i) : validNorm sqrt row' vc = validNorm sqrt row vc := by
  have hsquares : ((range vc).filterMap fun i => match row' i with | .fin x => some (x * x) | _ => none) =
      (range vc).filterMap fun i => match row i with | .fin x => some (x * x) | _ => none :=
    filterMap_congr fun i hi => by rw [h i (mem_range.mp hi)]
  unfold validNorm
  rw [hsquares]

lemma validNorm_eq {vc : ℕ} (hzero : sqrt 0 = 0) :
    validNorm sqrt row vc = sqrt (∑ i ∈ Finset.range vc, (row i).finitePart * (row i).finitePart) := by
  have hsum : ((range vc).filterMap fun i => match row i with | .fin x => some (x * x) | _ => none).sum =
      ∑ i ∈ Finset.range vc, (row i).finitePart * (row i).finitePart := by
    induction vc with
    | zero => rfl
    | succ n ih =>
      rw [range_succ, filterMap_append, sum_append, ih, Finset.sum_range_succ]
      cases hn : row n <;> simp [hn, Fp.finitePart]
  unfold validNorm
  dsimp only
  split
  · next hnone => rw [← hsum, hnone, sum_nil, hzero]
  · rw [hsum]

variable [LinearOrder R]

/-- The bias of a selected position. -/
def biasOf (sqrt : R → R) (row : ℕ → Fp R) (vc j : ℕ) : Fp R :=
  if 0 < validNorm sqrt row vc then overNorm (validNorm sqrt row vc) (row j) else .fin 0

lemma indexTopk_eq : indexTopk sqrt m k row valid =
    (((ranked (candidate row (validCount m valid)) m row).take k).map (fun j : ℕ => (j : ℤ)) ++
      replicate (k - (ranked (candidate row (validCount m valid)) m row).length) (-1),
    ((ranked (candidate row (validCount m valid)) m row).take k).map (biasOf sqrt row (validCount m valid)) ++
      replicate (k - (ranked (candidate row (validCount m valid)) m row).length) (.fin 0)) := by
  have hpos : ∀ j < m, candidate row (validCount m valid) j = true →
      rankOf m row (validCount m valid) j = countBefore (candidate row (validCount m valid)) m row j :=
    fun j _ hj => rankOf_candidate hj
  unfold indexTopk selIdx
  dsimp only
  rw [scatter_ranked hpos]
  refine congrArg _ ?_
  by_cases hnorm : 0 < validNorm sqrt row (validCount m valid)
  · rw [if_pos hnorm, scatter_ranked hpos]
    refine congrArg (· ++ _) (map_congr_left fun j _ => ?_)
    rw [biasOf, if_pos hnorm]
  · have hzero : biasOf sqrt row (validCount m valid) = fun _ => .fin 0 := by
      funext j
      rw [biasOf, if_neg hnorm]
    rw [if_neg hnorm, hzero, map_const', replicate_append_replicate, length_take]
    refine congrArg (replicate · _) ?_
    omega

lemma indexTopk_congr (h : ∀ i < validCount m valid, row' i = row i) :
    indexTopk sqrt m k row' valid = indexTopk sqrt m k row valid := by
  have hbelow : ∀ i, candidate row (validCount m valid) i = true → row' i = row i :=
    fun i hi => h i (candidate_iff.mp hi).1
  have hranked : ranked (candidate row (validCount m valid)) m row' = ranked (candidate row (validCount m valid)) m row :=
    ranked_congr fun i _ hi => hbelow i hi
  rw [indexTopk_eq, indexTopk_eq, candidate_congr h, hranked]
  refine congrArg _ (congrArg (· ++ _) (map_congr_left fun j hj => ?_))
  have hj := (mem_ranked.mp (mem_of_mem_take hj)).2
  rw [biasOf, biasOf, validNorm_congr h, hbelow j hj]

/-- **The selection is exact** when and only when every valid score is finite or NaN. -/
theorem index_topk_exact_iff (sqrt : R → R) (m k : ℕ) (row : ℕ → Fp R) (valid : ℤ) : Selects sqrt m k row valid ↔
    ∀ i < validCount m valid, (row i).isFinite = true ∨ (row i).isNaN = true := by
  constructor
  · intro h i hi
    by_contra hneither
    rw [not_or] at hneither
    have hscored : Scored row (validCount m valid) i := ⟨hi, by simpa using hneither.2⟩
    exact hneither.1 (candidate_iff.mp ((h.candidates i).mpr hscored)).2
  · intro h
    have hcand : ∀ i, candidate row (validCount m valid) i = true ↔ Scored row (validCount m valid) i := by
      intro i
      refine ⟨fun hi => ⟨(candidate_iff.mp hi).1, not_nan_of_candidate hi⟩, fun ⟨hi, hnan⟩ => ?_⟩
      refine candidate_iff.mpr ⟨hi, (h i hi).resolve_right ?_⟩
      simp [hnan]
    have hset : candidate row (validCount m valid) = fun i => decide (Scored row (validCount m valid) i) := by
      funext i
      rw [Bool.eq_iff_iff, hcand i, decide_eq_true_iff]
    refine ⟨hcand, ?_, ?_, ?_, fun row' hrow => indexTopk_congr hrow⟩
    · have hbij := countBefore_bijOn (p := candidate row (validCount m valid)) (n := m) (f := row)
      have hdomain : {i | Scored row (validCount m valid) i} =
          {j | j < m ∧ candidate row (validCount m valid) j = true} := by
        ext i
        rw [Set.mem_ofPred_eq, Set.mem_ofPred_eq, ← hcand i]
        refine ⟨fun hi => ⟨(candidate_iff.mp hi).1.trans_le (validCount_le m valid), hi⟩, And.right⟩
      rw [hdomain, bestScored, ← hset]
      exact hbij.congr fun j hj => (rankOf_candidate hj.2).symm
    · rw [indexTopk_eq, bestScored, ← hset]
    · intro t ht hlen
      rw [bestScored, ← hset] at hlen
      rw [indexTopk_eq]
      rw [getElem?_append_right (by simp; omega), getElem?_replicate, if_pos (by simp; omega)]

/-- Scores 1 and 2, both valid. -/
theorem index_topk_exact_two : Selects id 2 1 (fun i => Fp.fin ((i : ℚ) + 1)) 2 :=
  (index_topk_exact_iff id 2 1 (fun i => Fp.fin ((i : ℚ) + 1)) 2).mpr fun _ _ => .inl rfl

/-- Of the scores `+inf` and 1 the second is chosen. -/
theorem index_topk_infinite : ¬Selects id 2 1 (fun i => if i = 0 then Fp.posInf else Fp.fin (1 : ℚ)) 2 := by
  intro h
  have := (h.candidates 0).mpr ⟨by decide, rfl⟩
  revert this
  decide

end

end VKernels.Compiler
