import VKernels.Compiler.IndexTopk
import VKernels.Lib.Blocks
import VKernels.Lib.TileLoops
import Mathlib.Algebra.BigOperators.WithTop
import Mathlib.Analysis.Real.Sqrt

/-!
# The fixed-count selection on the device

`_t_index_topk` for one row, over exact scores with the infinities and NaN, beside the reference body of `index_topk`.

* `tIndexTopk` — the tiled sweeps: the norm, the ranks and the stores at the ranks.
* `Agreeable` — the rows on which the two bodies agree.

## Results

* `tIndexTopk_eq` — what the device writes: the scores that are not NaN, best first, each over the norm.
* `index_topk_bodies_iff` — the two bodies leave the same rows exactly on agreeable ones.
-/

namespace VKernels

open List hiding le_antisymm max mem_range min range sum_nonneg sum_range_succ
open Real (sqrt sqrt_zero)

/-! ## Values -/

namespace Fp

open Finset

section

variable {R : Type}

/-- `s * s`. -/
def square [Mul R] : Fp R → Fp R
  | nan => nan
  | fin x => fin (x * x)
  | _ => posInf

variable [LinearOrder R]

def root [Zero R] (sqrt : R → R) : Fp R → Fp R
  | fin x => if x < 0 then nan else fin (sqrt x)
  | posInf => posInf
  | _ => nan

/-- `a / b`, where a zero divisor has no sign bit. -/
def div [Zero R] [Div R] : Fp R → Fp R → Fp R
  | nan, _ => nan
  | _, nan => nan
  | fin x, fin y => if y = 0 then (if x = 0 then nan else if 0 < x then posInf else negInf) else fin (x / y)
  | fin _, _ => fin 0
  | posInf, fin y => if y < 0 then negInf else posInf
  | negInf, fin y => if y < 0 then posInf else negInf
  | _, _ => nan

end

section

variable {R : Type}

def ofTop : WithTop R → Fp R
  | ⊤ => posInf
  | (x : R) => fin x

variable [AddCommMonoid R]

lemma add_ofTop (a b : WithTop R) : (ofTop a).add (ofTop b) = ofTop (a + b) := by
  cases a <;> cases b <;> rfl

lemma ofTop_zero : ofTop (0 : WithTop R) = fin 0 := rfl

lemma foldl_add_ofTop (f : ℕ → WithTop R) (a : WithTop R) (n : ℕ) :
    (List.range n).foldl (fun s i => s.add (ofTop (f i))) (ofTop a) = ofTop (a + ∑ i ∈ range n, f i) := by
  induction n with
  | zero => simp
  | succ n ih =>
    rw [range_succ, foldl_concat, ih, add_ofTop, sum_range_succ, add_assoc]

end

end Fp

namespace Compiler

open Finset TopK TileLoops

variable {R : Type} [Field R] [LinearOrder R]

/-! ## The body -/

section

variable (sqrt : R → R) (m k kp tile vc : ℕ) (row : ℕ → Fp R)

/-- `t0 = 0`, `while t0 < M`, `t0 += TILE`: the values of `t0`. -/
def tileStarts : List ℕ := (List.range ((m + tile - 1) / tile)).map (· * tile)

/-- `t0 + tl.arange(0, TILE)`. -/
def tileLanes (t0 : ℕ) : List ℕ := (List.range tile).map (t0 + ·)

/-- `(offs < M) & (offs < vc)`. -/
def inPrefix (i : ℕ) : Bool := decide (i < m) && decide (i < vc)

/-- `tl.load(s_ptr + b * M + offs, mask=…, other=0.0)`. -/
def loadScore (i : ℕ) : Fp R := if inPrefix m vc i then row i else .fin 0

/-- `m & (s == s)`. -/
def observed (i : ℕ) : Bool := inPrefix m vc i && (loadScore m vc row i).eq (loadScore m vc row i)

/-- `nacc` of one lane. -/
def normAcc (lane : ℕ) : Fp R :=
  (tileStarts m tile).foldl (fun nacc t0 =>
    let sv := loadScore m vc row (t0 + lane)
    nacc.add (if sv.eq sv then sv.square else .fin 0)) (.fin 0)

/-- `tl.sqrt(tl.sum(nacc, axis=0))`. -/
def deviceNorm : Fp R :=
  ((List.range tile).foldl (fun (s : Fp R) lane => s.add (normAcc m tile vc row lane)) (.fin 0)).root sqrt

/-- `gt | eq`: position `j` counts against position `i`. -/
def outranks (i j : ℕ) : Bool :=
  let si := loadScore m vc row i
  let sj := loadScore m vc row j
  (sj.gt si && observed m vc row j && observed m vc row i) ||
    (sj.eq si && observed m vc row j && observed m vc row i && decide (j < i))

def deviceRank (i : ℕ) : ℕ :=
  (tileStarts m tile).foldl (fun rank t1 => rank + (tileLanes tile t1).countP (outranks m vc row i)) 0

/-- `ci & (rank < K)`. -/
def selected (i : ℕ) : Bool := observed m vc row i && decide (deviceRank m tile vc row i < k)

/-- `_t_index_topk` for one row, over what the two output rows hold before. -/
def tIndexTopk (valid : ℤ) (idx : List ℤ) (bias : List (Fp R)) : List ℤ × List (Fp R) :=
  let vc := (min (max valid 0) m).toNat
  let slots := (List.range kp).filter (· < k)
  let filled := (scatter id (fun _ => -1) slots idx, scatter id (fun _ => .fin 0) slots bias)
  let norm := deviceNorm sqrt m tile vc row
  let rank := deviceRank m tile vc row
  (tileStarts m tile).foldl (fun out t0 =>
    let sel := (tileLanes tile t0).filter (selected m k tile vc row)
    (scatter rank (fun i : ℕ => (i : ℤ)) sel out.1,
      scatter rank (fun i => (loadScore m vc row i).div norm) sel out.2)) filled

end

/-! ## Chunks -/

section

/-- A body that takes lanes chunk by chunk takes them all. -/
lemma foldl_tileStarts {S : Type} (body : S → List ℕ → S) (hnil : ∀ s, body s [] = s)
    (happend : ∀ s l l', body s (l ++ l') = body (body s l) l') (m tile : ℕ) (s : S) :
    (tileStarts m tile).foldl (fun s t0 => body s (tileLanes tile t0)) s =
      body s (List.range ((m + tile - 1) / tile * tile)) := by
  unfold tileStarts
  generalize (m + tile - 1) / tile = n
  rw [foldl_map]
  induction n with
  | zero => rw [Nat.zero_mul, List.range_zero, hnil, foldl_nil]
  | succ n ih =>
    rw [range_succ, foldl_concat, ih, Nat.succ_mul, List.range_add, happend]
    rfl

lemma le_tiles {m tile : ℕ} (htile : 0 < tile) : m ≤ (m + tile - 1) / tile * tile := by
  have := Nat.lt_div_mul_add htile (a := m + tile - 1)
  omega

end

/-! ## Ranks -/

section

variable {R : Type} [Field R] {m tile vc i j : ℕ} {row : ℕ → Fp R}

lemma loadScore_of_lt (hi : i < m) (hvc : i < vc) : loadScore m vc row i = row i := by
  simp [loadScore, inPrefix, hi, hvc]

variable [LinearOrder R]

lemma observed_iff : observed m vc row i = true ↔ (i < m ∧ i < vc) ∧ (row i).isNaN = false := by
  unfold observed
  by_cases h : i < m ∧ i < vc
  · rw [loadScore_of_lt h.1 h.2]
    simp [inPrefix, h, Fp.eq]
  · simp [inPrefix, h]

lemma outranks_eq (hi : observed m vc row i = true) (j : ℕ) :
    outranks m vc row i j = (observed m vc row j && decide (Beats row j i)) := by
  obtain ⟨⟨him, hivc⟩, hinan⟩ := observed_iff.mp hi
  by_cases hj : observed m vc row j = true
  · obtain ⟨⟨hjm, hjvc⟩, hjnan⟩ := observed_iff.mp hj
    unfold outranks Beats
    rw [loadScore_of_lt him hivc, loadScore_of_lt hjm hjvc, hi, hj]
    rw [Bool.eq_iff_iff]
    simp [Fp.gt, Fp.eq, hinan, hjnan]
    exact decide_eq_true_iff.symm
  · simp [outranks, hj]

lemma deviceRank_eq (htile : 0 < tile) (hi : observed m vc row i = true) :
    deviceRank m tile vc row i = countBefore (observed m vc row) m row i := by
  have hchunks : deviceRank m tile vc row i =
      0 + (List.range ((m + tile - 1) / tile * tile)).countP (outranks m vc row i) :=
    foldl_tileStarts (fun rank l => rank + l.countP _) (fun _ => rfl)
      (fun rank l l' => by rw [countP_append, add_assoc]) m tile 0
  have hpoint : outranks m vc row i = fun j => observed m vc row j && decide (Beats row j i) := funext (outranks_eq hi)
  rw [hchunks, hpoint, zero_add, countP_eq_length_filter, Blocks.filter_range_of_le ?_ (le_tiles htile), ← countP_eq_length_filter]
  · rfl
  · intro j hj
    exact (observed_iff.mp (Bool.and_eq_true_iff.mp hj).1).1.1

end

/-! ## The norm -/

section

variable {sqrt : R → R} {m tile vc : ℕ} {row : ℕ → Fp R}

/-- What a score adds to the square of the norm. -/
def squareOf : Fp R → WithTop R
  | .nan => 0
  | .fin x => (x * x : R)
  | _ => ⊤

lemma guarded_square (s : Fp R) : (if s.eq s then s.square else .fin 0) = Fp.ofTop (squareOf s) := by
  cases s <;> simp [Fp.eq, Fp.isNaN, Fp.square, squareOf, Fp.ofTop]

lemma normAcc_eq (lane : ℕ) : normAcc m tile vc row lane =
    Fp.ofTop (∑ t ∈ range ((m + tile - 1) / tile), squareOf (loadScore m vc row (t * tile + lane))) := by
  unfold normAcc tileStarts
  simp only [foldl_map, guarded_square]
  rw [← Fp.ofTop_zero, Fp.foldl_add_ofTop, zero_add]

lemma deviceNorm_eq (htile : 0 < tile) (hvc : vc ≤ m) :
    deviceNorm sqrt m tile vc row = (Fp.ofTop (∑ i ∈ range vc, squareOf (row i))).root sqrt := by
  have hlanes : ∑ lane ∈ range tile, ∑ t ∈ range ((m + tile - 1) / tile),
      squareOf (loadScore m vc row (t * tile + lane)) = ∑ i ∈ range vc, squareOf (row i) := by
    rw [sum_comm, sum_blocks (fun i => squareOf _)]
    have hprefix : range vc ⊆ range ((m + tile - 1) / tile * tile) :=
      range_subset_range.mpr (hvc.trans (le_tiles htile))
    refine (sum_subset hprefix fun i _ hi => ?_).symm.trans (sum_congr rfl fun i hi => ?_)
    · have hout : ¬i < vc := fun h => hi (mem_range.mpr h)
      simp [loadScore, inPrefix, hout, squareOf]
    · have hi : i < vc := mem_range.mp hi
      rw [loadScore_of_lt (hi.trans_le hvc) hi]
  unfold deviceNorm
  simp only [normAcc_eq]
  rw [← Fp.ofTop_zero, Fp.foldl_add_ofTop, zero_add, hlanes]

end

/-! ## What the device writes -/

section

variable {sqrt : R → R} {m k kp tile : ℕ} {row : ℕ → Fp R} {valid : ℤ}

lemma scatter_fill {T : Type} (x : T) (hkp : k ≤ kp) {out : List T} (hout : out.length = k) :
    scatter id (fun _ => x) ((List.range kp).filter (· < k)) out = replicate k x := by
  refine ext_getElem? fun s => ?_
  by_cases hs : s < k
  · have hinj : ∀ x ∈ (range kp).filter (· < k), ∀ y ∈ (range kp).filter (· < k), id x = id y → x = y :=
      fun x _ y _ h => h
    rw [scatter_get hinj out (hs.trans_eq hout.symm), getElem?_replicate, if_pos hs]
    have hmem : s ∈ (range kp).filter (· < k) := by
      simp
      omega
    cases hfind : ((List.range kp).filter _).find? fun y => decide (id y = s) with
    | none => exact absurd (find?_eq_none.mp hfind s hmem) (by simp)
    | some y => rfl
  · rw [getElem?_eq_none (by simp; omega), getElem?_eq_none (by simp; omega)]

lemma tIndexTopk_eq (htile : 0 < tile) (hkp : k ≤ kp) {idx : List ℤ} {bias : List (Fp R)} (hidx : idx.length = k)
    (hbias : bias.length = k) : tIndexTopk sqrt m k kp tile row valid idx bias =
      (((ranked (observed m (validCount m valid) row) m row).take k).map (fun j : ℕ => (j : ℤ)) ++
        replicate (k - (ranked (observed m (validCount m valid) row) m row).length) (-1),
      ((ranked (observed m (validCount m valid) row) m row).take k).map
          (fun j => (row j).div (deviceNorm sqrt m tile (validCount m valid) row)) ++
        replicate (k - (ranked (observed m (validCount m valid) row) m row).length) (.fin 0)) := by
  have hcount : (min (max valid 0) (m : ℤ)).toNat = validCount m valid := by
    unfold validCount
    omega
  have hsel : ∀ j, selected m k tile (validCount m valid) row j = true → j < m := by
    intro j hj
    exact (observed_iff.mp (Bool.and_eq_true_iff.mp hj).1).1.1
  have hpos : ∀ j < m, observed m (validCount m valid) row j = true →
      deviceRank m tile (validCount m valid) row j = countBefore (observed m (validCount m valid) row) m row j :=
    fun j _ hj => deviceRank_eq htile hj
  unfold tIndexTopk
  dsimp only
  rw [hcount, scatter_fill _ hkp hidx, scatter_fill _ hkp hbias]
  refine (foldl_tileStarts (fun (out : List ℤ × List (Fp R)) l => (scatter _ _ _ out.1,
    scatter _ _ _ out.2)) (fun _ => rfl) (fun out l l' => ?_) m tile _).trans ?_
  · simp [scatter, filter_append, foldl_append]
  · rw [Blocks.filter_range_of_le hsel (le_tiles htile)]
    refine Prod.ext (scatter_ranked hpos k (-1)) ((scatter_ranked hpos k (Fp.fin 0)).trans ?_)
    refine congrArg (· ++ _) (map_congr_left fun j hj => ?_)
    obtain ⟨⟨hjm, hjvc⟩, -⟩ := observed_iff.mp (mem_ranked.mp (mem_of_mem_take hj)).2
    rw [loadScore_of_lt hjm hjvc]

end

/-! ## Agreement -/

section

variable {m k kp tile vc : ℕ} {row : ℕ → Fp ℝ} {valid : ℤ}

/-- No slot, or finite scores that are not all zero; or, over a score of minus infinity, zeros enough for all slots. -/
def Agreeable (k vc : ℕ) (row : ℕ → Fp ℝ) : Prop :=
  k = 0 ∨
  ((∀ i < vc, row i ≠ .posInf ∧ row i ≠ .negInf) ∧
    ((∃ i < vc, (row i).isFinite = true) → ∃ i < vc, ∃ x, x ≠ 0 ∧ row i = .fin x)) ∨
  ((∃ i < vc, row i = .negInf) ∧ (∀ i < vc, row i ≤ .fin 0) ∧
    k ≤ (List.range vc).countP fun i => (row i).eq (.fin 0))

lemma validNorm_pos_iff : 0 < validNorm sqrt row vc ↔ ∃ i < vc, ∃ x, x ≠ 0 ∧ row i = .fin x := by
  rw [validNorm_eq sqrt_zero, Real.sqrt_pos, sum_pos_iff_of_nonneg fun _ _ => mul_self_nonneg _]
  refine exists_congr fun i => ?_
  rw [mem_range]
  refine and_congr_right fun _ => ?_
  cases row i <;> simp [Fp.finitePart, mul_self_pos]

lemma deviceNorm_infinite (htile : 0 < tile) (hvc : vc ≤ m) (h : ∃ i < vc, row i = .posInf ∨ row i = .negInf) :
    deviceNorm sqrt m tile vc row = .posInf := by
  have htop : ∑ i ∈ range vc, squareOf (row i) = ⊤ := by
    obtain ⟨i, hi, hrow⟩ := h
    refine WithTop.sum_eq_top.mpr ⟨i, mem_range.mpr hi, ?_⟩
    rcases hrow with hrow | hrow <;> rw [hrow] <;> rfl
  rw [deviceNorm_eq htile hvc, htop]
  rfl

lemma deviceNorm_finite (htile : 0 < tile) (hvc : vc ≤ m) (h : ∀ i < vc, row i ≠ .posInf ∧ row i ≠ .negInf) :
    deviceNorm sqrt m tile vc row = .fin (validNorm sqrt row vc) := by
  have hsum : ∑ i ∈ range vc, squareOf (row i) =
      ((∑ i ∈ range vc, (row i).finitePart * (row i).finitePart : ℝ) : WithTop ℝ) := by
    rw [WithTop.coe_sum]
    refine sum_congr rfl fun i hi => ?_
    obtain ⟨hpos, hneg⟩ := h i (mem_range.mp hi)
    cases hi : row i with
    | nan => simp [squareOf, Fp.finitePart]
    | negInf => exact absurd hi hneg
    | fin x => rfl
    | posInf => exact absurd hi hpos
  have hnonneg : ¬∑ i ∈ range vc, (row i).finitePart * (row i).finitePart < 0 :=
    not_lt_of_ge (sum_nonneg fun _ _ => mul_self_nonneg _)
  rw [deviceNorm_eq htile hvc, hsum, validNorm_eq sqrt_zero]
  exact if_neg hnonneg

/-! ### Of the two lists -/

lemma ranked_candidate (valid : ℤ) : ranked (candidate row (validCount m valid)) m row =
    (ranked (observed m (validCount m valid) row) m row).filter fun i => (row i).isFinite := by
  unfold ranked
  rw [List.filter_filter]
  refine List.filter_congr fun i hi => ?_
  have hi : i < m := mem_descending.mp hi
  rw [Bool.eq_iff_iff, candidate_iff, Bool.and_eq_true, observed_iff]
  cases row i <;> simp [Fp.isFinite, Fp.isNaN, hi]

lemma take_filter_iff {α : Type} {l : List α} {p : α → Bool} {k : ℕ} :
    l.take k = (l.filter p).take k ↔ ∀ x ∈ l.take k, p x = true := by
  constructor
  · intro h x hx
    rw [h] at hx
    exact (mem_filter.mp (mem_of_mem_take hx)).2
  · intro h
    by_cases hk : k ≤ l.length
    · exact (take_filter h hk).symm
    · rw [take_of_length_le (by omega)] at h
      rw [filter_eq_self.mpr h]

lemma padded_eq_iff {l l' : List ℕ} {a b : ℕ} (hlen : l.length + a = l'.length + b) :
    l.map (fun j : ℕ => (j : ℤ)) ++ replicate a (-1) = l'.map (fun j : ℕ => (j : ℤ)) ++ replicate b (-1) ↔
      l = l' := by
  constructor
  · intro h
    have hkept : ∀ (l : List ℕ) (n : ℕ), (l.map (fun j : ℕ => (j : ℤ)) ++ replicate n (-1)).filter (0 ≤ ·) =
        l.map (fun j : ℕ => (j : ℤ)) := by
      intro l n
      simp
    have := congrArg (List.filter (0 ≤ ·)) h
    rw [hkept, hkept] at this
    exact map_injective_iff.mpr Nat.cast_injective this
  · rintro rfl
    rw [add_left_cancel hlen]

lemma rows_eq_iff (htile : 0 < tile) (hkp : k ≤ kp) {idx : List ℤ} {bias : List (Fp ℝ)} (hidx : idx.length = k)
    (hbias : bias.length = k) :
    tIndexTopk sqrt m k kp tile row valid idx bias = indexTopk sqrt m k row valid ↔
      ∀ j ∈ (ranked (observed m (validCount m valid) row) m row).take k, (row j).isFinite = true ∧
        (row j).div (deviceNorm sqrt m tile (validCount m valid) row) =
          biasOf sqrt row (validCount m valid) j := by
  have hfinite := take_filter_iff (l := ranked (observed m (validCount m valid) row) m row) (k := k)
    (p := fun i => (row i).isFinite)
  rw [tIndexTopk_eq htile hkp hidx hbias, indexTopk_eq, ranked_candidate, Prod.mk.injEq,
    padded_eq_iff (by simp only [length_take]; omega), forall₂_and, ← hfinite]
  refine and_congr_right fun hsame => ?_
  rw [← hsame]
  have hlen := congrArg length hsame
  rw [length_take, length_take] at hlen
  have hpad : k - (ranked (observed m (validCount m valid) row) m row).length =
      k - ((ranked (observed m (validCount m valid) row) m row).filter fun i => (row i).isFinite).length := by
    omega
  rw [hpad, append_left_inj, map_inj_left]

lemma le_head {l : List ℕ} (hl : l.Pairwise (Beats row)) {i : ℕ} (hi : i ∈ l) {k : ℕ} (hk : k ≠ 0) :
    ∃ j ∈ l.take k, row i ≤ row j := by
  obtain ⟨j, l, rfl⟩ := exists_cons_of_ne_nil (ne_nil_of_mem hi)
  refine ⟨j, ?_, ?_⟩
  · obtain ⟨k, rfl⟩ := Nat.exists_eq_succ_of_ne_zero hk
    exact mem_cons_self
  · rcases mem_cons.mp hi with rfl | hi
    · exact le_rfl
    · rcases rel_of_pairwise_cons hl hi with hlt | ⟨heq, -⟩
      · exact hlt.le
      · exact heq.ge

lemma countP_zeros (hvc : vc ≤ m) : (ranked (observed m vc row) m row).countP (fun i => (row i).eq (.fin 0)) =
    (List.range vc).countP fun i => (row i).eq (.fin 0) := by
  have hbelow : ∀ i, ((row i).eq (.fin 0) && observed m vc row i) = true → i < vc := by
    intro i hi
    exact (observed_iff.mp (Bool.and_eq_true_iff.mp hi).2).1.2
  rw [ranked_perm.countP_eq, countP_filter, countP_eq_length_filter, Blocks.filter_range_of_le hbelow hvc, ← countP_eq_length_filter]
  refine countP_congr fun i hi => ?_
  have hi : i < vc := mem_range.mp hi
  rw [Bool.and_eq_true, observed_iff, and_iff_left_iff_imp]
  intro hzero
  exact ⟨⟨hi.trans_le hvc, hi⟩, by cases hrow : row i <;> simp_all [Fp.eq, Fp.isNaN]⟩

lemma eq_zero_iff {s : Fp ℝ} : s.eq (.fin 0) = true ↔ s = .fin 0 := by
  cases s <;> simp [Fp.eq, Fp.isNaN]

/-- Over an infinite score only zeros agree: the device divides them by infinity, the reference by a finite norm. -/
lemma div_posInf_iff {j : ℕ} (hj : j < vc) :
    ((row j).isFinite = true ∧ (row j).div .posInf = biasOf sqrt row vc j) ↔ row j = .fin 0 := by
  constructor
  · rintro ⟨hfinite, hbias⟩
    cases hrow : row j with
    | fin x =>
      unfold biasOf at hbias
      rw [hrow] at hbias
      by_cases hnorm : 0 < validNorm sqrt row vc
      · rw [if_pos hnorm] at hbias
        have hquot : 0 = x / validNorm sqrt row vc := Fp.fin.inj hbias
        rw [eq_comm, div_eq_zero_iff, or_iff_left hnorm.ne'] at hquot
        rw [hquot]
      · rw [validNorm_pos_iff] at hnorm
        by_contra hx
        exact hnorm ⟨j, hj, x, fun h => hx (by rw [h]), hrow⟩
    | _ => simp [hrow, Fp.isFinite] at hfinite
  · intro hrow
    unfold biasOf
    rw [hrow]
    refine ⟨rfl, ?_⟩
    split
    · rw [overNorm, zero_div]
      rfl
    · rfl

lemma mem_lanes (hvc : vc ≤ m) {j : ℕ} : j ∈ ranked (observed m vc row) m row ↔ j < vc ∧ (row j).isNaN = false := by
  rw [mem_ranked, observed_iff]
  exact ⟨fun h => ⟨h.2.1.2, h.2.2⟩, fun h => ⟨h.1.trans_le hvc, ⟨h.1.trans_le hvc, h.1⟩, h.2⟩⟩

lemma agreeable_of_infinite (hvc : vc ≤ m) (hk : k ≠ 0) (hinf : ∃ i < vc, row i = .posInf ∨ row i = .negInf) :
    (∀ j ∈ (ranked (observed m vc row) m row).take k, (row j).eq (.fin 0) = true) ↔ Agreeable k vc row := by
  constructor
  · intro h
    have hbound : ∀ i < vc, row i ≤ .fin 0 := by
      intro i hi
      cases hnan : (row i).isNaN with
      | true => cases hrow : row i <;> simp_all [Fp.isNaN]
      | false =>
        obtain ⟨j, hj, hle⟩ := le_head ranked_pairwise ((mem_lanes hvc).mpr ⟨hi, hnan⟩) hk
        rwa [eq_zero_iff.mp (h j hj)] at hle
    obtain ⟨i, hi, hrow⟩ := hinf
    have hneg : row i = .negInf := by
      refine hrow.resolve_left fun hpos => ?_
      have := hbound i hi
      rw [hpos] at this
      exact this
    have hlen : k ≤ (ranked (observed m vc row) m row).length := by
      by_contra hlt
      rw [take_of_length_le (by omega)] at h
      have := eq_zero_iff.mp (h i ((mem_lanes hvc).mpr ⟨hi, by rw [hneg]; rfl⟩))
      rw [hneg] at this
      cases this
    refine .inr (.inr ⟨⟨i, hi, hneg⟩, hbound, ?_⟩)
    calc k = ((ranked (observed m vc row) m row).take k).length := (length_take_of_le hlen).symm
      _ = ((ranked (observed m vc row) m row).take k).countP (fun i => (row i).eq (.fin 0)) :=
        (countP_eq_length.mpr h).symm
      _ ≤ (ranked (observed m vc row) m row).countP (fun i => (row i).eq (.fin 0)) := (take_sublist k _).countP_le
      _ = _ := countP_zeros hvc
  · rintro (hnone | ⟨hfinite, -⟩ | ⟨-, hbound, hcount⟩)
    · exact absurd hnone hk
    · obtain ⟨i, hi, hrow⟩ := hinf
      exact absurd hrow (not_or.mpr (hfinite i hi))
    · rw [← countP_zeros hvc] at hcount
      have hlen := hcount.trans countP_le_length
      refine (take_all_iff (fun _ _ h => h.asymm) ranked_pairwise hlen).mpr fun j hj hne => ?_
      -- every zero beats a score that is not zero
      refine hcount.trans (countP_mono_left fun x hx hzero => ?_)
      rw [hzero, Bool.true_and, decide_eq_true_iff]
      refine .inl (lt_of_le_of_ne ?_ fun heq => ?_)
      · rw [eq_zero_iff.mp hzero]
        exact hbound j ((mem_lanes hvc).mp hj).1
      · rw [heq, hzero] at hne
        cases hne

lemma agreeable_of_finite (hvc : vc ≤ m) (hk : k ≠ 0) (hfinite : ∀ i < vc, row i ≠ .posInf ∧ row i ≠ .negInf) :
    (∀ j ∈ (ranked (observed m vc row) m row).take k, (row j).isFinite = true ∧
      (row j).div (.fin (validNorm sqrt row vc)) = biasOf sqrt row vc j) ↔ Agreeable k vc row := by
  constructor
  · refine fun h => .inr (.inl ⟨hfinite, fun ⟨i, hi, hrow⟩ => ?_⟩)
    by_contra hzero
    have hnan : (row i).isNaN = false := by cases hi : row i <;> simp_all [Fp.isFinite, Fp.isNaN]
    obtain ⟨j, hj, -⟩ := le_head ranked_pairwise ((mem_lanes hvc).mpr ⟨hi, hnan⟩) hk
    have hnorm : ¬0 < validNorm sqrt row vc := mt validNorm_pos_iff.mp hzero
    have hnorm0 : validNorm sqrt row vc = 0 := by
      refine le_antisymm (le_of_not_gt hnorm) ?_
      rw [validNorm_eq sqrt_zero]
      exact Real.sqrt_nonneg _
    obtain ⟨hfin, hbias⟩ := h j hj
    have hrowj : row j = .fin 0 := by
      cases hrowj : row j with
      | fin x =>
        by_contra hx
        exact hzero ⟨j, ((mem_lanes hvc).mp (mem_of_mem_take hj)).1, x, fun h => hx (by rw [h]), hrowj⟩
      | _ => simp [hrowj, Fp.isFinite] at hfin
    unfold biasOf at hbias
    rw [if_neg hnorm, hnorm0, hrowj, Fp.div, if_pos rfl, if_pos rfl] at hbias
    cases hbias
  · rintro (hnone | ⟨-, hsome⟩ | ⟨⟨i, hi, hneg⟩, -⟩) j hj
    · exact absurd hnone hk
    · obtain ⟨hj, hnan⟩ := (mem_lanes hvc).mp (mem_of_mem_take hj)
      have hfin : (row j).isFinite = true := by
        cases hrow : row j <;> simp_all [Fp.isFinite, Fp.isNaN]
      have hnorm : 0 < validNorm sqrt row vc := validNorm_pos_iff.mpr (hsome ⟨j, hj, hfin⟩)
      refine ⟨hfin, ?_⟩
      unfold biasOf
      rw [if_pos hnorm]
      cases hrow : row j with
      | fin x => exact if_neg hnorm.ne'
      | _ => simp [hrow, Fp.isFinite] at hfin
    · exact absurd hneg (hfinite i hi).2

/-- **The two bodies leave the same rows** exactly on agreeable scores. -/
theorem index_topk_bodies_iff (m k kp tile : ℕ) (row : ℕ → Fp ℝ) (valid : ℤ) (idx : List ℤ) (bias : List (Fp ℝ))
    (htile : 0 < tile) (hkp : k ≤ kp) (hidx : idx.length = k) (hbias : bias.length = k) :
    tIndexTopk sqrt m k kp tile row valid idx bias = indexTopk sqrt m k row valid ↔
      Agreeable k (validCount m valid) row := by
  have hvc := validCount_le m valid
  rw [rows_eq_iff htile hkp hidx hbias]
  by_cases hk : k = 0
  · rw [hk, take_zero]
    exact ⟨fun _ => .inl rfl, fun _ _ hj => absurd hj not_mem_nil⟩
  by_cases hinf : ∃ i < validCount m valid, row i = .posInf ∨ row i = .negInf
  · rw [deviceNorm_infinite htile hvc hinf, ← agreeable_of_infinite hvc hk hinf]
    refine forall₂_congr fun j hj => ?_
    rw [div_posInf_iff ((mem_lanes hvc).mp (mem_of_mem_take hj)).1, eq_zero_iff]
  · have hfinite : ∀ i < validCount m valid, row i ≠ .posInf ∧ row i ≠ .negInf :=
      fun i hi => not_or.mp fun h => hinf ⟨i, hi, h⟩
    rw [deviceNorm_finite htile hvc hfinite, agreeable_of_finite hvc hk hfinite]

/-- Scores 1 and 2 in tiles of two. -/
theorem index_topk_bodies_two : tIndexTopk sqrt 2 1 1 2 (fun i => Fp.fin ((i : ℝ) + 1)) 2 [0] [.nan] =
    indexTopk sqrt 2 1 (fun i => Fp.fin ((i : ℝ) + 1)) 2 :=
  (index_topk_bodies_iff 2 1 1 2 (fun i => Fp.fin ((i : ℝ) + 1)) 2 [0] [.nan] (by decide) (by decide) rfl rfl).mpr
    (.inr (.inl ⟨fun _ _ => ⟨nofun, nofun⟩, fun _ => ⟨0, by decide, 1, one_ne_zero, by simp⟩⟩))

/-- The score `+inf` is chosen by the device only. -/
theorem index_topk_bodies_infinite : tIndexTopk sqrt 1 1 1 1 (fun _ => .posInf) 1 [0] [.nan] ≠
    indexTopk sqrt 1 1 (fun _ => .posInf) 1 := by
  rw [Ne, rows_eq_iff (k := 1) one_pos le_rfl rfl rfl]
  intro h
  have hmem : 0 ∈ ranked (observed 1 (validCount 1 1) fun _ => (Fp.posInf : Fp ℝ)) 1 fun _ => (Fp.posInf : Fp ℝ) :=
    (mem_lanes (validCount_le 1 1)).mpr ⟨by decide, rfl⟩
  obtain ⟨j, hj, -⟩ := le_head ranked_pairwise hmem one_ne_zero
  exact absurd (h j hj).1 Bool.false_ne_true

end

end Compiler

end VKernels
