import VKernels.Lib.Blocks
import VKernels.Lib.TileLoops
import Mathlib.Algebra.Order.Field.Basic
import Mathlib.Tactic.Linarith
import Mathlib.Tactic.Ring

/-!
# The FP8 decode product

`glm_decode_fp8_gemm` of `torch_ops/glm_fp8_blockwise_gemm.py` with its kernel `_decode_gemm`, in exact arithmetic; only
the conversions to eight bits round.  `K` is 128 times the number of its blocks.

* `Casts` — the two conversions; `payload`, `scale2` — `quantize_activations_fnuz`.
* `glmDecodeFp8Gemm` — the launch and the sum over the splits; `product` — what it is for.
* `OwnScales` — the activations on which the scales of row 0 serve every row.

## Results

* `visits_splits` — the splits visit the blocks of `K` one after the other, each once.
* `decode_gemm_iff` — with the quantiser in the kernel the product comes out; without it, exactly on such activations.
-/

namespace VKernels.DecodeGemm

open Finset TileLoops

/-! ## Quantised activations -/

/-- `.to(torch.float8_e4m3fn)`, and `.to(torch.float8_e4m3fnuz)` or `.to(tl.float8e4b8)`, on values in range. -/
structure Casts (R : Type) [Field R] [LinearOrder R] where
  fn : R → R
  fnuz : R → R
  /-- The same encodings, half as large, and one rounding. -/
  fn_eq : ∀ y, |y| ≤ 448 → fn y = 2 * fnuz (y / 2)
  /-- A value of the format is kept. -/
  fnuz_fnuz : ∀ y, |y| ≤ 224 → fnuz (fnuz y) = fnuz y

/-- Without rounding. -/
def Casts.exact (R : Type) [Field R] [LinearOrder R] [IsStrictOrderedRing R] : Casts R :=
  ⟨id, id, fun _ _ => (mul_div_cancel₀ _ two_ne_zero).symm, fun _ _ => rfl⟩

variable {R : Type} [Field R] [LinearOrder R] (q : Casts R) (x : ℕ → ℕ → R) (row : ℕ)

/-- `max(max(abs(x)), 1e-4)` over one group. -/
def amax (kb : ℕ) : R :=
  max ((List.range 128).foldl (fun a i => max a |x row (kb * 128 + i)|) 0) (1 / 10000)

/-- The scales of `quantize_activations_fp8`. -/
def scaleFp8 (kb : ℕ) : R := max (amax x row kb / 448) (1 / 10 ^ 12)

/-- The payload of `quantize_activations_fp8`. -/
def payloadFp8 (col : ℕ) : R := q.fn (max (-448) (min (x row col / scaleFp8 x row (col / 128)) 448))

/-- `e4m3fn_to_fnuz` of the two. -/
def payload (col : ℕ) : R := q.fnuz (payloadFp8 q x row col * (1 / 2))

def scale2 (kb : ℕ) : R := scaleFp8 x row kb * 2

/-- `FUSE_Q`: the scale in the kernel. -/
def fusedScale (kb : ℕ) : R := amax x row kb / 224

def fusedPayload (col : ℕ) : R := q.fnuz (x row col / fusedScale x row (col / 128))

/-! ## The launch -/

/-- Shapes and tile configuration; `K` is `128 * nkb`. -/
structure Launch where
  m : ℕ
  n : ℕ
  nkb : ℕ
  sk : ℕ
  bn : ℕ
  warps : ℕ
  stages : ℕ
  kp : ℕ

/-- The checks of `glm_decode_fp8_gemm`. -/
structure Launch.Accepted (L : Launch) : Prop where
  rows : 0 < L.m ∧ L.m ≤ 16
  cols : 0 < L.n ∧ L.n ≤ 16384 ∧ L.n % 128 = 0
  blocks : 0 < L.nkb ∧ L.nkb * 128 ≤ 16384
  split : L.sk ∈ [1, 2, 4, 8, 16, 32] ∧ L.nkb % L.sk = 0
  tile : L.bn ∈ [32, 64, 128] ∧ L.warps ∈ [4, 8] ∧ L.stages ∈ [1, 2, 3, 4] ∧ L.kp ∈ [1, 2, 4]

/-- `KB_PER_SPLIT`. -/
def Launch.perSplit (L : Launch) : ℕ := L.nkb / L.sk

/-- `KP`: 1 where the blocks of a split are no multiple of `kp`. -/
def Launch.pairs (L : Launch) : ℕ := if L.perSplit % L.kp ≠ 0 then 1 else L.kp

/-- `range(lo, hi, step)`. -/
def pyRange (lo hi step : ℕ) : List ℕ := (List.range ((hi - lo + step - 1) / step)).map (lo + · * step)

section

variable {R : Type} [Field R] [LinearOrder R] (L : Launch) (q : Casts R) (fused : Bool) (x w ws : ℕ → ℕ → R)

/-- The values of `kbi` in split `pidK`. -/
def starts (pidK : ℕ) : List ℕ := pyRange (pidK * L.perSplit) (pidK * L.perSplit + L.perSplit) L.pairs

/-- The blocks of `K` that a split accumulates. -/
def visits (pidK : ℕ) : List ℕ := (starts L pidK).flatMap fun kbi => (List.range L.pairs).map (kbi + ·)

/-- `blk * (sa * sb)` in one lane; the scales of the activations are addressed by `rm // 128`. -/
def blockTerm (row col kb : ℕ) : R :=
  let a i := if row < L.m then (if fused then fusedPayload q x row i else payload q x row i) else 0
  let sa := if row < L.m then (if fused then fusedScale x row kb else scale2 x (row / 128) kb) else 0
  let b i := if col < L.n then w col i else 0
  let sb := if col < L.n then ws (col / 128) kb else 0
  (∑ i ∈ range 128, a (kb * 128 + i) * b (kb * 128 + i)) * (sa * sb)

/-- `acc` of one lane. -/
def accumulate (pidK row col : ℕ) : R :=
  (starts L pidK).foldl (fun acc kbi =>
    acc + (List.range L.pairs).foldl (fun accIt j => accIt + blockTerm L q fused x w ws row col (kbi + j)) 0) 0

/-- One program of the grid: its lanes are 16 rows and the `BN` columns from `pidN * BN` on. -/
def decodeGemm (pidN pidK : ℕ) (part : ℕ → ℕ → ℕ → R) : ℕ → ℕ → ℕ → R := fun k row col =>
  if k = pidK ∧ row < 16 ∧ col / L.bn = pidN ∧ row < L.m ∧ col < L.n then accumulate L q fused x w ws pidK row col
  else part k row col

/-- `part` after the grid, over what the memory held. -/
def partials (part : ℕ → ℕ → ℕ → R) : ℕ → ℕ → ℕ → R :=
  (List.range ((L.n + L.bn - 1) / L.bn)).foldl (fun part pidN =>
    (List.range L.sk).foldl (fun part pidK => decodeGemm L q fused x w ws pidN pidK part) part) part

/-- `part.sum(0)`. -/
def glmDecodeFp8Gemm (part : ℕ → ℕ → ℕ → R) (row col : ℕ) : R :=
  ∑ pidK ∈ range L.sk, partials L q fused x w ws part pidK row col

/-- Each row, quantised with its own scales, by the scaled weights. -/
def product (row col : ℕ) : R :=
  ∑ kb ∈ range L.nkb, ∑ i ∈ range 128,
    (payload q x row (kb * 128 + i) * scale2 x row kb) * (w col (kb * 128 + i) * ws (col / 128) kb)

/-- In every block a row has the scale of row 0, or nothing to scale. -/
def OwnScales : Prop :=
  ∀ row < L.m, ∀ kb < L.nkb, amax x row kb = amax x 0 kb ∨ ∀ i < 128, payload q x row (kb * 128 + i) = 0

end

/-! ## The splits -/

section

variable {L : Launch}

lemma Launch.Accepted.sk_pos (h : L.Accepted) : 0 < L.sk := by
  have := h.split.1
  simp only [List.mem_cons, List.not_mem_nil, or_false] at this
  omega

lemma Launch.Accepted.bn_pos (h : L.Accepted) : 0 < L.bn := by
  have := h.tile.1
  simp only [List.mem_cons, List.not_mem_nil, or_false] at this
  omega

lemma Launch.Accepted.splits (h : L.Accepted) : L.sk * L.perSplit = L.nkb :=
  Nat.mul_div_cancel' (Nat.dvd_of_mod_eq_zero h.split.2)

lemma Launch.pairs_pos (h : L.Accepted) : 0 < L.pairs := by
  have := h.tile.2.2.2
  simp only [List.mem_cons, List.not_mem_nil, or_false] at this
  unfold Launch.pairs
  split <;> omega

/-- The blocks of a split are whole groups of `KP`. -/
lemma Launch.pairs_mul (L : Launch) : L.perSplit / L.pairs * L.pairs = L.perSplit := by
  refine Nat.div_mul_cancel ?_
  unfold Launch.pairs
  split
  · exact one_dvd _
  · next h => exact Nat.dvd_of_mod_eq_zero (not_not.mp h)

lemma starts_eq (h : L.Accepted) (pidK : ℕ) :
    starts L pidK = (List.range (L.perSplit / L.pairs)).map (pidK * L.perSplit + · * L.pairs) := by
  have hpos := Launch.pairs_pos h
  have hcount : (L.perSplit + L.pairs - 1) / L.pairs = L.perSplit / L.pairs := by
    conv_lhs => rw [← L.pairs_mul]
    rw [Nat.add_sub_assoc hpos, Nat.add_comm, Nat.add_mul_div_right _ _ hpos, Nat.div_eq_of_lt (by omega), Nat.zero_add]
  unfold starts pyRange
  rw [Nat.add_sub_cancel_left, hcount]

lemma flatMap_range (lo n k : ℕ) : ((List.range n).flatMap fun t => (List.range k).map (lo + t * k + ·)) =
    (List.range (n * k)).map (lo + ·) := by
  simpa only [add_assoc] using Blocks.map_blocks n k (lo + ·)

/-- **The splits visit the blocks of `K`** one after the other, each once. -/
theorem visits_splits (h : L.Accepted) : (List.range L.sk).flatMap (visits L) = List.range L.nkb := by
  have hvisits : ∀ pidK, visits L pidK = (List.range L.perSplit).map (0 + pidK * L.perSplit + ·) := by
    intro _
    unfold visits
    rw [starts_eq h, List.flatMap_map, flatMap_range, L.pairs_mul, zero_add]
  rw [funext hvisits, flatMap_range, h.splits]
  simp

variable {R : Type} [Field R] [LinearOrder R] {q : Casts R} {fused : Bool} {x w ws : ℕ → ℕ → R}

lemma accumulate_eq (h : L.Accepted) (pidK row col : ℕ) : accumulate L q fused x w ws pidK row col =
    ∑ u ∈ range L.perSplit, blockTerm L q fused x w ws row col (pidK * L.perSplit + u) := by
  have hinner (kbi : ℕ) : (List.range L.pairs).foldl
      (fun accIt j => accIt + blockTerm L q fused x w ws row col (kbi + j)) 0 =
      ∑ j ∈ range L.pairs, blockTerm L q fused x w ws row col (kbi + j) :=
    (foldl_add id (fun _ _ => rfl) L.pairs 0).trans (zero_add _)
  unfold accumulate
  rw [starts_eq h, List.foldl_map]
  simp only [hinner]
  refine (foldl_add id (fun _ _ => rfl) _ 0).trans ?_
  simp only [id, zero_add, add_assoc]
  rw [sum_blocks fun u => blockTerm L q fused x w ws row col _, L.pairs_mul]

lemma partials_eq (h : L.Accepted) (part : ℕ → ℕ → ℕ → R) {pidK row col : ℕ} (hpid : pidK < L.sk) (hrow : row < L.m)
    (hcol : col < L.n) : partials L q fused x w ws part pidK row col = accumulate L q fused x w ws pidK row col := by
  have hlane : row < 16 := hrow.trans_le h.rows.2
  have htile : col / L.bn < (L.n + L.bn - 1) / L.bn := by
    rw [Nat.div_lt_iff_lt_mul h.bn_pos]
    have := Nat.lt_div_mul_add h.bn_pos (a := L.n + L.bn - 1)
    omega
  have hsplits (part : ℕ → ℕ → ℕ → R) (pidN : ℕ) :
      (List.range L.sk).foldl (fun part pidK => decodeGemm L q fused x w ws pidN pidK part) part pidK row col =
        if pidN = col / L.bn then accumulate L q fused x w ws pidK row col else part pidK row col := by
    have hbody (part : ℕ → ℕ → ℕ → R) (k : ℕ) : decodeGemm L q fused x w ws pidN k part pidK row col =
        if k = pidK then (if pidN = col / L.bn then accumulate L q fused x w ws pidK row col else part pidK row col)
        else part pidK row col := by
      unfold decodeGemm
      by_cases hk : k = pidK
      · subst hk
        simp [hlane, hrow, hcol, eq_comm]
      · rw [if_neg hk, if_neg fun hin => hk hin.1.symm]
    rw [foldl_once (fun part : ℕ → ℕ → ℕ → R => part pidK row col)
      (fun v => if pidN = col / L.bn then accumulate L q fused x w ws pidK row col else v) hbody L.sk part, if_pos hpid]
  unfold partials
  rw [foldl_once (fun part : ℕ → ℕ → ℕ → R => part pidK row col)
    (fun _ => accumulate L q fused x w ws pidK row col) hsplits, if_pos htile]

lemma glmDecodeFp8Gemm_eq (h : L.Accepted) (part : ℕ → ℕ → ℕ → R) {row col : ℕ} (hrow : row < L.m) (hcol : col < L.n) :
    glmDecodeFp8Gemm L q fused x w ws part row col = ∑ kb ∈ range L.nkb, blockTerm L q fused x w ws row col kb := by
  have hsplit : ∀ pidK ∈ range L.sk, partials L q fused x w ws part pidK row col =
      ∑ u ∈ range L.perSplit, blockTerm L q fused x w ws row col (pidK * L.perSplit + u) := by
    intro _ hpid
    rw [partials_eq h part (mem_range.mp hpid) hrow hcol, accumulate_eq h]
  unfold glmDecodeFp8Gemm
  rw [sum_congr rfl hsplit, sum_blocks, h.splits]

end

/-! ## The two quantisers -/

section

lemma le_foldl_max (f : ℕ → R) {n i : ℕ} (hi : i < n) : f i ≤ (List.range n).foldl (fun a i => max a (f i)) 0 := by
  have h := (List.max?_eq_some_iff.mp (List.max?_cons' : (0 :: (List.range n).map f).max? = _)).2
  rw [List.foldl_map] at h
  exact h _ (List.mem_cons_of_mem _ (List.mem_map_of_mem (List.mem_range.mpr hi)))

lemma le_amax (kb : ℕ) : 1 / 10000 ≤ amax x row kb := le_max_right _ _

lemma abs_le_amax (col : ℕ) : |x row col| ≤ amax x row (col / 128) := by
  have hcol := Nat.div_add_mod' col 128
  have h := le_foldl_max (fun i => |x row (col / 128 * 128 + i)|) (Nat.mod_lt col (by decide : 0 < 128))
  rw [hcol] at h
  exact h.trans (le_max_left _ _)

variable [IsStrictOrderedRing R]

lemma scaleFp8_eq (kb : ℕ) : scaleFp8 x row kb = amax x row kb / 448 := by
  have := le_amax x row kb
  refine max_eq_left ?_
  rw [le_div_iff₀ (by norm_num)]
  exact le_trans (by norm_num) this

lemma scale2_eq (kb : ℕ) : scale2 x row kb = fusedScale x row kb := by
  unfold scale2 fusedScale
  rw [scaleFp8_eq]
  ring

lemma payload_eq (col : ℕ) : payload q x row col = fusedPayload q x row col := by
  have hpos : (0 : R) < amax x row (col / 128) := lt_of_lt_of_le (by norm_num) (le_amax x row _)
  have hbound : |x row col / scaleFp8 x row (col / 128)| ≤ 448 := by
    rw [scaleFp8_eq, abs_div, abs_of_pos (div_pos hpos (by norm_num)), div_le_iff₀ (div_pos hpos (by norm_num))]
    calc |x row col| ≤ amax x row (col / 128) := abs_le_amax x row col
      _ = 448 * (amax x row (col / 128) / 448) := by ring
  obtain ⟨hlo, hhi⟩ := abs_le.mp hbound
  have hhalf : x row col / scaleFp8 x row (col / 128) / 2 = x row col / fusedScale x row (col / 128) := by
    rw [← scale2_eq, scale2, div_div]
  have hrange : |x row col / fusedScale x row (col / 128)| ≤ 224 := by
    rw [← hhalf, abs_div, abs_two]
    linarith
  unfold payload payloadFp8 fusedPayload
  rw [min_eq_left hhi, max_eq_right hlo, q.fn_eq _ hbound, hhalf]
  have hcast : 2 * q.fnuz (x row col / fusedScale x row (col / 128)) * (1 / 2) =
      q.fnuz (x row col / fusedScale x row (col / 128)) := by ring
  rw [hcast, q.fnuz_fnuz _ hrange]

end

/-! ## The product -/

section

variable {R : Type} [Field R] [LinearOrder R] {L : Launch} {q : Casts R} {x w ws : ℕ → ℕ → R} {row col : ℕ}

def scaledProduct (L : Launch) (q : Casts R) (x w ws : ℕ → ℕ → R) (s : ℕ → R) (row col : ℕ) : R :=
  ∑ kb ∈ range L.nkb, (∑ i ∈ range 128, payload q x row (kb * 128 + i) * w col (kb * 128 + i)) *
    (s kb * ws (col / 128) kb)

lemma product_eq : product L q x w ws row col = scaledProduct L q x w ws (scale2 x row) row col := by
  refine sum_congr rfl fun kb _ => ?_
  rw [sum_mul]
  refine sum_congr rfl fun i _ => ?_
  ring

lemma unfused_eq (h : L.Accepted) (part : ℕ → ℕ → ℕ → R) (hrow : row < L.m) (hcol : col < L.n) :
    glmDecodeFp8Gemm L q false x w ws part row col = scaledProduct L q x w ws (scale2 x 0) row col := by
  -- sixteen rows share one row of scales
  have hzero : row / 128 = 0 := Nat.div_eq_of_lt (by have := h.rows.2; omega)
  rw [glmDecodeFp8Gemm_eq h part hrow hcol]
  refine sum_congr rfl fun kb _ => ?_
  simp [blockTerm, if_pos hrow, if_pos hcol, Bool.false_eq_true, hzero]

lemma scaledProduct_single (s : ℕ → R) {kb i : ℕ} (hkb : kb < L.nkb) (hi : i < 128) :
    scaledProduct L q x (fun _ c => if c = kb * 128 + i then 1 else 0) (fun _ _ => 1) s row col =
      payload q x row (kb * 128 + i) * s kb := by
  unfold scaledProduct
  beta_reduce
  rw [sum_eq_single_of_mem kb (mem_range.mpr hkb), sum_eq_single_of_mem i (mem_range.mpr hi)]
  · rw [if_pos rfl, mul_one, mul_one]
  · intro j _ hj
    rw [if_neg (by omega), mul_zero]
  · intro kb' _ hkb'
    have hnone : ∀ j ∈ range 128,
        payload q x row (kb' * 128 + j) * (if kb' * 128 + j = kb * 128 + i then 1 else 0) = 0 := by
      intro j hj
      have := mem_range.mp hj
      rw [if_neg (by omega), mul_zero]
    rw [sum_eq_zero hnone, zero_mul]

variable [IsStrictOrderedRing R]

lemma fused_eq (h : L.Accepted) (part : ℕ → ℕ → ℕ → R) (hrow : row < L.m) (hcol : col < L.n) :
    glmDecodeFp8Gemm L q true x w ws part row col = scaledProduct L q x w ws (scale2 x row) row col := by
  rw [glmDecodeFp8Gemm_eq h part hrow hcol]
  refine sum_congr rfl fun kb _ => ?_
  simp [blockTerm, if_pos hrow, if_pos hcol, payload_eq, scale2_eq]

lemma scale2_inj {row row' kb : ℕ} : scale2 x row kb = scale2 x row' kb ↔ amax x row kb = amax x row' kb := by
  rw [scale2_eq, scale2_eq, fusedScale, fusedScale, div_left_inj' (by norm_num)]

lemma unfused_iff (h : L.Accepted) (part : ℕ → ℕ → ℕ → R) : (∀ w ws row col, row < L.m → col < L.n →
      glmDecodeFp8Gemm L q false x w ws part row col = product L q x w ws row col) ↔ OwnScales L q x := by
  constructor
  · intro hsame row hrow kb hkb
    rw [or_iff_not_imp_right]
    intro hpayload
    push Not at hpayload
    obtain ⟨i, hi, hne⟩ := hpayload
    have hpick := hsame (fun _ c => if c = kb * 128 + i then 1 else 0) (fun _ _ => 1) row 0 hrow h.cols.1
    rw [unfused_eq h part hrow h.cols.1, product_eq, scaledProduct_single _ hkb hi, scaledProduct_single _ hkb hi] at hpick
    exact (scale2_inj.mp (mul_left_cancel₀ hne hpick)).symm
  · intro hown w _ row col hrow hcol
    rw [unfused_eq h part hrow hcol, product_eq]
    refine sum_congr rfl fun kb hkb => ?_
    rcases hown row hrow kb (mem_range.mp hkb) with hscale | hzero
    · rw [scale2_inj.mpr hscale]
    · have hnone : ∑ i ∈ range 128, payload q x row (kb * 128 + i) * w col (kb * 128 + i) = 0 :=
        sum_eq_zero fun i hi => by rw [hzero i (mem_range.mp hi), zero_mul]
      rw [hnone, zero_mul, zero_mul]

/-- **The decode product**: every block of `K` is accumulated once; the quantiser in the kernel gives the product for all
weights, the separate one exactly where the scales of row 0 serve every row. -/
theorem decode_gemm_iff (L : Launch) (h : L.Accepted) (q : Casts R) (x : ℕ → ℕ → R) (part : ℕ → ℕ → ℕ → R) :
    (List.range L.sk).flatMap (visits L) = List.range L.nkb ∧ (∀ w ws row col, row < L.m → col < L.n →
      glmDecodeFp8Gemm L q true x w ws part row col = product L q x w ws row col) ∧
    ((∀ w ws row col, row < L.m → col < L.n →
      glmDecodeFp8Gemm L q false x w ws part row col = product L q x w ws row col) ↔ OwnScales L q x) := by
  refine ⟨visits_splits h, fun w ws row col hrow hcol => ?_, unfused_iff h part⟩
  rw [fused_eq h part hrow hcol, product_eq]

/-- Two rows and one block; the second row is twice the first. -/
def twoRows : Launch := ⟨2, 128, 1, 1, 128, 4, 2, 1⟩

lemma twoRows_accepted : twoRows.Accepted := ⟨by decide, by decide, by decide, by decide, by decide⟩

theorem decode_gemm_twoRows : glmDecodeFp8Gemm twoRows (Casts.exact ℚ) true (fun row _ => (row + 1) * 224) (fun _ _ => 1)
    (fun _ _ => 1) (fun _ _ _ => 0) 1 0 =
      product twoRows (Casts.exact ℚ) (fun row _ => (row + 1) * 224) (fun _ _ => 1) (fun _ _ => 1) 1 0 :=
  (decode_gemm_iff twoRows twoRows_accepted (Casts.exact ℚ) (fun row _ => (row + 1) * 224) fun _ _ _ => 0).2.1 _ _ 1 0
    (by decide) (by decide)

/-- Without the quantiser in the kernel the second row gets the scale of the first. -/
theorem decode_gemm_wrong_scale : ¬∀ w ws row col, row < twoRows.m → col < twoRows.n →
    glmDecodeFp8Gemm twoRows (Casts.exact ℚ) false (fun row _ => (row + 1) * 224) w ws (fun _ _ _ => 0) row col =
      product twoRows (Casts.exact ℚ) (fun row _ => (row + 1) * 224) w ws row col := by
  rw [unfused_iff twoRows_accepted]
  intro hown
  rcases hown 1 (by decide) 0 (by decide) with hscale | hzero
  · exact absurd hscale (by decide +kernel)
  · exact absurd (hzero 0 (by decide)) (by decide +kernel)

end

end VKernels.DecodeGemm
