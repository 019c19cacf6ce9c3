import VKernels.Moe.DistMoe

/-!
# When the distributed MoE is the single-rank oracle

* `TpMatchesOracle`, `EpMatchesOracle` — the reduced output, and the sum of the ranks' outputs, are the oracle's.
* `ExpertAgrees` — every weight of an expert that an output depends on is read alike.

## Results

* `rowOut_of_agrees`, `expertAgrees_of_rows` — an expert gives its tokens the same exactly when its weights
  are read alike.
* `linedUp_of_serves` — a layout that serves every row lines up.
* `dist_moe_iff` — both forwards, for all weights and every arithmetic.
-/

namespace VKernels.Moe.Dist

open Comm (bind_ok)
open Finset
open Blocks Grouping TileLoops

/-! ## What they should compute -/

section

variable {R W : Type} [Field R] [LinearOrder R] [Zero W] (ar : Arith R W) (args : MoeArgs R W)
  (topkIds : ℕ → ℤ) (topkW : ℕ → R)

def TpMatchesOracle (scratch oracleScratch : ℕ → ℕ → W) (M topK numExperts blockSize tp : ℕ) : Prop :=
  ∃ outs out, distMoeTp ar args topkIds topkW scratch M topK numExperts blockSize tp = .ok outs ∧
    outs.length = tp ∧ Fallback.oracle ar args topkIds topkW oracleScratch M topK numExperts = .ok out ∧
    ∀ o ∈ outs, ∀ t c, o t c = out t c

def EpMatchesOracle (scratch : ℕ → ℕ → ℕ → W) (oracleScratch : ℕ → ℕ → W) (M topK numExperts blockSize ep : ℕ) : Prop :=
  ∃ outs out, distMoeEp ar args topkIds topkW scratch M topK numExperts blockSize ep = .ok outs ∧
    outs.length = ep ∧ Fallback.oracle ar args topkIds topkW oracleScratch M topK numExperts = .ok out ∧
    ∀ t c, (outs.map fun o => o t c).sum = out t c

end

/-- The dimensions of a call and its scale bytes. -/
structure Scales where
  hidden : ℕ
  ispp : ℕ
  groupSize : ℕ
  w13Scale : ℕ → UInt8
  w2Scale : ℕ → UInt8

def scalesOf {R W : Type} (args : MoeArgs R W) : Scales :=
  ⟨args.hidden, args.ispp, args.groupSize, args.w13Scale, args.w2Scale⟩

/-- The ranks decode the first byte to the scale that the fallback decodes the second to: 0xFF is 1 for the
ranks and 0 for the fallback, which has 1 as 127. -/
def SameScale (dist fallback : UInt8) : Prop := dist ≠ 0xFF ∧ fallback = dist ∨ dist = 0xFF ∧ fallback = 127

/-- Element `k` of a row of `cols` is in a whole tile, where the group that the fallback takes for it, counted
from the tile, has the same scale as its group in the row. -/
def SameWeight (scale : ℕ → UInt8) (cols groupSize row k : ℕ) : Prop :=
  k < cols / blockK * blockK ∧ SameScale (scale (row * (cols / groupSize) + k / groupSize))
    (scale (row * (cols / groupSize) + (k / blockK * blockK / groupSize + k % blockK / 2 * 2 / groupSize)))

structure ExpertAgrees (s : Scales) (expert : ℕ) : Prop where
  gate : ∀ c < s.ispp / blockN * blockN, ∀ k < s.hidden,
    SameWeight s.w13Scale s.hidden s.groupSize (expert * (2 * s.ispp) + c) k
  up : ∀ c < s.ispp / blockN * blockN, ∀ k < s.hidden,
    SameWeight s.w13Scale s.hidden s.groupSize (expert * (2 * s.ispp) + (s.ispp + c)) k
  down : ∀ c < s.hidden / blockN * blockN, ∀ k < s.ispp,
    SameWeight s.w2Scale s.ispp s.groupSize (expert * s.hidden + c) k

/-- No block of 16 rows is beyond the table, and where outputs have columns, the layout lines up. -/
def LayoutServes (s : Scales) (ids : ℕ → ℤ) (M topK numExperts blockSize : ℕ) : Prop :=
  (paddedIds ids M topK blockSize numExperts).length / blockM ≤
      (blockExperts ids M topK blockSize numExperts).length ∧
    (0 < s.hidden / blockN → LinedUp (paddedIds ids M topK blockSize numExperts)
      (blockExperts ids M topK blockSize numExperts) (M * topK) blockSize)

/-- Where outputs have columns, the routed experts' weights are read alike. -/
def RoutedAgree (s : Scales) (ids : ℕ → ℤ) (M topK numExperts : ℕ) : Prop :=
  0 < s.hidden / blockN → ∀ i < M * topK, 0 ≤ ids i → ids i < numExperts → ExpertAgrees s (ids i).toNat

/-! ## Weights -/

section

variable {R W : Type} [Field R] (ar : Arith R W)

/-- The value of a packed element. -/
def nibbleAt (packed : ℕ → UInt8) (cols row k : ℕ) : R :=
  let pb := packed (row * (cols / 2) + k / 2)
  fp4nibToF32 ar (if k % 2 = 0 then pb &&& 0x0F else (pb >>> 4) &&& 0x0F)

lemma rowWeight_eq (packed scale : ℕ → UInt8) (cols groupSize row k : ℕ) :
    rowWeight ar packed scale cols groupSize row (k / blockK) (k % blockK) =
      ar.f32ToBf16 (nibbleAt ar packed cols row k * Moe.ue8m0ToFloat (scale (row * (cols / groupSize) +
        (k / blockK * blockK / groupSize + k % blockK / 2 * 2 / groupSize)))) := by
  have hbyte : k / 64 * 64 / 2 + k % 64 / 2 = k / 2 := by omega
  have hparity : k % 64 % 2 = k % 2 := by omega
  unfold rowWeight Moe.dequantWeightTile offset nibbleAt
  dsimp only
  rw [Nat.zero_mul, Nat.zero_mul, zero_add, zero_add, mul_one, add_assoc, add_assoc]
  unfold blockK
  rw [hbyte, hparity]

variable [CharZero R]

lemma weight_eq (packed scale : ℕ → UInt8) (cols groupSize row k : ℕ) :
    weight ar packed scale cols groupSize row k = ar.f32ToBf16 (nibbleAt ar packed cols row k *
      ue8m0ToFloat (scale (row * (cols / groupSize) + k / groupSize))) := by
  have htable : fp4Values ar = Fallback.fp4NibbleValues ar := by
    unfold fp4Values Fallback.fp4NibbleValues
    rw [neg_zero]
  -- the upper half of a byte needs no mask
  have hhigh : ∀ pb : UInt8, (pb >>> 4) &&& (0x0F : UInt8) = pb >>> 4 := by
    intro pb
    have hpb := pb.toNat_lt
    have hshift : (pb >>> 4).toNat = pb.toNat / 16 := by
      rw [UInt8.toNat_shiftRight, Nat.shiftRight_eq_div_pow]
      rfl
    apply UInt8.toNat_inj.mp
    rw [UInt8.toNat_and, hshift]
    exact (Nat.and_two_pow_sub_one_eq_mod _ 4).trans (Nat.mod_eq_of_lt (by omega))
  have hnibble : ∀ pb : UInt8, (if k % 2 = 0 then pb &&& 0x0F else pb >>> 4).toNat < 16 := by
    intro pb
    split
    · exact Fallback.nibble_lt pb
    · rw [← hhigh]
      exact Fallback.nibble_lt _
  unfold weight weightAt nibbleAt
  dsimp only
  rw [htable, Fallback.fp4NibbleValues_getD ar _ (hnibble _), hhigh]

variable [LinearOrder R] [IsStrictOrderedRing R]

/-- **Scale bytes** are decoded alike exactly when they are the same and not 0xFF, or 0xFF and 127. -/
theorem sameScale_iff (dist fallback : UInt8) :
    (ue8m0ToFloat dist : R) = Moe.ue8m0ToFloat fallback ↔ SameScale dist fallback := by
  have htwo : (0 : R) < 2 := two_pos
  have hinj : ∀ x y : ℤ, ((2 : R) ^ x = 2 ^ y) ↔ x = y := fun x y =>
    (zpow_right_injective₀ htwo (by norm_num)).eq_iff
  have hnat : ∀ n : ℕ, n < 256 → ((fallback.toNat : ℤ) = n ↔ fallback = UInt8.ofNat n) := by
    intro n hn
    rw [← UInt8.toNat_inj, UInt8.toNat_ofNat', Nat.mod_eq_of_lt hn]
    omega
  unfold ue8m0ToFloat Moe.ue8m0ToFloat SameScale
  by_cases hfallback : fallback = 0xFF
  · -- the fallback has 0, the ranks a power of two
    subst hfallback
    constructor
    · intro h
      exact absurd h (zpow_pos htwo _).ne'
    · rintro (⟨hne, heq⟩ | ⟨_, heq⟩)
      · exact absurd heq.symm hne
      · exact absurd heq (by decide)
  · rw [if_neg hfallback, hinj]
    by_cases hdist : dist = 0xFF
    · rw [if_pos hdist]
      have h127 := hnat 127 (by decide)
      constructor
      · intro h
        exact .inr ⟨hdist, h127.mp (by push_cast; omega)⟩
      · rintro (⟨hne, _⟩ | ⟨_, heq⟩)
        · exact absurd hdist hne
        · rw [h127.mpr heq]
          rfl
    · rw [if_neg hdist]
      constructor
      · intro h
        refine .inl ⟨hdist, UInt8.toNat_inj.mp ?_⟩
        omega
      · rintro (⟨_, rfl⟩ | ⟨heq, _⟩)
        · rfl
        · exact absurd heq hdist

lemma weight_of_same {packed scale : ℕ → UInt8} {cols groupSize row k : ℕ}
    (h : SameWeight scale cols groupSize row k) : weight ar packed scale cols groupSize row k =
      rowWeight ar packed scale cols groupSize row (k / blockK) (k % blockK) := by
  rw [weight_eq, rowWeight_eq, (sameScale_iff _ _).mpr h.2]

end

/-! ## Rows -/

section

variable {R W : Type} [Field R] [LinearOrder R] [IsStrictOrderedRing R] (ar : Arith R W)

omit [LinearOrder R] [IsStrictOrderedRing R] in
lemma rowDot_eq_range (n : ℕ) (a b : ℕ → ℕ → W) : rowDot ar n a b = ∑ k ∈ range (n * blockK),
    ar.bf16ToFloat (a (k / blockK) (k % blockK)) * ar.bf16ToFloat (b (k / blockK) (k % blockK)) := by
  have hplace : ∀ kb k, k < blockK → (kb * blockK + k) / blockK = kb ∧ (kb * blockK + k) % blockK = k := by
    intro kb k hk
    have hk : k < 64 := hk
    show (kb * 64 + k) / 64 = kb ∧ (kb * 64 + k) % 64 = k
    omega
  rw [rowDot_eq_sum, ← sum_blocks]
  refine sum_congr rfl fun kb _ => sum_congr rfl fun k hk => ?_
  obtain ⟨hdiv, hmod⟩ := hplace kb k (mem_range.mp hk)
  rw [hdiv, hmod]

/-- A product whose weights are read alike. -/
lemma matmul_eq_rowDot {packed scale : ℕ → UInt8} {cols groupSize row : ℕ} {a : ℕ → W} (a' : ℕ → ℕ → W)
    (ha : ∀ k < cols, a k = a' (k / blockK) (k % blockK)) (h : ∀ k < cols, SameWeight scale cols groupSize row k) :
    matmul ar cols a (weight ar packed scale cols groupSize row) =
      rowDot ar (cols / blockK) a' (rowWeight ar packed scale cols groupSize row) := by
  have hwhole : cols / blockK * blockK = cols := by
    rcases eq_zero_or_pos cols with rfl | hpos
    · rfl
    · have := (h (cols - 1) (by omega)).1
      have := Nat.div_mul_le_self cols blockK
      omega
  rw [matmul_eq_sum, rowDot_eq_range, hwhole]
  refine sum_congr rfl fun k hk => ?_
  have hk := mem_range.mp hk
  rw [ha k hk, weight_of_same ar (h k hk)]

lemma activationValue_eq (activation : ℤ) (g u swigluLimit beta linearBeta : R) :
    activationValue ar activation g u swigluLimit beta linearBeta =
      epilogueValue ar activation g u swigluLimit beta linearBeta := by
  unfold activationValue epilogueValue kSiTU
  by_cases hsitu : activation = 1
  · rw [if_pos hsitu, if_pos hsitu]
  · by_cases hlimit : swigluLimit > 0
    · have hneg : -swigluLimit ≤ swigluLimit := by linarith
      have hmin : min g swigluLimit = if g > swigluLimit then swigluLimit else g := by
        by_cases h : g > swigluLimit
        · rw [if_pos h, min_eq_right h.le]
        · rw [if_neg h, min_eq_left (not_lt.mp h)]
      have hclamp : min (max u (-swigluLimit)) swigluLimit =
          if (if u > swigluLimit then swigluLimit else u) < -swigluLimit then -swigluLimit
          else if u > swigluLimit then swigluLimit else u := by
        by_cases h : u > swigluLimit
        · rw [if_pos h, if_neg (not_lt.mpr hneg), max_eq_left (hneg.trans h.le), min_eq_right h.le]
        · rw [if_neg h]
          by_cases hlow : u < -swigluLimit
          · rw [if_pos hlow, max_eq_right hlow.le, min_eq_left hneg]
          · rw [if_neg hlow, max_eq_left (not_lt.mp hlow), min_eq_left (not_lt.mp h)]
      simp [hmin, hclamp]
    · simp [if_neg hlimit]

lemma tile_col {c n : ℕ} (hc : c < n / blockN * blockN) : c / blockN < n / blockN := by
  have hc : c < n / 64 * 64 := hc
  show c / 64 < n / 64
  omega

lemma col_of_tile {c n : ℕ} (hc : c / blockN < n / blockN) : c < n / blockN * blockN := by
  have hc : c / 64 < n / 64 := hc
  show c < n / 64 * 64
  omega

variable (args : MoeArgs R W) (topK expert i : ℕ)

omit [Field R] [LinearOrder R] [IsStrictOrderedRing R] in
lemma rowA_eq (k : ℕ) : args.A (i / topK * args.hidden + k) = rowA args topK i (k / blockK) (k % blockK) := by
  unfold rowA
  rw [add_zero, add_assoc]
  congr 2
  exact (block_col k).symm

variable {expert} in
lemma rowAct_of_agrees (h : ExpertAgrees (scalesOf args) expert) (scratch : ℕ → W) {c : ℕ}
    (hc : c < args.ispp / blockN * blockN) :
    rowAct ar args topK expert i scratch c = Moe.rowAct ar args topK expert i c := by
  have hgate : rowGate ar args topK expert i c = Moe.rowGate ar args topK expert i c := by
    refine (matmul_eq_rowDot ar _ (fun k _ => rowA_eq args topK i k) (h.gate c hc)).trans ?_
    unfold Moe.rowGate
    simp [gateTile_row, block_col]
    rfl
  have hup : rowUp ar args topK expert i c = Moe.rowUp ar args topK expert i c := by
    refine (matmul_eq_rowDot ar _ (fun k _ => rowA_eq args topK i k) (h.up c hc)).trans ?_
    unfold Moe.rowUp
    simp [upTile_row, block_col, add_comm c]
    rfl
  have hbias : expert * (2 * args.ispp) + (args.ispp + c) = expert * (2 * args.ispp) + c + args.ispp := by omega
  unfold rowAct Moe.rowAct
  rw [if_pos (tile_col hc), activationValue_eq, hgate, hup, hbias]

variable {expert} in
lemma rowOut_of_agrees (h : ExpertAgrees (scalesOf args) expert) (scratch : ℕ → W) {c : ℕ}
    (hc : c / blockN < args.hidden / blockN) :
    rowOut ar args topK expert i scratch c = Moe.rowOut ar args topK expert i c := by
  have hdown := h.down c (col_of_tile hc)
  have hact : ∀ k < args.ispp, rowAct ar args topK expert i scratch k =
      Moe.rowAct ar args topK expert i (k / blockK * blockK + k % blockK) := by
    intro k hk
    rw [show k / blockK * blockK + k % blockK = k from block_col k]
    exact rowAct_of_agrees ar args topK i h scratch (hdown k hk).1
  unfold rowOut Moe.rowOut
  congr 1
  refine (matmul_eq_rowDot ar (fun kb k => Moe.rowAct ar args topK expert i (kb * blockK + k)) hact hdown).trans ?_
  simp [downTile_row, block_col]
  rfl

end

/-! ## Weights that are read differently -/

section

/-- Exact arithmetic without rounding, where `silu` is the identity. -/
def linearArith : Arith ℚ ℚ where
  nonFinite _ := 0
  bf16ToFloat x := x
  f32ToBf16 x := x
  exp _ := 0
  tanh _ := 0

/-- A packed tensor whose only element is a 1. -/
def oneAt (cols row k : ℕ) : ℕ → UInt8 := fun j =>
  if j = row * (cols / 2) + k / 2 then (if k % 2 = 0 then 0x02 else 0x20) else 0

/-- Gate and up biases of 1, so that without weights every activation is 1. -/
def probeArgs (s : Scales) (hgroup : 0 < s.groupSize) (w13 w2 : ℕ → UInt8) (b2 : Option (ℕ → ℚ)) : MoeArgs ℚ ℚ where
  A _ := 1
  w13 := w13
  w13Scale := s.w13Scale
  w2 := w2
  w2Scale := s.w2Scale
  b13 := some fun _ => 1
  b2 := b2
  hidden := s.hidden
  ispp := s.ispp
  groupSize := s.groupSize
  groupSize_pos := hgroup
  swigluLimit := 0
  activation := 0
  beta := 1
  linearBeta := 0

lemma nibbleAt_zero (cols row k : ℕ) : nibbleAt linearArith (fun _ => 0) cols row k = 0 := by
  unfold nibbleAt
  dsimp only
  rw [show ((0 : UInt8) >>> 4) &&& 0x0F = 0 &&& 0x0F from rfl, ite_self]
  rfl

lemma nibbleAt_oneAt {cols row k row' k' : ℕ} (heven : cols % 2 = 0) (hk : k < cols) (hk' : k' < cols) :
    nibbleAt linearArith (oneAt cols row k) cols row' k' = if row' = row ∧ k' = k then 1 else 0 := by
  have hplace : ∀ r x, x / 2 < cols / 2 → (r * (cols / 2) + x / 2) / (cols / 2) = r := by
    intro r x hx
    rw [mul_comm, Nat.mul_add_div (Nat.zero_lt_of_lt hx), Nat.div_eq_of_lt hx, add_zero]
  have hbyte : row' * (cols / 2) + k' / 2 = row * (cols / 2) + k / 2 ↔ row' = row ∧ k' / 2 = k / 2 := by
    constructor
    · intro h
      have hrow : (row' * (cols / 2) + k' / 2) / (cols / 2) = (row * (cols / 2) + k / 2) / (cols / 2) := by rw [h]
      rw [hplace row' k' (by omega), hplace row k (by omega)] at hrow
      subst hrow
      exact ⟨rfl, by omega⟩
    · rintro ⟨rfl, hhalf⟩
      rw [hhalf]
  have hone : fp4nibToF32 linearArith 2 = 1 := by simp +decide [fp4nibToF32]
  have hzero : fp4nibToF32 linearArith 0 = 0 := rfl
  unfold nibbleAt oneAt
  dsimp only
  by_cases hsame : row' = row ∧ k' / 2 = k / 2
  · rw [if_pos (hbyte.mpr hsame)]
    -- the two halves of the byte
    by_cases hk2 : k % 2 = 0 <;> by_cases hk2' : k' % 2 = 0
    · rw [if_pos hk2, if_pos hk2', if_pos ⟨hsame.1, by omega⟩]
      exact hone
    · rw [if_pos hk2, if_neg hk2', if_neg (by omega)]
      exact hzero
    · rw [if_neg hk2, if_pos hk2', if_neg (by omega)]
      exact hzero
    · rw [if_neg hk2, if_neg hk2', if_pos ⟨hsame.1, by omega⟩]
      exact hone
  · have hother : ¬(row' = row ∧ k' = k) := fun h => hsame ⟨h.1, by rw [h.2]⟩
    rw [if_neg fun h => hsame (hbyte.mp h), if_neg hother,
      show ((0 : UInt8) >>> 4) &&& 0x0F = 0 &&& 0x0F from rfl, ite_self]
    exact hzero

variable (s : Scales) (hgroup : 0 < s.groupSize)

/-- The scale of element `k` of a row for the ranks, and for the fallback in a whole tile. -/
def distScale (scale : ℕ → UInt8) (cols groupSize row k : ℕ) : ℚ :=
  ue8m0ToFloat (scale (row * (cols / groupSize) + k / groupSize))

def fallbackScale (scale : ℕ → UInt8) (cols groupSize row k : ℕ) : ℚ :=
  if k < cols / blockK * blockK then Moe.ue8m0ToFloat (scale (row * (cols / groupSize) +
    (k / blockK * blockK / groupSize + k % blockK / 2 * 2 / groupSize)))
  else 0

lemma distScale_pos (scale : ℕ → UInt8) (cols groupSize row k : ℕ) : 0 < distScale scale cols groupSize row k :=
  zpow_pos two_pos _

variable {groupSize : ℕ}

lemma sameWeight_of_scales {scale : ℕ → UInt8} {cols row k : ℕ}
    (h : distScale scale cols groupSize row k = fallbackScale scale cols groupSize row k) :
    SameWeight scale cols groupSize row k := by
  unfold fallbackScale at h
  by_cases hk : k < cols / blockK * blockK
  · rw [if_pos hk] at h
    exact ⟨hk, (sameScale_iff _ _).mp h⟩
  · rw [if_neg hk] at h
    exact absurd h (distScale_pos scale cols groupSize row k).ne'

lemma matmul_oneAt (scale : ℕ → UInt8) {cols row k : ℕ} (heven : cols % 2 = 0) (hk : k < cols)
    (a : ℕ → ℚ) (row' : ℕ) : matmul linearArith cols a (weight linearArith (oneAt cols row k) scale cols groupSize row') =
      if row' = row then a k * distScale scale cols groupSize row k else 0 := by
  rw [matmul_eq_sum]
  by_cases hrow : row' = row
  · subst hrow
    rw [if_pos rfl, sum_eq_single]
    · rw [weight_eq, nibbleAt_oneAt heven hk hk, if_pos ⟨rfl, rfl⟩, one_mul]
      rfl
    · intro k' hk' hne
      rw [weight_eq, nibbleAt_oneAt heven hk (mem_range.mp hk'), if_neg fun h => hne h.2, zero_mul]
      exact mul_zero _
    · intro hnot
      exact absurd (mem_range.mpr hk) hnot
  · rw [if_neg hrow]
    apply sum_eq_zero
    intro _ hk'
    rw [weight_eq, nibbleAt_oneAt heven hk (mem_range.mp hk'), if_neg fun h => hrow h.1, zero_mul]
    exact mul_zero _

lemma rowDot_oneAt (scale : ℕ → UInt8) {cols row k : ℕ} (heven : cols % 2 = 0) (hk : k < cols)
    (a : ℕ → ℕ → ℚ) (row' : ℕ) :
    rowDot linearArith (cols / blockK) a (rowWeight linearArith (oneAt cols row k) scale cols groupSize row') =
      if row' = row then a (k / blockK) (k % blockK) * fallbackScale scale cols groupSize row k else 0 := by
  have hle := Nat.div_mul_le_self cols blockK
  have hweight : ∀ k' < cols / blockK * blockK, linearArith.bf16ToFloat (rowWeight linearArith (oneAt cols row k) scale cols
      groupSize row' (k' / blockK) (k' % blockK)) = if row' = row ∧ k' = k then fallbackScale scale cols groupSize row k
        else 0 := by
    intro k' hk'
    rw [rowWeight_eq, nibbleAt_oneAt heven hk (by omega)]
    by_cases hsame : row' = row ∧ k' = k
    · obtain ⟨rfl, rfl⟩ := hsame
      rw [if_pos ⟨rfl, rfl⟩, if_pos ⟨rfl, rfl⟩, one_mul, fallbackScale, if_pos hk']
      rfl
    · rw [if_neg hsame, if_neg hsame, zero_mul]
      rfl
  rw [rowDot_eq_range]
  by_cases hrow : row' = row
  · rw [if_pos hrow]
    by_cases hin : k < cols / blockK * blockK
    · rw [sum_eq_single]
      · rw [hweight k hin, if_pos ⟨hrow, rfl⟩]
        rfl
      · intro k' hk' hne
        rw [hweight k' (mem_range.mp hk'), if_neg fun h => hne h.2, mul_zero]
      · intro hnot
        exact absurd (mem_range.mpr hin) hnot
    · rw [fallbackScale, if_neg hin, mul_zero]
      apply sum_eq_zero
      intro k' hk'
      have hk' := mem_range.mp hk'
      rw [hweight k' hk', if_neg, mul_zero]
      rintro ⟨_, rfl⟩
      exact hin hk'
  · rw [if_neg hrow]
    apply sum_eq_zero
    intro k' hk'
    rw [hweight k' (mem_range.mp hk'), if_neg fun h => hrow h.1, mul_zero]

lemma matmul_none (scale : ℕ → UInt8) (cols groupSize row : ℕ) (a : ℕ → ℚ) :
    matmul linearArith cols a (weight linearArith (fun _ => 0) scale cols groupSize row) = 0 := by
  rw [matmul_eq_sum]
  apply sum_eq_zero
  intro k _
  rw [weight_eq, nibbleAt_zero, zero_mul]
  exact mul_zero _

lemma rowDot_none (scale : ℕ → UInt8) (cols groupSize row : ℕ) (a : ℕ → ℕ → ℚ) :
    rowDot linearArith (cols / blockK) a (rowWeight linearArith (fun _ => 0) scale cols groupSize row) = 0 := by
  rw [rowDot_eq_range]
  apply sum_eq_zero
  intro k _
  rw [rowWeight_eq, nibbleAt_zero, zero_mul]
  exact mul_zero _

/-! ### What a probe shows -/

variable (w13 : ℕ → UInt8) (topK expert i : ℕ)

lemma silu_probe (g u : ℚ) : activationValue linearArith 0 g u 0 1 0 = g * u ∧
    epilogueValue linearArith 0 g u 0 1 0 = g * u := by
  constructor
  · simp [activationValue, linearArith]
  · simp [epilogueValue, linearArith, kSiTU]

lemma rowAct_probe (w2 : ℕ → UInt8) (c : ℕ) :
    rowAct linearArith (probeArgs s hgroup w13 w2 none) topK expert i (fun _ => 1) c = if c / blockN < s.ispp / blockN then
      (matmul linearArith s.hidden (fun _ => 1)
        (weight linearArith w13 s.w13Scale s.hidden s.groupSize (expert * (2 * s.ispp) + c)) + 1) *
      (matmul linearArith s.hidden (fun _ => 1)
        (weight linearArith w13 s.w13Scale s.hidden s.groupSize (expert * (2 * s.ispp) + (s.ispp + c))) + 1) else 1 := by
  unfold rowAct
  congr 1
  exact (silu_probe _ _).1

lemma moeRowAct_probe (w2 : ℕ → UInt8) (c : ℕ) :
    Moe.rowAct linearArith (probeArgs s hgroup w13 w2 none) topK expert i c =
      (rowDot linearArith (s.hidden / blockK) (fun _ _ => 1)
        (rowWeight linearArith w13 s.w13Scale s.hidden s.groupSize (expert * (2 * s.ispp) + c)) + 1) *
      (rowDot linearArith (s.hidden / blockK) (fun _ _ => 1)
        (rowWeight linearArith w13 s.w13Scale s.hidden s.groupSize (expert * (2 * s.ispp) + (s.ispp + c))) + 1) := by
  unfold Moe.rowAct Moe.rowGate Moe.rowUp
  simp [gateTile_row, upTile_row, block_col, add_comm c]
  exact (silu_probe _ _).2

lemma rowOut_probe {c n : ℕ} (hispp : s.ispp % 2 = 0) (hn : n < s.ispp) :
    rowOut linearArith (probeArgs s hgroup w13 (oneAt s.ispp (expert * s.hidden + c) n) none) topK expert i
        (fun _ => 1) c =
      rowAct linearArith (probeArgs s hgroup w13 (oneAt s.ispp (expert * s.hidden + c) n) none) topK expert i
        (fun _ => 1) n * distScale s.w2Scale s.ispp s.groupSize (expert * s.hidden + c) n := by
  exact (matmul_oneAt s.w2Scale hispp hn _ _).trans (if_pos rfl)

lemma moeRowOut_probe {c n : ℕ} (hispp : s.ispp % 2 = 0) (hn : n < s.ispp) :
    Moe.rowOut linearArith (probeArgs s hgroup w13 (oneAt s.ispp (expert * s.hidden + c) n) none) topK expert i c =
      Moe.rowAct linearArith (probeArgs s hgroup w13 (oneAt s.ispp (expert * s.hidden + c) n) none) topK expert i n *
        fallbackScale s.w2Scale s.ispp s.groupSize (expert * s.hidden + c) n := by
  unfold Moe.rowOut
  simp [downTile_row, block_col]
  refine (rowDot_oneAt s.w2Scale hispp hn _ _).trans ((if_pos rfl).trans ?_)
  rw [show n / blockK * blockK + n % blockK = n from block_col n]
  rfl

lemma expertAgrees_of_rows (hhidden : s.hidden % 2 = 0) (hispp : s.ispp % 2 = 0) (hvisible : 0 < s.hidden / blockN)
    (h : ∀ (w13 w2 : ℕ → UInt8) (c : ℕ), c / blockN < s.hidden / blockN →
      rowOut linearArith (probeArgs s hgroup w13 w2 none) topK expert i (fun _ => 1) c =
        Moe.rowOut linearArith (probeArgs s hgroup w13 w2 none) topK expert i c) : ExpertAgrees s expert := by
  -- without gate and up weights the activations are 1
  have hdown : ∀ c < s.hidden / blockN * blockN, ∀ n < s.ispp,
      distScale s.w2Scale s.ispp s.groupSize (expert * s.hidden + c) n =
        fallbackScale s.w2Scale s.ispp s.groupSize (expert * s.hidden + c) n := by
    intro c hc n hn
    have hrow := h (fun _ => 0) (oneAt s.ispp (expert * s.hidden + c) n) c (tile_col hc)
    rw [rowOut_probe s hgroup _ topK expert i hispp hn, moeRowOut_probe s hgroup _ topK expert i hispp hn,
      rowAct_probe, moeRowAct_probe, matmul_none, matmul_none, rowDot_none, rowDot_none] at hrow
    simpa using hrow
  -- through a down weight, which is not 0, an output shows the activation
  have hzero : 0 < s.hidden / blockN * blockN := mul_pos hvisible (by decide)
  have hle := Nat.div_mul_le_self s.ispp blockN
  have hact : ∀ w13, ∀ n < s.ispp / blockN * blockN, (matmul linearArith s.hidden (fun _ => 1)
        (weight linearArith w13 s.w13Scale s.hidden s.groupSize (expert * (2 * s.ispp) + n)) + 1) *
      (matmul linearArith s.hidden (fun _ => 1)
        (weight linearArith w13 s.w13Scale s.hidden s.groupSize (expert * (2 * s.ispp) + (s.ispp + n))) + 1) =
      (rowDot linearArith (s.hidden / blockK) (fun _ _ => 1)
        (rowWeight linearArith w13 s.w13Scale s.hidden s.groupSize (expert * (2 * s.ispp) + n)) + 1) *
      (rowDot linearArith (s.hidden / blockK) (fun _ _ => 1)
        (rowWeight linearArith w13 s.w13Scale s.hidden s.groupSize (expert * (2 * s.ispp) + (s.ispp + n))) + 1) := by
    intro w13 n hn
    have hn' := hn.trans_le hle
    have hrow := h w13 (oneAt s.ispp (expert * s.hidden + 0) n) 0 (tile_col hzero)
    rw [rowOut_probe s hgroup _ topK expert i hispp hn', moeRowOut_probe s hgroup _ topK expert i hispp hn',
      ← hdown 0 hzero n hn', rowAct_probe, if_pos (tile_col hn), moeRowAct_probe] at hrow
    exact mul_right_cancel₀ (distScale_pos _ _ _ _ _).ne' hrow
  refine ⟨fun n hn k hk => sameWeight_of_scales ?_, fun n hn k hk => sameWeight_of_scales ?_,
    fun c hc k hk => sameWeight_of_scales (hdown c hc k hk)⟩
  · have hn' := hn.trans_le hle
    have hrow := hact (oneAt s.hidden (expert * (2 * s.ispp) + n) k) n hn
    rw [matmul_oneAt s.w13Scale hhidden hk, matmul_oneAt s.w13Scale hhidden hk, rowDot_oneAt s.w13Scale hhidden hk,
      rowDot_oneAt s.w13Scale hhidden hk, if_pos rfl, if_pos rfl, if_neg (by omega), if_neg (by omega)] at hrow
    simpa using hrow
  · have hn' := hn.trans_le hle
    have hrow := hact (oneAt s.hidden (expert * (2 * s.ispp) + (s.ispp + n)) k) n hn
    rw [matmul_oneAt s.w13Scale hhidden hk, matmul_oneAt s.w13Scale hhidden hk, rowDot_oneAt s.w13Scale hhidden hk,
      rowDot_oneAt s.w13Scale hhidden hk, if_pos rfl, if_pos rfl, if_neg (by omega), if_neg (by omega)] at hrow
    simpa using hrow

lemma rowOut_bias (s : Scales) (hgroup : 0 < s.groupSize) (topK expert e i : ℕ) (hhidden : 0 < s.hidden) (x : ℚ) :
    rowOut linearArith (probeArgs s hgroup (fun _ => 0) (fun _ => 0)
      (some fun j => if j / s.hidden = expert then 1 else 0)) topK e i (fun _ => x) 0 = if e = expert then 1 else 0 := by
  show addBias (some fun j => if j / s.hidden = expert then 1 else 0) (e * s.hidden + 0) (matmul linearArith s.ispp _
    (weight linearArith (fun _ => 0) s.w2Scale s.ispp s.groupSize _)) = _
  rw [matmul_none]
  show (0 : ℚ) + (if (e * s.hidden + 0) / s.hidden = expert then 1 else 0) = _
  rw [zero_add, Nat.add_zero, Nat.mul_div_cancel _ hhidden]

lemma moeRowOut_bias (s : Scales) (hgroup : 0 < s.groupSize) (topK expert e i : ℕ) (hhidden : 0 < s.hidden) :
    Moe.rowOut linearArith (probeArgs s hgroup (fun _ => 0) (fun _ => 0)
      (some fun j => if j / s.hidden = expert then 1 else 0)) topK e i 0 = if e = expert then 1 else 0 := by
  unfold Moe.rowOut
  simp [downTile_row]
  show addBias (some fun j => if j / s.hidden = expert then 1 else 0) (e * s.hidden + 0)
    (rowDot linearArith (s.ispp / blockK) _ (rowWeight linearArith (fun _ => 0) s.w2Scale s.ispp s.groupSize _)) = _
  rw [rowDot_none]
  show (0 : ℚ) + (if (e * s.hidden + 0) / s.hidden = expert then 1 else 0) = _
  rw [zero_add, Nat.add_zero, Nat.mul_div_cancel _ hhidden]

end

/-! ## Layouts -/

section

variable (ids : ℕ → ℤ) (M topK numExperts : ℕ) {blockSize begin : ℕ}

section

variable {ids} {M topK numExperts} {rows : List ℕ} {experts : List ℤ}
  (haligned : Aligned ids M topK blockSize numExperts rows.length rows experts)
  (hbegin : ∀ i < M * topK, 0 ≤ ids i → ids i < numExperts → (begin : ℤ) ≤ ids i)
include haligned hbegin

omit hbegin in
variable (begin) in
lemma linedUp_of_serves (hfits : rows.length / blockM ≤ experts.length)
    (hserves : ∀ i < M * topK, 0 ≤ ids i → ids i < numExperts → ∃ r e, r < rows.length / blockM * blockM ∧
      rows.getD r 0 = i ∧ rowExpert rows.length (experts.map (· - (begin : ℤ))) r = some e ∧
      begin + e = (ids i).toNat) : LinedUp rows experts (M * topK) blockSize := by
  refine ⟨hfits, fun p i hp hi => ?_⟩
  rcases haligned.only _ (List.mem_of_getElem? hp) with hpad | ⟨_, hlo, hhi⟩
  · omega
  · obtain ⟨r, e, hr, hri, he, hexpert⟩ := hserves i hi hlo hhi
    have hrow : rows[r]? = some i := by
      rw [← hri]
      exact getElem?_getD (lt_of_lt_of_le hr (Nat.div_mul_le_self _ _))
    have hsame : p = r := row_unique M topK haligned hp hrow hi
    subst hsame
    unfold rowExpert blockExpert at he
    split at he
    · rename_i hwhole
      refine ⟨hwhole, ?_⟩
      rw [haligned.experts.2 p i hp (ne_of_lt hi)]
      rw [List.getElem?_map] at he
      cases hentry : experts[p / blockM]? with
      | none =>
        rw [hentry] at he
        cases he
      | some x =>
        rw [hentry, Option.map_some, Option.bind_some] at he
        split at he
        · cases he
        · have := Option.some.inj he
          congr 1
          omega
    · cases he

lemma layoutOut_eq {R W : Type} [Field R] [LinearOrder R] (ar : Arith R W) (args : MoeArgs R W) (topkW : ℕ → R)
    (hlined : LinedUp rows experts (M * topK) blockSize) {scratch : ℕ → ℕ → W} (value : ℕ → R) (t c : ℕ)
    (hvalue : ∀ r, ∀ i < M * topK, 0 ≤ ids i → ids i < numExperts → c / blockN < args.hidden / blockN →
      rowOut ar args topK (ids i).toNat i (scratch r) c = value i) :
    layoutOut ar args topkW M topK rows experts begin scratch t c =
      ∑ i ∈ range (M * topK), if 0 ≤ ids i ∧ ids i < numExperts then
        (if c / blockN < args.hidden / blockN ∧ i < M * topK ∧ i / topK = t then value i * topkW i else 0) else 0 := by
  rw [← served_weighted topkW haligned hlined hbegin _ (fun _ i => value i) t]
  refine sum_congr rfl fun r hr => ?_
  cases he : rowExpert rows.length (experts.map (· - (begin : ℤ))) r with
  | none => rfl
  | some e =>
    rw [Option.elim_some, Option.elim_some]
    by_cases hin : c / blockN < args.hidden / blockN ∧ rows.getD r 0 < M * topK ∧ rows.getD r 0 / topK = t
    · have hlt := lt_of_lt_of_le (mem_range.mp hr) (Nat.div_mul_le_self _ _)
      obtain ⟨hids, hle, hexpert⟩ := served_row haligned hlined hbegin (getElem?_getD hlt) hin.2.1
      rw [hexpert] at he
      obtain rfl := Option.some.inj he
      rw [if_pos hin, if_pos hin, show begin + ((ids _).toNat - begin) = (ids (rows.getD r 0)).toNat by
        omega, hvalue r _ hin.2.1 hids.1 hids.2 hin.1]
      rfl
    · rw [if_neg hin, if_neg hin]

end

variable {R W : Type} [Field R] [LinearOrder R] [Zero W] (ar : Arith R W) (args : MoeArgs R W) (topkW : ℕ → R)

omit [Zero W] in
/-- Columns beyond the last whole tile stay 0. -/
lemma layoutOut_hidden (rows : List ℕ) (experts : List ℤ) (scratch : ℕ → ℕ → W) (t : ℕ) {c : ℕ}
    (hc : ¬ c / blockN < args.hidden / blockN) : layoutOut ar args topkW M topK rows experts begin scratch t c = 0 := by
  apply sum_eq_zero
  intro r _
  cases rowExpert rows.length (experts.map (· - (begin : ℤ))) r with
  | none => rfl
  | some e => exact if_neg fun h => hc h.1

/-! ### What the oracle gives -/

omit [Zero W] in
lemma given_hidden (t : ℕ) {c : ℕ} (hc : ¬ c / blockN < args.hidden / blockN) :
    (∑ i ∈ range (M * topK), if 0 ≤ ids i ∧ ids i < numExperts then
      given ar args topkW ids M topK t c i else 0) = 0 := by
  apply sum_eq_zero
  intro i _
  have hzero : given ar args topkW ids M topK t c i = 0 := if_neg fun h => hc h.1
  rw [hzero, ite_self]

lemma sum_probeW {i : ℕ} (hi : i < M * topK) (hids : 0 ≤ ids i ∧ ids i < numExperts) {hidden c : ℕ}
    (hc : c / blockN < hidden / blockN) (value : ℕ → ℚ) :
    (∑ j ∈ range (M * topK), if 0 ≤ ids j ∧ ids j < numExperts then
      (if c / blockN < hidden / blockN ∧ j < M * topK ∧ j / topK = i / topK then value j * probeW i j else 0) else 0) =
      value i := by
  rw [sum_eq_single]
  · rw [if_pos hids, if_pos ⟨hc, hi, rfl⟩, probeW, if_pos rfl, mul_one]
  · intro j _ hj
    rw [probeW, if_neg hj, mul_zero, ite_self, ite_self]
  · intro hnot
    exact absurd (mem_range.mpr hi) hnot

lemma serves_of_layoutOut (s : Scales) (hgroup : 0 < s.groupSize) (hhidden : 0 < s.hidden) {expert i : ℕ}
    {rows : List ℕ} {experts : List ℤ} {x : ℚ} (h : layoutOut linearArith (probeArgs s hgroup (fun _ => 0) (fun _ => 0)
      (some fun j => if j / s.hidden = expert then 1 else 0)) (probeW i) M topK rows experts begin
      (fun _ _ => x) (i / topK) 0 ≠ 0) : ∃ r e, r < rows.length / blockM * blockM ∧ rows.getD r 0 = i ∧
      rowExpert rows.length (experts.map (· - (begin : ℤ))) r = some e ∧ begin + e = expert := by
  obtain ⟨r, hr, hne⟩ := exists_ne_zero_of_sum_ne_zero h
  cases he : rowExpert rows.length (experts.map (· - (begin : ℤ))) r with
  | none =>
    rw [he] at hne
    exact absurd rfl hne
  | some e =>
    rw [he, Option.elim_some] at hne
    split at hne
    · rw [rowOut_bias s hgroup topK expert _ _ hhidden] at hne
      refine ⟨r, e, mem_range.mp hr, ?_, he, ?_⟩
      · by_contra hrow
        apply right_ne_zero_of_mul hne
        unfold sortedWeights probeW
        rw [if_neg hrow, ite_self]
      · by_contra hexpert
        exact left_ne_zero_of_mul hne (if_neg hexpert)
    · exact absurd rfl hne

end

variable (s : Scales) (ids : ℕ → ℤ) (M topK numExperts : ℕ)

/-! ## Tensor parallelism -/

section

variable {blockSize tp : ℕ} {plan : MoeTPPlan}

lemma tpMatchesOracle_of_agree {R W : Type} [Field R] [LinearOrder R] [IsStrictOrderedRing R] [Zero W]
    (ar : Arith R W) (args : MoeArgs R W) (topkW : ℕ → R) (scratch oracleScratch : ℕ → ℕ → W) (hblock : 0 < blockSize)
    (hplan : tpPlan args.hidden args.ispp tp args.groupSize = .ok plan)
    (hactivation : args.activation = 0 ∨ args.activation = 1)
    (hserves : LayoutServes (scalesOf args) ids M topK numExperts blockSize)
    (hagree : RoutedAgree (scalesOf args) ids M topK numExperts) :
    TpMatchesOracle ar args ids topkW scratch oracleScratch M topK numExperts blockSize tp := by
  have hok := tpPlan_ok hplan
  obtain ⟨hhidden, hispp⟩ := hok.even
  obtain ⟨_, hout, hsum⟩ := distMoeTp_ok ar args topkW M topK ids hblock hplan hactivation hserves.1 scratch
  obtain ⟨oracleOut, horacle, horacleSum⟩ := Fallback.oracle_out ar args ids topkW oracleScratch M topK numExperts
    hhidden hispp hactivation
  refine ⟨_, oracleOut, hout, List.length_replicate, horacle, ?_⟩
  intro o ho t c
  rw [List.eq_of_mem_replicate ho, hsum, horacleSum]
  by_cases hc : c / blockN < args.hidden / blockN
  · have hvisible : 0 < args.hidden / blockN := Nat.zero_lt_of_lt hc
    exact layoutOut_eq (paddedIds_aligned ids M topK numExperts hblock) (fun i _ hlo _ => hlo) ar args topkW
      (hserves.2 hvisible) (fun i => Moe.rowOut ar args topK (ids i).toNat i c) t c fun r i hi hlo hhi hc =>
        rowOut_of_agrees ar args topK i (hagree hvisible i hi hlo hhi) _ hc
  · rw [layoutOut_hidden M topK ar args topkW _ _ scratch t hc, given_hidden ids M topK numExperts ar args topkW t hc]

/-- **Tensor parallelism** is exact for all weights exactly when the layout serves every routed row and the
routed experts' weights are read alike. -/
theorem tpMatchesOracle_iff (hgroup : 0 < s.groupSize) (hblock : 0 < blockSize)
    (hplan : tpPlan s.hidden s.ispp tp s.groupSize = .ok plan) :
    (∀ (R W : Type) [Field R] [LinearOrder R] [IsStrictOrderedRing R] [Zero W] (ar : Arith R W) (args : MoeArgs R W),
      scalesOf args = s → (args.activation = 0 ∨ args.activation = 1) →
      ∀ (topkW : ℕ → R) (scratch oracleScratch : ℕ → ℕ → W),
        TpMatchesOracle ar args ids topkW scratch oracleScratch M topK numExperts blockSize tp) ↔
      LayoutServes s ids M topK numExperts blockSize ∧ RoutedAgree s ids M topK numExperts := by
  constructor
  · intro h
    have hok := tpPlan_ok hplan
    obtain ⟨hhidden, hispp⟩ := hok.even
    have haligned := paddedIds_aligned ids M topK numExperts hblock
    -- the ranks return, so they read no block beyond the table
    have hfits : (paddedIds ids M topK blockSize numExperts).length / blockM ≤
        (blockExperts ids M topK blockSize numExperts).length := by
      by_contra hlong
      obtain ⟨outs, _, houts, _⟩ := h ℚ ℚ linearArith (probeArgs s hgroup (fun _ => 0) (fun _ => 0) none) rfl
        (.inl rfl) (fun _ => 0) (fun _ _ => 0) (fun _ _ => 0)
      exact distMoeTp_error linearArith (probeArgs s hgroup (fun _ => 0) (fun _ => 0) none) _ M topK ids hblock hplan
        (by omega) _ _ houts
    -- what a probe of one token sees of both
    have hprobe : ∀ (w13 w2 : ℕ → UInt8) (b2 : Option (ℕ → ℚ)) (i c : ℕ),
        i < M * topK → 0 ≤ ids i → ids i < numExperts → c / blockN < s.hidden / blockN →
        layoutOut linearArith (probeArgs s hgroup w13 w2 b2) (probeW i) M topK
          (paddedIds ids M topK blockSize numExperts) (blockExperts ids M topK blockSize numExperts) 0 (fun _ _ => 1)
          (i / topK) c = Moe.rowOut linearArith (probeArgs s hgroup w13 w2 b2) topK (ids i).toNat i c := by
      intro w13 w2 b2 i c hi hlo hhi hc
      obtain ⟨_, _, houts, hlen, hout, hsame⟩ := h ℚ ℚ linearArith (probeArgs s hgroup w13 w2 b2) rfl
        (.inl rfl) _ (fun _ _ => 1) (fun _ _ => 0)
      obtain ⟨o, ho, hsum⟩ := distMoeTp_ok linearArith (probeArgs s hgroup w13 w2 b2) _ M topK ids hblock
        hplan (.inl rfl) hfits fun _ _ => 1
      obtain ⟨_, horacle, horacleSum⟩ := Fallback.oracle_out linearArith (probeArgs s hgroup w13 w2 b2) ids
        (probeW i) (fun _ _ => 0) M topK numExperts hhidden hispp (.inl rfl)
      rw [ho] at houts
      rw [horacle] at hout
      cases houts
      cases hout
      rw [← hsum, hsame o (List.mem_replicate.mpr ⟨hok.tp_pos.ne', rfl⟩), horacleSum]
      exact sum_probeW ids M topK numExperts hi ⟨hlo, hhi⟩ hc fun j =>
        Moe.rowOut linearArith _ topK (ids j).toNat j c
    have hlined : 0 < s.hidden / blockN → LinedUp (paddedIds ids M topK blockSize numExperts)
        (blockExperts ids M topK blockSize numExperts) (M * topK) blockSize := by
      intro hvisible
      have hpos : 0 < s.hidden := pos_of_ne_zero fun h => by simp [h] at hvisible
      refine linedUp_of_serves 0 haligned hfits fun i hi hlo hhi => ?_
      apply serves_of_layoutOut M topK s hgroup hpos
      rw [hprobe _ _ _ i 0 hi hlo hhi (by rwa [Nat.zero_div]), moeRowOut_bias s hgroup topK _ _ i hpos, if_pos rfl]
      exact one_ne_zero
    refine ⟨⟨hfits, hlined⟩, fun hvisible i hi hlo hhi => ?_⟩
    refine expertAgrees_of_rows s hgroup topK (ids i).toNat i hhidden hispp hvisible fun w13 w2 c hc => ?_
    rw [← hprobe w13 w2 none i c hi hlo hhi hc]
    refine Eq.symm ?_
    refine (layoutOut_eq haligned (fun i _ hlo _ => hlo) linearArith _ _
      (hlined hvisible) (fun j => rowOut linearArith _ topK
        (ids j).toNat j (fun _ => 1) c) _ c fun _ _ _ _ _ _ => rfl).trans ?_
    exact sum_probeW ids M topK numExperts hi ⟨hlo, hhi⟩ hc _
  · rintro ⟨hserves, hagree⟩ R W _ _ _ _ ar args rfl hactivation topkW scratch oracleScratch
    exact tpMatchesOracle_of_agree ids M topK numExperts ar args topkW scratch oracleScratch hblock hplan hactivation
      hserves hagree

end

/-! ## Expert parallelism -/

section

variable {blockSize ep : ℕ}

/-- The layout of every rank serves the routed rows of its experts. -/
def RanksServe (blockSize ep : ℕ) : Prop :=
  ∀ rank plan, epPlan numExperts ep rank = .ok plan →
    LayoutServes s (plan.mask ids) M topK numExperts blockSize

/-- The shapes that `_dequant_full` and the oracle take. -/
structure Shaped (s : Scales) : Prop where
  hidden_even : s.hidden % 2 = 0
  ispp_even : s.ispp % 2 = 0
  hidden_groups : s.hidden % s.groupSize = 0
  ispp_groups : s.ispp % s.groupSize = 0

def rankPlan (numExperts ep rank : ℕ) : MoeEPPlan :=
  ⟨ep, rank, planBound numExperts ep rank, planBound numExperts ep (rank + 1),
    planBound numExperts ep (rank + 1) - planBound numExperts ep rank⟩

variable {numExperts} in
lemma epPlan_eq (hep : 0 < ep) (hle : ep ≤ numExperts) {rank : ℕ} (hrank : rank < ep) :
    epPlan numExperts ep rank = .ok (rankPlan numExperts ep rank) := epPlan_ok_iff.mpr (moeEpPlan_eq hep hle hrank)

lemma mask_begin (plan : MoeEPPlan) : ∀ i < M * topK, 0 ≤ plan.mask ids i → plan.mask ids i < numExperts →
    (plan.expertBegin : ℤ) ≤ plan.mask ids i := by
  intro i _ hlo _
  obtain ⟨hid, hbegin, _⟩ := mask_nonneg ids hlo
  omega

variable {R W : Type} [Field R] [LinearOrder R] (ar : Arith R W) (args : MoeArgs R W) (topkW : ℕ → R)

lemma sum_layoutOut (hblock : 0 < blockSize) (hep : 0 < ep)
    (hlined : ∀ rank < ep, LinedUp (paddedIds ((rankPlan numExperts ep rank).mask ids) M topK blockSize numExperts)
      (blockExperts ((rankPlan numExperts ep rank).mask ids) M topK blockSize numExperts) (M * topK) blockSize)
    {scratch : ℕ → ℕ → ℕ → W} (value : ℕ → R) (t c : ℕ)
    (hvalue : ∀ rank r, ∀ i < M * topK, 0 ≤ ids i → ids i < numExperts → c / blockN < args.hidden / blockN →
      rowOut ar args topK (ids i).toNat i (scratch rank r) c = value i) :
    ∑ rank ∈ range ep, layoutOut ar args topkW M topK
        (paddedIds ((rankPlan numExperts ep rank).mask ids) M topK blockSize numExperts)
        (blockExperts ((rankPlan numExperts ep rank).mask ids) M topK blockSize numExperts)
        (rankPlan numExperts ep rank).expertBegin (scratch rank) t c =
      ∑ i ∈ range (M * topK), if 0 ≤ ids i ∧ ids i < numExperts then
        (if c / blockN < args.hidden / blockN ∧ i < M * topK ∧ i / topK = t then value i * topkW i else 0) else 0 := by
  have hrank : ∀ rank ∈ range ep, layoutOut ar args topkW M topK
      (paddedIds ((rankPlan numExperts ep rank).mask ids) M topK blockSize numExperts)
      (blockExperts ((rankPlan numExperts ep rank).mask ids) M topK blockSize numExperts)
      (rankPlan numExperts ep rank).expertBegin (scratch rank) t c =
      ∑ i ∈ range (M * topK), if planBound numExperts ep rank ≤ ids i ∧ ids i < planBound numExperts ep (rank + 1) then
          (if c / blockN < args.hidden / blockN ∧ i < M * topK ∧ i / topK = t then value i * topkW i else 0)
        else 0 := by
    intro rank hrank
    have hrank := mem_range.mp hrank
    have hend : planBound numExperts ep (rank + 1) ≤ numExperts := by
      have hmono := planBound_mono numExperts ep (show rank + 1 ≤ ep from hrank)
      rwa [planBound_last hep] at hmono
    refine (layoutOut_eq (paddedIds_aligned ((rankPlan numExperts ep rank).mask ids) M topK numExperts hblock)
      (mask_begin ids M topK numExperts _) ar args topkW (hlined rank hrank) value t c ?_).trans ?_
    · intro r i hi hlo hhi hc
      have hid := (mask_nonneg ids hlo).1
      rw [hid] at hlo hhi ⊢
      exact hvalue rank r i hi hlo hhi hc
    · refine sum_congr rfl fun i _ => ?_
      by_cases hin : planBound numExperts ep rank ≤ ids i ∧ ids i < planBound numExperts ep (rank + 1)
      · have hid : (rankPlan numExperts ep rank).mask ids i = ids i := if_pos hin
        rw [hid, if_pos (show 0 ≤ ids i ∧ ids i < numExperts by omega), if_pos hin]
      · have hid : (rankPlan numExperts ep rank).mask ids i = -1 := if_neg hin
        rw [hid, if_neg (by omega), if_neg hin]
  rw [sum_congr rfl hrank, sum_comm]
  refine sum_congr rfl fun i _ => ?_
  exact sum_ranks hep (ids i) _

variable [IsStrictOrderedRing R] [Zero W]

lemma epMatchesOracle_of_agree (scratch : ℕ → ℕ → ℕ → W) (oracleScratch : ℕ → ℕ → W) (hblock : 0 < blockSize)
    (hep : 0 < ep) (hle : ep ≤ numExperts) (hshaped : Shaped (scalesOf args))
    (hactivation : args.activation = 0 ∨ args.activation = 1)
    (hserves : RanksServe (scalesOf args) ids M topK numExperts blockSize ep)
    (hagree : RoutedAgree (scalesOf args) ids M topK numExperts) :
    EpMatchesOracle ar args ids topkW scratch oracleScratch M topK numExperts blockSize ep := by
  obtain ⟨out, hout, hsum⟩ := distMoeEp_ok ar args topkW M topK ids hshaped.hidden_even hshaped.ispp_even
    hshaped.hidden_groups hshaped.ispp_groups hblock hep hle (fun rank plan hplan => (hserves rank plan hplan).1) scratch
  obtain ⟨oracleOut, horacle, horacleSum⟩ := Fallback.oracle_out ar args ids topkW oracleScratch M topK numExperts
    hshaped.hidden_even hshaped.ispp_even hactivation
  refine ⟨_, oracleOut, hout, by simp, horacle, ?_⟩
  intro t c
  have hranks : (((List.range ep).map out).map fun o => o t c).sum = ∑ rank ∈ range ep, layoutOut ar args topkW
      M topK (paddedIds ((rankPlan numExperts ep rank).mask ids) M topK blockSize numExperts)
      (blockExperts ((rankPlan numExperts ep rank).mask ids) M topK blockSize numExperts)
      (rankPlan numExperts ep rank).expertBegin (scratch rank) t c := by
    refine (congrArg List.sum (List.map_map ..)).trans ?_
    exact sum_congr rfl fun rank hrank =>
      hsum rank _ (epPlan_eq hep hle (mem_range.mp hrank)) t c
  rw [hranks, horacleSum]
  by_cases hc : c / blockN < args.hidden / blockN
  · have hvisible : 0 < args.hidden / blockN := Nat.zero_lt_of_lt hc
    exact sum_layoutOut ids M topK numExperts ar args topkW hblock hep
      (fun rank hrank => (hserves rank _ (epPlan_eq hep hle hrank)).2 hvisible)
      (fun i => Moe.rowOut ar args topK (ids i).toNat i c) t c fun rank r i hi hlo hhi hc =>
        rowOut_of_agrees ar args topK i (hagree hvisible i hi hlo hhi) _ hc
  · rw [given_hidden ids M topK numExperts ar args topkW t hc]
    exact sum_eq_zero fun rank _ => layoutOut_hidden M topK ar args topkW _ _ _ t hc

/-- **Expert parallelism** is exact for all weights exactly when the layouts of the ranks serve every routed row
and the routed experts' weights are read alike. -/
theorem epMatchesOracle_iff (hgroup : 0 < s.groupSize) (hblock : 0 < blockSize) (hep : 0 < ep) (hle : ep ≤ numExperts)
    (hshaped : Shaped s) :
    (∀ (R W : Type) [Field R] [LinearOrder R] [IsStrictOrderedRing R] [Zero W] (ar : Arith R W) (args : MoeArgs R W),
      scalesOf args = s → (args.activation = 0 ∨ args.activation = 1) →
      ∀ (topkW : ℕ → R) (scratch : ℕ → ℕ → ℕ → W) (oracleScratch : ℕ → ℕ → W),
        EpMatchesOracle ar args ids topkW scratch oracleScratch M topK numExperts blockSize ep) ↔
      RanksServe s ids M topK numExperts blockSize ep ∧ RoutedAgree s ids M topK numExperts := by
  constructor
  · intro h
    -- the ranks return, so they read no block beyond their tables
    have hfits : ∀ rank plan, epPlan numExperts ep rank = .ok plan →
        (paddedIds (plan.mask ids) M topK blockSize numExperts).length / blockM ≤
          (blockExperts (plan.mask ids) M topK blockSize numExperts).length := by
      intro rank plan hplan
      obtain ⟨outs, _, houts, _⟩ := h ℚ ℚ linearArith (probeArgs s hgroup (fun _ => 0) (fun _ => 0) none) rfl
        (.inl rfl) (fun _ => 0) (fun _ _ _ => 0) (fun _ _ => 0)
      exact fits_of_distMoeEp linearArith (probeArgs s hgroup (fun _ => 0) (fun _ => 0) none) _ M topK ids
        hshaped.hidden_even hshaped.hidden_groups hblock houts hplan
    -- what a probe of one token sees of both
    have hprobe : ∀ (w13 w2 : ℕ → UInt8) (b2 : Option (ℕ → ℚ)) (i c : ℕ),
        i < M * topK → 0 ≤ ids i → ids i < numExperts → c / blockN < s.hidden / blockN →
        ∑ rank ∈ range ep, layoutOut linearArith (probeArgs s hgroup w13 w2 b2) (probeW i) M topK
          (paddedIds ((rankPlan numExperts ep rank).mask ids) M topK blockSize numExperts)
          (blockExperts ((rankPlan numExperts ep rank).mask ids) M topK blockSize numExperts)
          (rankPlan numExperts ep rank).expertBegin (fun _ _ => 1) (i / topK) c =
          Moe.rowOut linearArith (probeArgs s hgroup w13 w2 b2) topK (ids i).toNat i c := by
      intro w13 w2 b2 i c hi hlo hhi hc
      obtain ⟨_, _, houts, _, hout, hsame⟩ := h ℚ ℚ linearArith (probeArgs s hgroup w13 w2 b2) rfl
        (.inl rfl) _ (fun _ _ _ => 1) (fun _ _ => 0)
      obtain ⟨o, ho, hsum⟩ := distMoeEp_ok linearArith (probeArgs s hgroup w13 w2 b2) _ M topK ids
        hshaped.hidden_even hshaped.ispp_even hshaped.hidden_groups hshaped.ispp_groups hblock hep hle hfits
        fun _ _ _ => 1
      obtain ⟨_, horacle, horacleSum⟩ := Fallback.oracle_out linearArith (probeArgs s hgroup w13 w2 b2) ids
        (probeW i) (fun _ _ => 0) M topK numExperts hshaped.hidden_even hshaped.ispp_even (.inl rfl)
      rw [ho] at houts
      rw [horacle] at hout
      cases houts
      cases hout
      rw [← sum_congr rfl fun rank hrank => hsum rank _ (epPlan_eq hep hle (mem_range.mp hrank)) _ _]
      refine Eq.trans ?_ ((hsame (i / topK) c).trans ?_)
      · rw [List.map_map]
        rfl
      · rw [horacleSum]
        exact sum_probeW ids M topK numExperts hi ⟨hlo, hhi⟩ hc fun j =>
          Moe.rowOut linearArith _ topK (ids j).toNat j c
    have hlined : ∀ rank < ep, 0 < s.hidden / blockN →
        LinedUp (paddedIds ((rankPlan numExperts ep rank).mask ids) M topK blockSize numExperts)
          (blockExperts ((rankPlan numExperts ep rank).mask ids) M topK blockSize numExperts) (M * topK) blockSize := by
      intro rank hrank hvisible
      have hpos : 0 < s.hidden := pos_of_ne_zero fun h => by simp [h] at hvisible
      refine linedUp_of_serves (rankPlan numExperts ep rank).expertBegin (paddedIds_aligned _ M topK numExperts hblock)
        (hfits rank _ (epPlan_eq hep hle hrank)) fun i hi hlo hhi => ?_
      obtain ⟨hid, hfirst, hlast⟩ := mask_nonneg ids hlo
      rw [hid] at hlo hhi ⊢
      -- some rank serves the token with its expert, and that rank owns the expert
      have hone := hprobe (fun _ => 0) (fun _ => 0) (some fun j => if j / s.hidden = (ids i).toNat then 1 else 0) i 0 hi
        hlo hhi (by rwa [Nat.zero_div])
      rw [moeRowOut_bias s hgroup topK _ _ i hpos, if_pos rfl] at hone
      obtain ⟨other, hother, hne⟩ := exists_ne_zero_of_sum_ne_zero (hone.trans_ne one_ne_zero)
      obtain ⟨r, e, hr, hri, he, hexpert⟩ := serves_of_layoutOut M topK s hgroup hpos hne
      have hrow : (paddedIds ((rankPlan numExperts ep other).mask ids) M topK blockSize numExperts)[r]? = some i := by
        rw [← hri]
        exact getElem?_getD (lt_of_lt_of_le hr (Nat.div_mul_le_self _ _))
      obtain ⟨_, hfirst', hlast', _⟩ := mask_of_row ids M topK (paddedIds_aligned _ M topK numExperts hblock) hrow hi
      have hsame : other = rank := rank_unique numExperts ep hfirst' hlast' hfirst hlast
      subst hsame
      exact ⟨r, e, hr, hri, he, hexpert⟩
    refine ⟨fun rank plan hplan => ⟨hfits rank plan hplan, fun hvisible => ?_⟩, fun hvisible i hi hlo hhi => ?_⟩
    · have hrank := (moeEpPlan_ok (epPlan_ok_iff.mp hplan)).1
      have hsame := hplan
      rw [epPlan_eq hep hle hrank] at hsame
      cases hsame
      exact hlined rank hrank hvisible
    · refine expertAgrees_of_rows s hgroup topK (ids i).toNat i hshaped.hidden_even hshaped.ispp_even
        hvisible fun w13 w2 c hc => ?_
      rw [← hprobe w13 w2 none i c hi hlo hhi hc]
      refine Eq.symm ?_
      refine (sum_layoutOut ids M topK numExperts linearArith _ _ hblock hep
        (fun rank hrank => hlined rank hrank hvisible) (fun j => rowOut linearArith _
          topK (ids j).toNat j (fun _ => 1) c) _ c fun _ _ _ _ _ _ _ => rfl).trans ?_
      exact sum_probeW ids M topK numExperts hi ⟨hlo, hhi⟩ hc _
  · rintro ⟨hserves, hagree⟩ R W _ _ _ _ ar args rfl hactivation topkW scratch oracleScratch
    exact epMatchesOracle_of_agree ids M topK numExperts ar args topkW scratch oracleScratch hblock hep hle hshaped
      hactivation hserves hagree

end

/-! ## Both forwards -/

/-- **The distributed MoE**: for all weights, in every arithmetic, each forward is the single-rank oracle exactly
when its layouts serve every routed row and the scale bytes that outputs depend on are read alike. -/
theorem dist_moe_iff (s : Scales) (ids : ℕ → ℤ) (M topK numExperts blockSize : ℕ) (hgroup : 0 < s.groupSize)
    (hblock : 0 < blockSize) : (∀ tp plan, tpPlan s.hidden s.ispp tp s.groupSize = .ok plan →
      ((∀ (R W : Type) [Field R] [LinearOrder R] [IsStrictOrderedRing R] [Zero W] (ar : Arith R W) (args : MoeArgs R W),
        scalesOf args = s → (args.activation = 0 ∨ args.activation = 1) →
        ∀ (topkW : ℕ → R) (scratch oracleScratch : ℕ → ℕ → W),
          TpMatchesOracle ar args ids topkW scratch oracleScratch M topK numExperts blockSize tp) ↔
        LayoutServes s ids M topK numExperts blockSize ∧ RoutedAgree s ids M topK numExperts)) ∧
    (∀ ep, 0 < ep → ep ≤ numExperts → Shaped s →
      ((∀ (R W : Type) [Field R] [LinearOrder R] [IsStrictOrderedRing R] [Zero W] (ar : Arith R W) (args : MoeArgs R W),
        scalesOf args = s → (args.activation = 0 ∨ args.activation = 1) →
        ∀ (topkW : ℕ → R) (scratch : ℕ → ℕ → ℕ → W) (oracleScratch : ℕ → ℕ → W),
          EpMatchesOracle ar args ids topkW scratch oracleScratch M topK numExperts blockSize ep) ↔
        RanksServe s ids M topK numExperts blockSize ep ∧ RoutedAgree s ids M topK numExperts)) :=
  ⟨fun _ _ hplan => tpMatchesOracle_iff s ids M topK numExperts hgroup hblock hplan,
    fun _ hep hle hshaped => epMatchesOracle_iff s ids M topK numExperts hgroup hblock hep hle hshaped⟩

lemma layoutServes_sixteen (s : Scales) (ids : ℕ → ℤ) (M topK numExperts : ℕ) :
    LayoutServes s ids M topK numExperts 16 :=
  ⟨(linedUp_sixteen ids M topK numExperts).1, fun _ => linedUp_sixteen ids M topK numExperts⟩

lemma sameWeight_iff {scale : ℕ → UInt8} {cols groupSize row k : ℕ} (hcols : cols % blockK = 0)
    (heven : groupSize % 2 = 0) (htile : blockK % groupSize = 0) (hk : k < cols) :
    SameWeight scale cols groupSize row k ↔ scale (row * (cols / groupSize) + k / groupSize) ≠ 0xFF := by
  have hwhole : cols / blockK * blockK = cols := Nat.div_mul_cancel (Nat.dvd_of_mod_eq_zero hcols)
  obtain ⟨q, hq⟩ := Nat.dvd_of_mod_eq_zero htile
  have hpos : 0 < groupSize := Nat.pos_of_ne_zero fun h => by
    rw [h, Nat.zero_mul] at hq
    exact absurd hq (by decide)
  -- the group within the tile, and the group of the tile
  have hin : k % blockK / 2 * 2 / groupSize = k % blockK / groupSize := by
    obtain ⟨h, rfl⟩ := Nat.dvd_of_mod_eq_zero heven
    rw [Nat.mul_comm 2, Nat.mul_div_mul_right _ _ Nat.two_pos, Nat.div_div_eq_div_mul, Nat.mul_comm]
  have hfrom : k / blockK * blockK / groupSize = k / blockK * q := by
    rw [hq, Nat.mul_left_comm, Nat.mul_div_cancel_left _ hpos]
  have hsplit : k / groupSize = k / blockK * q + k % blockK / groupSize := by
    have hk' : k = groupSize * (k / blockK * q) + k % blockK := by
      rw [Nat.mul_left_comm, ← hq]
      exact (Nat.div_add_mod' k blockK).symm
    have hdiv : (groupSize * (k / blockK * q) + k % blockK) / groupSize = k / blockK * q + k % blockK / groupSize :=
      Nat.mul_add_div hpos _ _
    rwa [← hk'] at hdiv
  unfold SameWeight
  rw [hwhole, hin, hfrom, ← hsplit]
  constructor
  · rintro ⟨_, ⟨hne, _⟩ | ⟨hmax, h127⟩⟩
    · exact hne
    · rw [hmax] at h127
      exact absurd h127 (by decide)
  · intro hne
    exact ⟨hk, .inl ⟨hne, rfl⟩⟩

/-- A layer of one expert with scales of 1, -/
def unitScales (w2Scale : UInt8) : Scales := ⟨64, 64, 32, fun _ => 127, fun _ => w2Scale⟩

lemma unitScales_pos (b : UInt8) : 0 < (unitScales b).groupSize := Nat.succ_pos 31

lemma unitPlan : tpPlan 64 64 1 32 = .ok ⟨1, 64, 64, 64, 64, 4096, 256, 2048, 128⟩ := rfl

lemma unitAgrees (expert : ℕ) : ExpertAgrees (unitScales 127) expert := by
  have hsame : ∀ row k, k < 64 → SameWeight (fun _ => 127) 64 32 row k := fun row k hk =>
    (sameWeight_iff rfl rfl rfl hk).mpr (by decide)
  exact ⟨fun c _ k hk => hsame _ k hk, fun c _ k hk => hsame _ k hk, fun c _ k hk => hsame _ k hk⟩

theorem dist_moe_iff_unit :
    TpMatchesOracle linearArith (probeArgs (unitScales 127) (unitScales_pos 127) (fun _ => 0x22) (fun _ => 0x22) none)
      (fun _ => 0) (fun _ => 1) (fun _ _ => 5) (fun _ _ => 7) 17 1 1 16 1 :=
  ((dist_moe_iff (unitScales 127) (fun _ => 0) 17 1 1 16 (unitScales_pos 127) (Nat.succ_pos 15)).1 1 _ unitPlan).mpr
    ⟨layoutServes_sixteen _ _ 17 1 1, fun _ _ _ _ _ => unitAgrees _⟩ ℚ ℚ linearArith _ rfl (.inl rfl) _ _ _

/-- The probe of the first down weight. -/
def ffArgs : MoeArgs ℚ ℚ :=
  probeArgs (unitScales 0xFF) (unitScales_pos 0xFF) (fun _ => 0) (oneAt 64 (0 * 64 + 0) 0) none

/-- and one with down scales of 0xFF: the ranks multiply by 1, the oracle by 0. -/
theorem scale_ff_differs : ∃ tpOut epOut out,
    distMoeTp linearArith ffArgs (fun _ => 0) (probeW 0) (fun _ _ => 1) 1 1 1 16 1 = .ok [tpOut] ∧
    distMoeEp linearArith ffArgs (fun _ => 0) (probeW 0) (fun _ _ _ => 1) 1 1 1 16 1 = .ok [epOut] ∧
    Fallback.oracle linearArith ffArgs (fun _ => 0) (probeW 0) (fun _ _ => 1) 1 1 1 = .ok out ∧
    tpOut 0 0 = 1 ∧ epOut 0 0 = 1 ∧ out 0 0 = 0 := by
  have hrow : rowOut linearArith ffArgs 1 0 0 (fun _ => 1) 0 = 1 := by
    refine (rowOut_probe (unitScales 0xFF) (unitScales_pos 0xFF) (fun _ => 0) 1 0 0 (c := 0) (n := 0) rfl
      (by decide)).trans ?_
    rw [rowAct_probe, matmul_none, matmul_none]
    show (if 0 / 64 < 64 / 64 then ((0 : ℚ) + 1) * (0 + 1) else 1) * 2 ^ (0 : ℤ) = 1
    norm_num
  have horacleRow : Moe.rowOut linearArith ffArgs 1 0 0 0 = 0 := by
    refine (moeRowOut_probe (unitScales 0xFF) (unitScales_pos 0xFF) (fun _ => 0) 1 0 0 (c := 0) (n := 0) rfl
      (by decide)).trans ?_
    have hscale : fallbackScale (unitScales 0xFF).w2Scale (unitScales 0xFF).ispp (unitScales 0xFF).groupSize
        (0 * (unitScales 0xFF).hidden + 0) 0 = 0 := rfl
    rw [hscale, mul_zero]
  have hvisible : 0 / blockN < ffArgs.hidden / blockN := show 0 / 64 < 64 / 64 by decide
  have hids : (0 : ℤ) ≤ (fun _ : ℕ => (0 : ℤ)) 0 ∧ (fun _ : ℕ => (0 : ℤ)) 0 < ((1 : ℕ) : ℤ) := by decide
  obtain ⟨tpOut, htp, htpSum⟩ := distMoeTp_ok linearArith ffArgs (probeW 0) 1 1 (fun _ => 0) (Nat.succ_pos 15) unitPlan
    (.inl rfl) (linedUp_sixteen (fun _ => 0) 1 1 1).1 fun _ _ => 1
  obtain ⟨epOut, hep, hepSum⟩ := distMoeEp_ok linearArith ffArgs (probeW 0) 1 1 (fun _ => 0) rfl rfl rfl rfl
    (Nat.succ_pos 15) one_pos (le_refl 1) (fun _ plan _ => (linedUp_sixteen (plan.mask fun _ => 0) 1 1 1).1)
    fun _ _ _ => 1
  obtain ⟨out, hout, hsum⟩ := Fallback.oracle_out linearArith ffArgs (fun _ => 0) (probeW 0) (fun _ _ => 1) 1 1 1 rfl
    rfl (.inl rfl)
  refine ⟨tpOut, epOut 0, out, htp, hep, hout, ?_, ?_, ?_⟩
  · rw [htpSum, layoutOut_eq (paddedIds_aligned (fun _ => 0) 1 1 1 (Nat.succ_pos 15)) (fun _ _ hlo _ => hlo)
      linearArith ffArgs (probeW 0) (linedUp_sixteen (fun _ => 0) 1 1 1) (fun j => rowOut linearArith ffArgs 1 0 j (fun _ => 1) 0) 0 0
      fun _ _ _ _ _ _ => rfl]
    exact (sum_probeW (fun _ => 0) 1 1 1 one_pos hids hvisible _).trans hrow
  · have hsum := sum_layoutOut (fun _ => 0) 1 1 1 linearArith ffArgs (probeW 0) (Nat.succ_pos 15) one_pos
      (fun rank _ => linedUp_sixteen ((rankPlan 1 1 rank).mask fun _ => 0) 1 1 1)
      (fun j => rowOut linearArith ffArgs 1 0 j (fun _ => 1) 0) 0 0 fun _ _ _ _ _ _ _ => rfl
    rw [Finset.sum_range_one, ← hepSum 0 _ (epPlan_eq one_pos (le_refl 1) one_pos)] at hsum
    exact hsum.trans ((sum_probeW (fun _ => 0) 1 1 1 one_pos hids hvisible _).trans hrow)
  · rw [hsum]
    exact (sum_probeW (fun _ => 0) 1 1 1 one_pos hids hvisible
      fun j => Moe.rowOut linearArith ffArgs 1 0 j 0).trans horacleRow

end VKernels.Moe.Dist
