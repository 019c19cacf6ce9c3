import VKernels.Moe.TensorParallelTiles

/-!
# The MoE of the Python fallback

`moe_align_block_size` and `fused_moe_mxfp4` of `_fallback.py`, behind the checks of `kernels.py`.  The
tag of an activation is 0 for "swiglu" and 1 for "situ"; `np.float32` is the field `R`.

* `ue8m0ToFloat` — the scale decode through the bits of a float; `dequantWeightTile` — the nibble table.

## Results

* `ue8m0ToFloat_eq`, `dequantWeightTile_eq` — the tables and bits decode what `kernels/moe_fused.cpp` decodes.
* `fusedMoeMxfp4_ok` — every served row adds `rowOut`; `oracle_out` — every routed token gets what its
  expert gives it.
-/

namespace VKernels.Moe

open Comm (bind_ok)
open Blocks Grouping TileLoops

/-- `if not cond: raise ValueError(msg)`. -/
def require (cond : Prop) [Decidable cond] (msg : String) : Except String Unit :=
  if cond then .ok () else .error msg

lemma require_of {cond : Prop} [Decidable cond] (h : cond) (msg : String) : require cond msg = .ok () := if_pos h

lemma require_bind_ok {α : Type} {cond : Prop} [Decidable cond] {msg : String} {k : Except String α} {x : α} :
    (require cond msg >>= fun _ => k) = .ok x ↔ cond ∧ k = .ok x := by
  unfold require
  by_cases h : cond <;> simp [h, bind, Except.bind]

namespace Fallback

/-! ## Number formats -/

attribute [local instance] atLeastTwo_two atLeastTwo_three atLeastTwo_four

section

variable {R W : Type} [Field R] (ar : Arith R W)

/-- The finite float with the given bits, sign 0. -/
def floatOfBits (bits : ℕ) : R :=
  let e : ℕ := bits / 2 ^ 23 % 2 ^ 8
  let m : ℕ := bits % 2 ^ 23
  if e = 0 then (m : R) * 2 ^ (-149 : ℤ) else ((2 ^ 23 + m : ℕ) : R) * 2 ^ ((e : ℤ) - 150)

def ue8m0ToFloat (s : UInt8) : R :=
  if s = 0xFF then 0
  else
    let unbiased : ℤ := (s.toNat : ℤ) - 127
    if unbiased ≥ -126 then floatOfBits (s.toNat <<< 23)
    else
      let shift := (-(unbiased + 126)).toNat
      if shift < 32 then floatOfBits (0x00800000 >>> shift) else 0

/-- `_FP4_NIBBLE_VALUES`. -/
def fp4NibbleValues : List R :=
  [0, 1 / 4, 1, 3 / 2, 2, 3, ar.nonFinite 6, ar.nonFinite 7,
    -0, -(1 / 4), -1, -(3 / 2), -2, -3, ar.nonFinite 14, ar.nonFinite 15]

/-- `_dequant_weight_tile`, at `k` and `n`. -/
def dequantWeightTile (packed scale : ℕ → UInt8) (pBase sBase groupSize stridePacked strideScaleN k n : ℕ) : W :=
  let kp := k / 2
  let pb := packed (pBase + n * stridePacked + kp)
  let gi := kp * 2 / groupSize
  let s : R := ue8m0ToFloat (scale (sBase + n * strideScaleN + gi))
  let nib := if k % 2 = 0 then pb &&& 0x0F else (pb >>> 4) &&& 0x0F
  ar.f32ToBf16 ((fp4NibbleValues ar).getD nib.toNat 0 * s)

variable [CharZero R]

lemma fp4NibbleValues_getD (nib : UInt8) (h : nib.toNat < 16) :
    (fp4NibbleValues ar).getD nib.toNat 0 = fp4nibToF32 ar nib := by
  have htwo : (3 : R) = 2 * (3 / 2) := (mul_div_cancel₀ 3 two_ne_zero).symm
  obtain ⟨n, hn⟩ : ∃ n, n = nib.toNat := ⟨_, rfl⟩
  have hnib : nib = UInt8.ofNat n := by rw [hn, UInt8.ofNat_toNat]
  rw [← hn] at h
  subst hnib
  interval_cases n <;> simp +decide [fp4NibbleValues, fp4nibToF32, ← htwo]

/-- **The bits** of a power of two, subnormal for the scale byte 0. -/
theorem ue8m0ToFloat_eq (s : UInt8) : (ue8m0ToFloat s : R) = Moe.ue8m0ToFloat s := by
  have hlt : s.toNat < 256 := s.toNat_lt
  have htwo : (2 : R) ≠ 0 := two_ne_zero
  unfold ue8m0ToFloat Moe.ue8m0ToFloat
  by_cases hmax : s = 0xFF
  · rw [if_pos hmax, if_pos hmax]
  · rw [if_neg hmax, if_neg hmax]
    by_cases hzero : s.toNat = 0
    · have hbits : 0x00800000 >>> 1 / 2 ^ 23 % 2 ^ 8 = 0 ∧ 0x00800000 >>> 1 % 2 ^ 23 = 2 ^ 22 := by decide
      have hshift : (-(((0 : ℕ) : ℤ) - 127 + 126)).toNat = 1 := rfl
      rw [hzero, if_neg (by decide), hshift, if_pos (by decide), floatOfBits, hbits.1, hbits.2, if_pos rfl, Nat.cast_pow, Nat.cast_ofNat, ← zpow_natCast, ← zpow_add₀ htwo]
      rfl
    · have hbits : s.toNat <<< 23 / 2 ^ 23 % 2 ^ 8 = s.toNat ∧ s.toNat <<< 23 % 2 ^ 23 = 0 := by
        omega
      rw [if_pos (by omega), floatOfBits, hbits.1, hbits.2, if_neg hzero, add_zero, Nat.cast_pow, Nat.cast_ofNat, ← zpow_natCast,
        ← zpow_add₀ htwo]
      have hexp : ((23 : ℕ) : ℤ) + ((s.toNat : ℤ) - 150) = (s.toNat : ℤ) - 127 := by omega
      rw [hexp]

lemma nibble_lt (pb : UInt8) : (pb &&& 0x0F).toNat < 16 := by
  exact Nat.lt_succ_of_le Nat.and_le_right

/-- **The tile** is that of the C++ reference. -/
theorem dequantWeightTile_eq (packed scale : ℕ → UInt8) (pBase sBase groupSize stridePacked strideScaleN k n : ℕ) :
    dequantWeightTile ar packed scale pBase sBase groupSize stridePacked strideScaleN k n =
      Moe.dequantWeightTile ar (offset packed pBase) (offset scale sBase) groupSize stridePacked
        strideScaleN 1 k n := by
  have hnib : ∀ pb : UInt8, (if k % 2 = 0 then pb &&& 0x0F else (pb >>> 4) &&& 0x0F).toNat < 16 := by
    intro pb
    split
    · exact nibble_lt pb
    · exact nibble_lt _
  unfold dequantWeightTile Moe.dequantWeightTile offset
  dsimp only
  rw [fp4NibbleValues_getD ar _ (hnib _), ue8m0ToFloat_eq, mul_one, add_assoc, add_assoc]

end

section

variable (topkIds : ℕ → ℤ)

/-- `moe_align_block_size`: the arrays have `EM` rows and `EM // block_size` blocks. -/
def moeAlignBlockSize (M topK blockSize numExperts : ℕ) : Except String (ℕ × List ℕ × List ℤ) := do
  require (blockSize > 0) "block_size must be positive"
  let perExpert := collectPerExpert topkIds (M * topK) numExperts
  let em := perExpert.foldl (fun total v => total + (v.length + blockSize - 1) / blockSize * blockSize) 0
  Moe.moeAlignBlockSize topkIds M topK blockSize numExperts (List.replicate em 0)
    (List.replicate (em / blockSize) (-1))

lemma moeAlignBlockSize_eq (ids : ℕ → ℤ) (M topK numExperts : ℕ) {blockSize : ℕ} (hblock : 0 < blockSize) :
    moeAlignBlockSize ids M topK blockSize numExperts =
      .ok ((paddedIds ids M topK blockSize numExperts).length, paddedIds ids M topK blockSize numExperts,
        blockExperts ids M topK blockSize numExperts) := by
  have hem : (collectPerExpert ids (M * topK) numExperts).foldl (fun total v =>
      total + (v.length + blockSize - 1) / blockSize * blockSize) 0 =
        (paddedIds ids M topK blockSize numExperts).length := by
    rw [collectPerExpert_eq]
    exact totalTokens_eq hblock _ _
  unfold moeAlignBlockSize
  rw [require_of hblock, ok_bind]
  dsimp only
  rw [hem, Moe.moeAlignBlockSize_eq ids M topK numExperts hblock (by simp)
    (by rw [List.length_replicate, blocks_div ids M topK numExperts hblock]), overwrite_all (by simp),
    overwrite_all (by rw [List.length_replicate, blocks_div ids M topK numExperts hblock])]

end

/-! ## The fused kernel -/

section

variable {R W : Type} [Field R] [LinearOrder R] [Zero W] (ar : Arith R W)

/-- The activation of one gate and up value. -/
def activationValue (activation : ℤ) (g u swigluLimit beta linearBeta : R) : R :=
  if activation = 1 then
    let sig := 1 / (1 + ar.exp (-g))
    let gateOut := beta * ar.tanh (g / beta) * sig
    let upOut := if linearBeta > 0 then linearBeta * ar.tanh (u / linearBeta) else u
    gateOut * upOut
  else
    let (g, u) := if swigluLimit > 0 then
        let g := min g swigluLimit
        let u := min u swigluLimit
        (g, -(min (-u) swigluLimit))
      else (g, u)
    let siluG := g / (1 + ar.exp (-g))
    siluG * u

/-- `fused_moe_mxfp4`: `act_scratch` and `out` are filled; returns `out`. -/
def fusedMoeMxfp4 (args : MoeArgs R W) (sortedIds : ℕ → ℕ) (topkW : ℕ → R) (expertIds : List ℤ)
    (actScratch : ℕ → ℕ → W) (out : ℕ → ℕ → R) (M topK em : ℕ) : Except String (ℕ → ℕ → R) := do
  let N := M * topK
  let hidden := args.hidden
  let ispp := args.ispp
  let groupSize := args.groupSize
  -- stage 0: gate_up + activation
  let w13ExpertBytes := 2 * ispp * (hidden / 2)
  let w13sExpertBytes := 2 * ispp * (hidden / groupSize)
  let act ← forBlocks em expertIds (fun mb expert act =>
    let tokenBase := mb * blockM
    (List.range (ispp / blockN)).foldl (fun act nb =>
      let tileA := fun m kb k =>
        let flat := sortedIds (tokenBase + m)
        if flat < N then args.A (flat / topK * hidden + kb * blockK + k) else 0
      let pGate := expert * w13ExpertBytes + nb * blockN * (hidden / 2)
      let sGate := expert * w13sExpertBytes + nb * blockN * (hidden / groupSize)
      let tileGate := fun n kb k => dequantWeightTile ar args.w13 args.w13Scale (pGate + kb * blockK / 2)
        (sGate + kb * blockK / groupSize) groupSize (hidden / 2) (hidden / groupSize) k n
      let pUp := expert * w13ExpertBytes + (nb * blockN + ispp) * (hidden / 2)
      let sUp := expert * w13sExpertBytes + (nb * blockN + ispp) * (hidden / groupSize)
      let tileUp := fun n kb k => dequantWeightTile ar args.w13 args.w13Scale (pUp + kb * blockK / 2)
        (sUp + kb * blockK / groupSize) groupSize (hidden / 2) (hidden / groupSize) k n
      writeTile blockM blockN mb nb (fun m n old =>
        if sortedIds (tokenBase + m) ≥ N then old
        else
          let g := addBias args.b13 (expert * 2 * ispp + nb * blockN + n)
            (rowDot ar (hidden / blockK) (tileA m) (tileGate n))
          let u := addBias args.b13 (expert * 2 * ispp + nb * blockN + n + ispp)
            (rowDot ar (hidden / blockK) (tileA m) (tileUp n))
          ar.f32ToBf16 (activationValue ar args.activation g u args.swigluLimit args.beta args.linearBeta))
        act) act) actScratch
  -- stage 1: down + combine
  let w2ExpertBytes := hidden * (ispp / 2)
  let w2sExpertBytes := hidden * (ispp / groupSize)
  forBlocks em expertIds (fun mb expert out =>
    let tokenBase := mb * blockM
    (List.range (hidden / blockN)).foldl (fun out nb =>
      let tileA := fun m kb k =>
        if sortedIds (tokenBase + m) < N then act (tokenBase + m) (kb * blockK + k) else 0
      let pDown := expert * w2ExpertBytes + nb * blockN * (ispp / 2)
      let sDown := expert * w2sExpertBytes + nb * blockN * (ispp / groupSize)
      let tileDown := fun n kb k => dequantWeightTile ar args.w2 args.w2Scale (pDown + kb * blockK / 2)
        (sDown + kb * blockK / groupSize) groupSize (ispp / 2) (ispp / groupSize) k n
      (List.range blockM).foldl (fun out m =>
        let flat := sortedIds (tokenBase + m)
        if flat ≥ N then out
        else
          let weight := topkW (tokenBase + m)
          fun t c => if t = flat / topK ∧ c / blockN = nb then
            out t c + addBias args.b2 (expert * hidden + nb * blockN + c % blockN)
              (rowDot ar (ispp / blockK) (tileA m) (tileDown (c % blockN))) * weight
          else out t c) out) out) out

/-- `kernels.fused_moe_mxfp4`, on tensors whose other dimensions agree; `np.empty` is `scratch`. -/
def kernelsFusedMoeMxfp4 (args : MoeArgs R W) (sortedIds : List ℕ) (topkW : ℕ → R) (expertIds : List ℤ)
    (scratch : ℕ → ℕ → W) (M topK : ℕ) : Except String (ℕ → ℕ → R) := do
  require (args.hidden / 2 * 2 = args.hidden) ("w13 last dim must be hidden/2 = " ++
    toString (args.hidden / 2) ++ ", got " ++ toString (args.hidden / 2))
  require (args.ispp / 2 * 2 = args.ispp) "w2 must be [E, hidden, ispp/2]"
  let em := sortedIds.length
  require (em % blockM = 0) ("EM must be a multiple of " ++ toString blockM)
  require (expertIds.length = em / blockM) ("expert_ids must have EM/" ++ toString blockM ++ " = " ++
    toString (em / blockM) ++ " elements, got " ++ toString expertIds.length)
  require (args.activation = 0 ∨ args.activation = 1) "activation must be 'swiglu' or 'situ'"
  fusedMoeMxfp4 ar args (fun i => sortedIds.getD i 0) topkW expertIds scratch (fun _ _ => 0) M topK em

/-- `_oracle` of the tests. -/
def oracle (args : MoeArgs R W) (topkIds : ℕ → ℤ) (topkW : ℕ → R) (scratch : ℕ → ℕ → W)
    (M topK numExperts : ℕ) : Except String (ℕ → ℕ → R) := do
  let (_, sortedIds, expertIds) ← moeAlignBlockSize topkIds M topK 16 numExperts
  let sortedW := fun i => if sortedIds.getD i 0 < M * topK then topkW (sortedIds.getD i 0) else 0
  kernelsFusedMoeMxfp4 ar args sortedIds sortedW expertIds scratch M topK

/-! ## What it computes -/

section

variable [IsStrictOrderedRing R]

omit [Zero W] in
lemma activationValue_eq (activation : ℤ) (g u swigluLimit beta linearBeta : R) :
    activationValue ar activation g u swigluLimit beta linearBeta =
      epilogueValue ar activation g u swigluLimit beta linearBeta := by
  have hmin : ∀ x : R, min x swigluLimit = if x > swigluLimit then swigluLimit else x := by
    intro x
    by_cases h : x > swigluLimit
    · rw [if_pos h, min_eq_right h.le]
    · rw [if_neg h, min_eq_left (not_lt.mp h)]
  have hmax : ∀ x : R, -(min (-x) swigluLimit) = if x < -swigluLimit then -swigluLimit else x := by
    intro x
    by_cases h : x < -swigluLimit
    · rw [if_pos h, min_eq_right (le_neg_of_le_neg h.le)]
    · rw [if_neg h, min_eq_left (neg_le_of_neg_le (not_lt.mp h)), neg_neg]
  unfold activationValue epilogueValue kSiTU
  by_cases hsitu : activation = 1
  · rw [if_pos hsitu, if_pos hsitu]
  · by_cases hlimit : swigluLimit > 0
    · simp only [hmax]
      simp [hmin]
    · simp [if_neg hlimit]

end

variable [IsStrictOrderedRing R] (args : MoeArgs R W)

lemma fusedMoeMxfp4_ok (sortedIds : ℕ → ℕ) {expertIds : List ℤ} (M topK : ℕ) {em : ℕ}
    (h : em / blockM ≤ expertIds.length) (topkW : ℕ → R) (actScratch : ℕ → ℕ → W) (out : ℕ → ℕ → R) :
    ∃ out', fusedMoeMxfp4 ar args sortedIds topkW expertIds actScratch out M topK em = .ok out' ∧
      ∀ t c, out' t c = out t c + ∑ r ∈ Finset.range (em / blockM * blockM), (rowExpert em expertIds r).elim 0 fun e =>
          if c / blockN < args.hidden / blockN ∧ sortedIds r < M * topK ∧ sortedIds r / topK = t then
            rowOut ar args topK e (sortedIds r) c * topkW r else 0 := by
  unfold fusedMoeMxfp4
  dsimp only
  rw [forBlocks_ok h, ok_bind]
  generalize hact : runBlocks expertIds _ _ actScratch = act
  -- the activation of a served row
  have hrowAct : ∀ r e c, rowExpert em expertIds r = some e → sortedIds r < M * topK →
      c / blockN < args.ispp / blockN → act r c = rowAct ar args topK e (sortedIds r) c := by
    intro r e c hr hflat hc
    have hrow : ¬ sortedIds (r / blockM * blockM + r % blockM) ≥ M * topK := by
      rw [block_row]
      omega
    have hcol : ∀ x, e * 2 * args.ispp + c / blockN * blockN + c % blockN + x = e * (2 * args.ispp) + c + x := by
      intro x
      rw [add_assoc (e * 2 * args.ispp), block_col, mul_assoc]
    rw [← hact, runBlocks_tiles, hr, Option.elim_some, if_pos hc, if_neg hrow, activationValue_eq, hcol,
      ← add_zero (_ + c % blockN), hcol]
    simp only [block_row, if_pos hflat, dequantWeightTile_eq]
    rfl
  obtain ⟨out', hout', hsum⟩ := scatterAdd_ok sortedIds M topK h (fun e r nb c =>
    addBias args.b2 (e * args.hidden + nb * blockN + c % blockN) (rowDot ar _
      (fun kb k => if sortedIds r < M * topK then act r (kb * blockK + k) else 0)
      (fun kb k => dequantWeightTile ar args.w2 args.w2Scale
        (e * (args.hidden * (args.ispp / 2)) + nb * blockN * (args.ispp / 2) + kb * blockK / 2)
        (e * (args.hidden * (args.ispp / args.groupSize)) + nb * blockN * (args.ispp / args.groupSize) +
          kb * blockK / args.groupSize) args.groupSize _ _ k
          (c % blockN))) * topkW r) out _
  refine ⟨out', hout', ?_⟩
  intro t c
  rw [hsum]
  refine congrArg _ (Finset.sum_congr rfl fun r _ => ?_)
  cases hr : rowExpert em expertIds r with
  | none => rfl
  | some e =>
    simp only [Option.elim_some]
    by_cases hin : c / blockN < args.hidden / blockN ∧ sortedIds r < M * topK ∧ sortedIds r / topK = t
    · have hdown : ∀ kb < args.ispp / blockK, ∀ k < blockK,
          act r (kb * blockK + k) = rowAct ar args topK e (sortedIds r) (kb * blockK + k) := by
        intro kb hkb k hk
        refine hrowAct r e _ hr hin.2.1 ?_
        have hdiv : (kb * 64 + k) / 64 = kb := by
          have : k < 64 := hk
          omega
        exact lt_of_eq_of_lt hdiv hkb
      rw [if_pos hin, if_pos hin, add_assoc _, block_col]
      simp only [if_pos hin.2.1, dequantWeightTile_eq]
      rw [rowDot_congr ar hdown]
      rfl
    · rw [if_neg hin, if_neg hin]

lemma oracle_out (topkIds : ℕ → ℤ) (topkW : ℕ → R) (scratch : ℕ → ℕ → W) (M topK numExperts : ℕ)
    (hhidden : args.hidden % 2 = 0) (hispp : args.ispp % 2 = 0)
    (hactivation : args.activation = 0 ∨ args.activation = 1) :
    ∃ out, oracle ar args topkIds topkW scratch M topK numExperts = .ok out ∧
      ∀ t c, out t c = ∑ i ∈ Finset.range (M * topK), if 0 ≤ topkIds i ∧ topkIds i < numExperts then
        given ar args topkW topkIds M topK t c i else 0 := by
  have haligned := paddedIds_aligned topkIds M topK numExperts (show 0 < 16 by decide)
  have hlined := linedUp_sixteen topkIds M topK numExperts
  have hwhole : (paddedIds topkIds M topK 16 numExperts).length % blockM = 0 := haligned.blocks
  have htable : (blockExperts topkIds M topK 16 numExperts).length =
    (paddedIds topkIds M topK 16 numExperts).length / blockM := haligned.experts.1
  obtain ⟨out, hout, hsum⟩ := fusedMoeMxfp4_ok ar args
    (fun i => (paddedIds topkIds M topK 16 numExperts).getD i 0) M topK hlined.1
    (fun i => if (paddedIds topkIds M topK 16 numExperts).getD i 0 < M * topK then
      topkW _ else 0) scratch (fun _ _ => 0)
  refine ⟨out, ?_, ?_⟩
  · unfold oracle kernelsFusedMoeMxfp4
    rw [moeAlignBlockSize_eq topkIds M topK numExperts (show 0 < 16 by decide), ok_bind]
    dsimp only
    rw [require_of (by omega), ok_bind, require_of (by omega), ok_bind, require_of hwhole, ok_bind,
      require_of htable, ok_bind, require_of hactivation, ok_bind]
    exact hout
  · intro t c
    have hserved := served_weighted topkW haligned hlined (fun i _ hlo _ => hlo) (c / blockN < args.hidden / blockN)
      (fun e i => rowOut ar args topK e i c) t
    simp only [Nat.cast_zero, sub_zero, List.map_id', zero_add] at hserved
    rw [hsum, zero_add]
    exact hserved

end

end Fallback

end VKernels.Moe
