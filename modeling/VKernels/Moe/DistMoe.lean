import VKernels.Moe.FallbackMoe

/-!
# The distributed MoE in Python

`dist.py`: the stages with whole-row products, the shards of `tp_plan`, and the two forwards over simulated
ranks.  Numpy's matrix product is exact over the field `R`; `np.empty` is a buffer of any content.

## Results

* `stages_ok` — a rank's stages, each served row with the weights of its block's expert.
* `distMoeTp_ok` — the reduced output; `distMoeEp_ok` — the output of every rank.
-/

namespace VKernels.Moe.Dist

open Comm (bind_ok)
open Finset
open Blocks Grouping TileLoops

/-! ## Number formats -/

attribute [local instance] atLeastTwo_two atLeastTwo_three atLeastTwo_four

section

variable {R W : Type} [Field R] (ar : Arith R W)

/-- `_FP4_VALUES`. -/
def fp4Values : List R :=
  [0, 1 / 4, 1, 3 / 2, 2, 3, ar.nonFinite 6, ar.nonFinite 7,
    0, -(1 / 4), -1, -(3 / 2), -2, -3, ar.nonFinite 14, ar.nonFinite 15]

/-- `_ue8m0_to_float`: the guard for 0xFF is on the exponent. -/
def ue8m0ToFloat (s : UInt8) : R :=
  let out : ℤ := if s = 0xFF then 0 else (s.toNat : ℤ) - 127
  2 ^ out

/-- An element of the product `vals * sc`, rounded. -/
def weightAt (packed scale : ℕ → UInt8) (stridePacked strideScale groupSize row k : ℕ) : W :=
  let pb := packed (row * stridePacked + k / 2)
  let nib := if k % 2 = 0 then pb &&& 0x0F else pb >>> 4
  let sc : R := ue8m0ToFloat (scale (row * strideScale + k / groupSize))
  ar.f32ToBf16 ((fp4Values ar).getD nib.toNat 0 * sc)

/-- `_dequant_full`: `reshape` and the broadcast of `vals * sc` refuse other shapes. -/
def dequantFull (packed scale : ℕ → UInt8) (nRows k stridePacked strideScale groupSize : ℕ) :
    Except String (ℕ → ℕ → W) := do
  require (nRows * (stridePacked * 2) = nRows * k) "cannot reshape array"
  require (strideScale * groupSize = k ∨ k = 1 ∨ strideScale * groupSize = 1)
    "operands could not be broadcast together"
  return weightAt ar packed scale stridePacked strideScale groupSize

end

/-! ## The stages -/

/-- `for mb`: the blocks with an expert. -/
def forBlocksM {S : Type} (em : ℕ) (expertIds : List ℤ) (body : ℕ → ℕ → S → Except String S) (s : S) :
    Except String S :=
  (List.range (em / blockM)).foldlM (fun s mb =>
    match expertIds[mb]? with
    | none => .error outOfBounds
    | some expert => if expert < 0 then .ok s else body mb expert.toNat s) s

section

variable {R W : Type} [Field R] [Zero W] (ar : Arith R W)

/-- An element of a matrix product. -/
def matmul (K : ℕ) (a b : ℕ → W) : R :=
  (List.range K).foldl (fun acc k => acc + ar.bf16ToFloat (a k) * ar.bf16ToFloat (b k)) 0

/-- `_moe_gateup`. -/
def moeGateup (A : ℕ → W) (w13 w13Scale : ℕ → UInt8) (sortedIds : ℕ → ℕ) (expertIds : List ℤ)
    (gateUp : GateUp R) (M aStride kBase hiddenK ispp topK em groupSize : ℕ) : Except String (GateUp R) :=
  let N := M * topK
  let w13E := 2 * ispp * (hiddenK / 2)
  let w13sE := 2 * ispp * (hiddenK / groupSize)
  forBlocksM em expertIds (fun mb expert gateUp => do
    let tb := mb * blockM
    let wf ← dequantFull ar (offset w13 (expert * w13E)) (offset w13Scale (expert * w13sE)) (2 * ispp) hiddenK
      (hiddenK / 2) (hiddenK / groupSize) groupSize
    return (List.range (ispp / blockN)).foldl (fun gateUp nb =>
      let tA := fun m k =>
        let f := sortedIds (tb + m)
        if f < N then A (f / topK * aStride + kBase + k) else 0
      { gate := writeTile blockM blockN mb nb
          (fun m n _ => matmul ar hiddenK (tA m) (wf (nb * blockN + n))) gateUp.gate
        up := writeTile blockM blockN mb nb
          (fun m n _ => matmul ar hiddenK (tA m) (wf (ispp + (nb * blockN + n)))) gateUp.up }) gateUp) gateUp

/-- `_moe_down`. -/
def moeDown (act : ℕ → ℕ → W) (w2 w2Scale : ℕ → UInt8) (sortedIds : ℕ → ℕ) (expertIds : List ℤ)
    (partialOut : ℕ → ℕ → R) (M kBase isppK hidden topK em groupSize : ℕ) : Except String (ℕ → ℕ → R) :=
  let N := M * topK
  let w2E := hidden * (isppK / 2)
  let w2sE := hidden * (isppK / groupSize)
  forBlocksM em expertIds (fun mb expert partialOut => do
    let tb := mb * blockM
    let wf ← dequantFull ar (offset w2 (expert * w2E)) (offset w2Scale (expert * w2sE)) hidden isppK
      (isppK / 2) (isppK / groupSize) groupSize
    return (List.range (hidden / blockN)).foldl (fun partialOut nb =>
      let tA := fun m k => if sortedIds (tb + m) < N then act (tb + m) (kBase + k) else 0
      writeTile blockM blockN mb nb
        (fun m n _ => matmul ar isppK (tA m) (wf (nb * blockN + n))) partialOut) partialOut) partialOut

/-- `_moe_combine`. -/
def moeCombine (partialOut : ℕ → ℕ → R) (b2 : Option (ℕ → R)) (topkWSorted : ℕ → R)
    (sortedIds : ℕ → ℕ) (expertIds : List ℤ) (out : ℕ → ℕ → R) (M hidden topK em : ℕ) : Except String (ℕ → ℕ → R) :=
  moeCombineCpu partialOut b2 topkWSorted sortedIds expertIds out M hidden topK em

variable [LinearOrder R]

/-- The activation of one gate and up value, with `np.minimum` and `np.maximum`. -/
def activationValue (activation : ℤ) (g u swigluLimit beta linearBeta : R) : R :=
  if activation = 1 then
    let sig := 1 / (1 + ar.exp (-g))
    let gateOut := beta * ar.tanh (g / beta) * sig
    let upOut := if linearBeta > 0 then linearBeta * ar.tanh (u / linearBeta) else u
    gateOut * upOut
  else
    let (gl, ul) := if swigluLimit > 0 then
        (min g swigluLimit, min (max u (-swigluLimit)) swigluLimit)
      else (g, u)
    gl / (1 + ar.exp (-gl)) * ul

/-- `_moe_act_epilogue`. -/
def moeActEpilogue (gateUp : GateUp R) (b13 : Option (ℕ → R)) (act : ℕ → ℕ → W)
    (sortedIds : ℕ → ℕ) (expertIds : List ℤ) (M topK em ispp : ℕ) (swigluLimit : R)
    (activation : ℤ) (beta linearBeta : R) : Except String (ℕ → ℕ → W) :=
  let N := M * topK
  forBlocks em expertIds (fun mb expert act =>
    let tb := mb * blockM
    (List.range (ispp / blockN)).foldl (fun act nb =>
      writeTile blockM blockN mb nb (fun m n old =>
        if sortedIds (tb + m) ≥ N then old
        else
          let g := addBias b13 (expert * (2 * ispp) + (nb * blockN + n))
            (gateUp.gate (tb + m) (nb * blockN + n))
          let u := addBias b13 (expert * (2 * ispp) + (ispp + (nb * blockN + n)))
            (gateUp.up (tb + m) (nb * blockN + n))
          ar.f32ToBf16 (activationValue ar activation g u swigluLimit beta linearBeta)) act) act) act

end

/-! ## Plans and shards -/

/-- `tp_plan`. -/
def tpPlan (hidden ispp tp groupSize : ℕ) : Except String MoeTPPlan := do
  require (tp > 0) "tp must be positive"
  require (hidden % tp = 0 ∧ ispp % tp = 0) "hidden and ispp must be divisible by tp"
  let hiddenShard := hidden / tp
  let isppShard := ispp / tp
  require (hiddenShard % 64 = 0 ∧ isppShard % 64 = 0)
    ("hidden/tp and ispp/tp must be multiples of 64 (BLOCK_K); got " ++ toString hiddenShard ++ ", " ++
      toString isppShard)
  require (hiddenShard % groupSize = 0 ∧ isppShard % groupSize = 0)
    ("hidden/tp and ispp/tp must be multiples of group_size " ++ toString groupSize)
  return {
    tp, hidden, ispp, hiddenShard, isppShard
    w13ShardBytes := 2 * ispp * (hiddenShard / 2)
    w13sShardBytes := 2 * ispp * (hiddenShard / groupSize)
    w2ShardBytes := hidden * (isppShard / 2)
    w2sShardBytes := hidden * (isppShard / groupSize) }

/-- `t[:, :, start:stop]` of a tensor with rows of `rowLen`, flattened. -/
def columns (t : ℕ → UInt8) (rowLen start stop : ℕ) : ℕ → UInt8 :=
  fun j => t (j / (stop - start) * rowLen + start + j % (stop - start))

/-- The weights of one rank. -/
structure Shard where
  w13 : ℕ → UInt8
  w13Scale : ℕ → UInt8
  w2 : ℕ → UInt8
  w2Scale : ℕ → UInt8

/-- `tp_shard_weights`, for rank `r`. -/
def tpShardWeights {R W : Type} (args : MoeArgs R W) (plan : MoeTPPlan) (r : ℕ) : Shard :=
  let csStart := r * plan.hiddenShard
  let csStop := (r + 1) * plan.hiddenShard
  let dsStart := r * plan.isppShard
  let dsStop := (r + 1) * plan.isppShard
  { w13 := columns args.w13 (args.hidden / 2) (csStart / 2) (csStop / 2)
    w13Scale := columns args.w13Scale (args.hidden / args.groupSize) (csStart / args.groupSize)
      (csStop / args.groupSize)
    w2 := columns args.w2 (args.ispp / 2) (dsStart / 2) (dsStop / 2)
    w2Scale := columns args.w2Scale (args.ispp / args.groupSize) (dsStart / args.groupSize)
      (dsStop / args.groupSize) }

/-- `ep_plan`. -/
def epPlan (numExperts ep rank : ℕ) : Except String MoeEPPlan := do
  require (ep > 0) "ep must be positive"
  require (rank < ep) "rank out of range"
  require (¬ numExperts < ep) "num_experts must be at least ep"
  let base := numExperts / ep
  let rem := numExperts % ep
  let expertBegin := rank * base + if rank < rem then rank else rem
  let expertEnd := expertBegin + base + if rank < rem then 1 else 0
  return ⟨ep, rank, expertBegin, expertEnd, expertEnd - expertBegin⟩

/-- `ep_dispatch`: `masked` is the plan's mask, and the kept expert ids become local. -/
def epDispatch (topkIds : ℕ → ℤ) (plan : MoeEPPlan) (M topK numExperts blockSize : ℕ) :
    Except String (ℕ × List ℕ × List ℤ) := do
  let (em, sortedIds, expertIds) ← Fallback.moeAlignBlockSize (plan.mask topkIds) M topK blockSize numExperts
  return (em, sortedIds, expertIds.map fun e => if e ≥ 0 then e - plan.expertBegin else e)

variable {R W : Type} [Field R] [LinearOrder R] [Zero W] (ar : Arith R W) (args : MoeArgs R W)

/-! ## The forwards -/

/-- `sorted_w`. -/
def sortedWeights (sortedIds : List ℕ) (topkW : ℕ → R) (nflat i : ℕ) : R :=
  if sortedIds.getD i 0 < nflat then topkW (sortedIds.getD i 0) else 0

/-- `sum` over the ranks' arrays. -/
def sumBuffers (partials : List (ℕ → ℕ → R)) : ℕ → ℕ → R := fun r c => (partials.map fun p => p r c).sum

/-- `dist_moe_tp`; `act` is filled over `actScratch`. -/
def distMoeTp (topkIds : ℕ → ℤ) (topkW : ℕ → R) (actScratch : ℕ → ℕ → W)
    (M topK numExperts blockSize tp : ℕ) : Except String (List (ℕ → ℕ → R)) := do
  let plan ← tpPlan args.hidden args.ispp tp args.groupSize
  let (em, sorted, expertIds) ← Fallback.moeAlignBlockSize topkIds M topK blockSize numExperts
  let sortedIds := fun i => sorted.getD i 0
  require (args.activation = 0 ∨ args.activation = 1) "activation must be 'swiglu' or 'situ'"
  let shards := tpShardWeights args plan
  -- stage 0a, and the collective on its partial sums
  let gateUpPartials ← (List.range tp).mapM fun rank =>
    moeGateup ar args.A (shards rank).w13 (shards rank).w13Scale sortedIds expertIds
      ⟨fun _ _ => 0, fun _ _ => 0⟩ M args.hidden (rank * plan.hiddenShard) plan.hiddenShard args.ispp topK em
      args.groupSize
  let gateUp := { gate := sumBuffers (gateUpPartials.map GateUp.gate), up := sumBuffers (gateUpPartials.map GateUp.up) }
  let act ← moeActEpilogue ar gateUp args.b13 actScratch sortedIds expertIds M topK em args.ispp
    args.swigluLimit args.activation args.beta args.linearBeta
  -- stage 1a, and the second collective
  let downPartials ← (List.range tp).mapM fun rank =>
    moeDown ar act (shards rank).w2 (shards rank).w2Scale sortedIds expertIds (fun _ _ => 0) M
      (rank * plan.isppShard) plan.isppShard args.hidden topK em args.groupSize
  let out ← moeCombine (sumBuffers downPartials) args.b2 (sortedWeights sorted topkW (M * topK)) sortedIds
    expertIds (fun _ _ => 0) M args.hidden topK em
  return List.replicate tp out

/-- `_moe_local_forward`. -/
def moeLocalForward (sorted : List ℕ) (sortedW : ℕ → R) (expertIds : List ℤ) (actScratch : ℕ → ℕ → W)
    (M topK em : ℕ) : Except String (ℕ → ℕ → R) := do
  let sortedIds := fun i => sorted.getD i 0
  let gateUp ← moeGateup ar args.A args.w13 args.w13Scale sortedIds expertIds ⟨fun _ _ => 0, fun _ _ => 0⟩ M
    args.hidden 0 args.hidden args.ispp topK em args.groupSize
  let act ← moeActEpilogue ar gateUp args.b13 actScratch sortedIds expertIds M topK em args.ispp
    args.swigluLimit args.activation args.beta args.linearBeta
  let partialOut ← moeDown ar act args.w2 args.w2Scale sortedIds expertIds (fun _ _ => 0) M 0 args.ispp
    args.hidden topK em args.groupSize
  moeCombine partialOut args.b2 sortedW sortedIds expertIds (fun _ _ => 0) M args.hidden topK em

/-- `dist_moe_ep`; `actScratch rank` is the rank's `np.empty`. -/
def distMoeEp (topkIds : ℕ → ℤ) (topkW : ℕ → R) (actScratch : ℕ → ℕ → ℕ → W)
    (M topK numExperts blockSize ep : ℕ) : Except String (List (ℕ → ℕ → R)) := do
  require (ep > 0) "ep must be positive"
  (List.range ep).mapM fun rank => do
    let plan ← epPlan numExperts ep rank
    let (em, sorted, expertIds) ← epDispatch topkIds plan M topK numExperts blockSize
    moeLocalForward ar (args.ofRank plan) sorted (sortedWeights sorted topkW (M * topK)) expertIds
      (actScratch rank) M topK em

/-! ## One row -/

section

variable (topK expert i : ℕ)

/-- A weight of a tensor with rows of `cols`. -/
def weight (packed scale : ℕ → UInt8) (cols groupSize row k : ℕ) : W :=
  weightAt ar packed scale (cols / 2) (cols / groupSize) groupSize row k

def rowGate (c : ℕ) : R :=
  matmul ar args.hidden (fun k => args.A (i / topK * args.hidden + k))
    (weight ar args.w13 args.w13Scale args.hidden args.groupSize (expert * (2 * args.ispp) + c))

def rowUp (c : ℕ) : R :=
  matmul ar args.hidden (fun k => args.A (i / topK * args.hidden + k))
    (weight ar args.w13 args.w13Scale args.hidden args.groupSize (expert * (2 * args.ispp) + (args.ispp + c)))

/-- The columns beyond the last whole tile keep what the buffer held. -/
def rowAct (scratch : ℕ → W) (c : ℕ) : W :=
  if c / blockN < args.ispp / blockN then
    ar.f32ToBf16 (activationValue ar args.activation
      (addBias args.b13 (expert * (2 * args.ispp) + c) (rowGate ar args topK expert i c))
      (addBias args.b13 (expert * (2 * args.ispp) + (args.ispp + c)) (rowUp ar args topK expert i c))
      args.swigluLimit args.beta args.linearBeta)
  else scratch c

/-- What the routed token `i` gets from `expert`, before its weight. -/
def rowOut (scratch : ℕ → W) (c : ℕ) : R :=
  addBias args.b2 (expert * args.hidden + c)
    (matmul ar args.ispp (rowAct ar args topK expert i scratch)
      (weight ar args.w2 args.w2Scale args.ispp args.groupSize (expert * args.hidden + c)))

end

/-! ## Weights -/

section

variable {R W : Type} [Field R] (ar : Arith R W)

variable {groupSize shard : ℕ}

lemma dequantFull_ok (packed scale : ℕ → UInt8) (nRows : ℕ) {k : ℕ} (hk : k % 2 = 0)
    (hgroup : k % groupSize = 0) : dequantFull ar packed scale nRows k (k / 2) (k / groupSize) groupSize =
      .ok (weight ar packed scale k groupSize) := by
  have hreshape : k / 2 * 2 = k := by omega
  have hbroadcast : k / groupSize * groupSize = k := Nat.div_mul_cancel (Nat.dvd_of_mod_eq_zero hgroup)
  unfold dequantFull
  rw [require_of (by rw [hreshape]), ok_bind, require_of (.inl hbroadcast), ok_bind]
  rfl

lemma weight_offset (packed scale : ℕ → UInt8) (e rows cols groupSize row : ℕ) :
    weight ar (offset packed (e * (rows * (cols / 2)))) (offset scale (e * (rows * (cols / groupSize)))) cols
      groupSize row = weight ar packed scale cols groupSize (e * rows + row) := by
  have hbyte : ∀ (full : ℕ → UInt8) (len x : ℕ),
      offset full (e * (rows * len)) (row * len + x) = full ((e * rows + row) * len + x) := by
    intro _ _ x
    unfold offset
    congr 1
    ring
  funext k
  unfold weight weightAt
  simp [hbyte]

lemma columns_get (t : ℕ → UInt8) {per : ℕ} (hper : 0 < per) (hshard : shard % per = 0) (tp rank row : ℕ)
    {k : ℕ} (hk : k < shard) :
    columns t (tp * shard / per) (rank * shard / per) ((rank + 1) * shard / per) (row * (shard / per) + k / per) =
      t (row * (tp * shard / per) + (rank * shard + k) / per) := by
  obtain ⟨m, rfl⟩ := Nat.dvd_of_mod_eq_zero hshard
  have hdiv : ∀ x : ℕ, x * (per * m) / per = x * m := by
    intro x
    rw [Nat.mul_left_comm, Nat.mul_div_cancel_left _ hper]
  have hplace : (rank * (per * m) + k) / per = rank * m + k / per := by
    rw [show rank * (per * m) = per * (rank * m) by ring, Nat.mul_add_div hper]
  have hcol : k / per < m := Nat.div_lt_of_lt_mul hk
  have hlen : (rank + 1) * m - rank * m = m := by
    rw [Nat.add_one_mul, Nat.add_sub_cancel_left]
  unfold columns
  rw [hdiv, hdiv, hdiv, hplace, hlen, Nat.mul_div_cancel_left m hper, Blocks.block_div _ hcol,
    Blocks.block_mod _ hcol, Nat.add_assoc]

/-- **A shard's weight** is the full tensor's, in the rank's columns. -/
theorem weight_columns (packed scale : ℕ → UInt8) (hgroup : 0 < groupSize)
    (heven : shard % 2 = 0) (hshard : shard % groupSize = 0) (tp rank row : ℕ) {k : ℕ} (hk : k < shard) :
    weight ar (columns packed (tp * shard / 2) (rank * shard / 2) ((rank + 1) * shard / 2))
      (columns scale (tp * shard / groupSize) (rank * shard / groupSize) ((rank + 1) * shard / groupSize)) shard
      groupSize row k = weight ar packed scale (tp * shard) groupSize row (rank * shard + k) := by
  have hparity : (rank * shard + k) % 2 = k % 2 := by
    rw [Nat.add_mod, Nat.mul_mod, heven, Nat.mul_zero, Nat.zero_mod, zero_add, Nat.mod_mod]
  unfold weight weightAt
  rw [columns_get packed two_pos heven tp rank row hk, columns_get scale hgroup hshard tp rank row hk, hparity]

lemma matmul_eq_sum (K : ℕ) (a b : ℕ → W) :
    matmul ar K a b = ∑ k ∈ range K, ar.bf16ToFloat (a k) * ar.bf16ToFloat (b k) := by
  unfold matmul
  rw [foldl_add (fun x : R => x) (fun _ _ => rfl), zero_add]

/-- **K-slices**: the products of the ranks, each with its columns, add up. -/
theorem sum_columns (packed scale : ℕ → UInt8) {full tp : ℕ} (hfull : full = tp * shard)
    (hgroup : 0 < groupSize) (hshard : shard % 64 = 0) (hgroups : shard % groupSize = 0) (x : ℕ → W) (row : ℕ) :
    ∑ rank ∈ range tp, matmul ar shard (fun k => x (rank * shard + k))
      (weight ar (columns packed (full / 2) (rank * shard / 2) ((rank + 1) * shard / 2))
        (columns scale (full / groupSize) (rank * shard / groupSize) ((rank + 1) * shard / groupSize)) shard
        groupSize row) = matmul ar full x (weight ar packed scale full groupSize row) := by
  subst hfull
  rw [matmul_eq_sum, ← sum_blocks]
  refine sum_congr rfl fun rank _ => ?_
  rw [matmul_eq_sum]
  refine sum_congr rfl fun k hk => ?_
  rw [weight_columns ar packed scale hgroup (by omega) hgroups tp rank row (mem_range.mp hk)]

end

/-! ## What the stages compute -/

section

lemma forBlocksM_eq {S : Type} {em : ℕ} {expertIds : List ℤ} {body : ℕ → ℕ → S → Except String S}
    {f : ℕ → ℕ → S → S} (h : ∀ mb e s, body mb e s = .ok (f mb e s)) (s : S) :
    forBlocksM em expertIds body s = forBlocks em expertIds f s := by
  unfold forBlocksM forBlocks
  congr 1
  funext s mb
  unfold withExpert
  cases expertIds[mb]? with
  | none => rfl
  | some expert =>
    by_cases hneg : expert < 0
    · simp [hneg]
    · simp [hneg, h]

variable {R W : Type} [Field R] [Zero W] (ar : Arith R W) (sortedIds : ℕ → ℕ) {expertIds : List ℤ}
  (M topK : ℕ) {em : ℕ}

variable {groupSize : ℕ}

lemma moeGateup_eq (A : ℕ → W) (w13 w13Scale : ℕ → UInt8) (gateUp : GateUp R)
    (aStride kBase ispp : ℕ) {hiddenK : ℕ} (hk : hiddenK % 2 = 0) (hgroup : hiddenK % groupSize = 0) :
    moeGateup ar A w13 w13Scale sortedIds expertIds gateUp M aStride kBase hiddenK ispp topK em groupSize =
      forBlocks em expertIds (fun mb expert gateUp => (List.range (ispp / blockN)).foldl (fun gateUp nb =>
        { gate := writeTile blockM blockN mb nb (fun m n _ => matmul ar hiddenK
            (fun k => if sortedIds (mb * blockM + m) < M * topK then
              A (sortedIds (mb * blockM + m) / topK * aStride + kBase + k) else 0)
            (weight ar w13 w13Scale hiddenK groupSize (expert * (2 * ispp) + (nb * blockN + n)))) gateUp.gate
          up := writeTile blockM blockN mb nb (fun m n _ => matmul ar hiddenK
            (fun k => if sortedIds (mb * blockM + m) < M * topK then
              A (sortedIds (mb * blockM + m) / topK * aStride + kBase + k) else 0)
            (weight ar w13 w13Scale hiddenK groupSize (expert * (2 * ispp) + (ispp + (nb * blockN + n)))))
            gateUp.up }) gateUp) gateUp := by
  unfold moeGateup
  apply forBlocksM_eq
  intro _ e s
  rw [dequantFull_ok ar _ _ _ hk hgroup, ok_bind]
  simp only [weight_offset]
  rfl

lemma moeGateup_ok (h : em / blockM ≤ expertIds.length) (A : ℕ → W) (w13 w13Scale : ℕ → UInt8)
    (gateUp : GateUp R) (aStride kBase ispp : ℕ) {hiddenK : ℕ} (hk : hiddenK % 2 = 0)
    (hgroup : hiddenK % groupSize = 0) :
    ∃ out, moeGateup ar A w13 w13Scale sortedIds expertIds gateUp M aStride kBase hiddenK ispp topK em groupSize =
        .ok out ∧ ∀ r e c, rowExpert em expertIds r = some e → sortedIds r < M * topK → c / blockN < ispp / blockN →
        out.gate r c = matmul ar hiddenK (fun k => A (sortedIds r / topK * aStride + kBase + k))
          (weight ar w13 w13Scale hiddenK groupSize (e * (2 * ispp) + c)) ∧
        out.up r c = matmul ar hiddenK (fun k => A (sortedIds r / topK * aStride + kBase + k))
          (weight ar w13 w13Scale hiddenK groupSize (e * (2 * ispp) + (ispp + c))) := by
  rw [moeGateup_eq ar sortedIds M topK A w13 w13Scale gateUp aStride kBase ispp hk hgroup]
  refine ⟨_, forBlocks_ok h _, ?_⟩
  intro r e c hr hflat hc
  constructor
  · apply (runBlocks_gateUp hr hc _ _ gateUp).1.trans
    simp [block_row, block_col, if_pos hflat]
  · apply (runBlocks_gateUp hr hc _ _ gateUp).2.trans
    simp [block_row, block_col, if_pos hflat]

lemma moeDown_ok (h : em / blockM ≤ expertIds.length) (act : ℕ → ℕ → W) (w2 w2Scale : ℕ → UInt8)
    (partialOut : ℕ → ℕ → R) (kBase hidden : ℕ) {isppK : ℕ} (hk : isppK % 2 = 0) (hgroup : isppK % groupSize = 0) :
    ∃ out, moeDown ar act w2 w2Scale sortedIds expertIds partialOut M kBase isppK hidden topK em groupSize = .ok out ∧
      ∀ r e c, rowExpert em expertIds r = some e → sortedIds r < M * topK → c / blockN < hidden / blockN →
        out r c = matmul ar isppK (fun k => act r (kBase + k))
          (weight ar w2 w2Scale isppK groupSize (e * hidden + c)) := by
  have heq : moeDown ar act w2 w2Scale sortedIds expertIds partialOut M kBase isppK hidden topK em groupSize =
      forBlocks em expertIds (fun mb expert partialOut => (List.range (hidden / blockN)).foldl (fun partialOut nb =>
        writeTile blockM blockN mb nb (fun m n _ => matmul ar isppK
          (fun k => if sortedIds (mb * blockM + m) < M * topK then act (mb * blockM + m) (kBase + k) else 0)
          (weight ar w2 w2Scale isppK groupSize (expert * hidden + (nb * blockN + n)))) partialOut) partialOut)
        partialOut := by
    unfold moeDown
    apply forBlocksM_eq
    intro _ e s
    rw [dequantFull_ok ar _ _ _ hk hgroup, ok_bind]
    simp only [weight_offset]
    rfl
  rw [heq]
  refine ⟨_, forBlocks_ok h _, ?_⟩
  intro r e c hr hflat hc
  rw [runBlocks_tiles, hr, Option.elim_some, if_pos hc]
  simp [block_row, block_col, if_pos hflat]

variable [LinearOrder R] (args : MoeArgs R W)

omit [Zero W] in
lemma moeActEpilogue_ok (h : em / blockM ≤ expertIds.length) (gateUp : GateUp R) (actScratch : ℕ → ℕ → W)
    (hgateUp : ∀ r e c, rowExpert em expertIds r = some e → sortedIds r < M * topK →
      c / blockN < args.ispp / blockN → gateUp.gate r c = rowGate ar args topK e (sortedIds r) c ∧
        gateUp.up r c = rowUp ar args topK e (sortedIds r) c) :
    ∃ act, moeActEpilogue ar gateUp args.b13 actScratch sortedIds expertIds M topK em args.ispp args.swigluLimit
        args.activation args.beta args.linearBeta = .ok act ∧
      ∀ r e c, rowExpert em expertIds r = some e → sortedIds r < M * topK →
        act r c = rowAct ar args topK e (sortedIds r) (actScratch r) c := by
  refine ⟨_, forBlocks_ok h _, ?_⟩
  intro r e c hr hflat
  rw [runBlocks_tiles, hr, Option.elim_some]
  unfold rowAct
  by_cases hc : c / blockN < args.ispp / blockN
  · rw [if_pos hc, if_pos hc, if_neg (by rw [block_row]; omega), block_row, block_col, (hgateUp r e c hr hflat hc).1,
      (hgateUp r e c hr hflat hc).2]
  · rw [if_neg hc, if_neg hc]

omit [Zero W] in
lemma moeCombine_ok (h : em / blockM ≤ expertIds.length) (partialOut : ℕ → ℕ → R) (topkWSorted : ℕ → R)
    (actScratch : ℕ → ℕ → W) (hpart : ∀ r e c, rowExpert em expertIds r = some e → sortedIds r < M * topK →
      c / blockN < args.hidden / blockN → partialOut r c =
        matmul ar args.ispp (rowAct ar args topK e (sortedIds r) (actScratch r))
          (weight ar args.w2 args.w2Scale args.ispp args.groupSize (e * args.hidden + c))) :
    ∃ out, moeCombine partialOut args.b2 topkWSorted sortedIds expertIds (fun _ _ => 0) M args.hidden topK em =
        .ok out ∧ ∀ t c, out t c = ∑ r ∈ range (em / blockM * blockM), (rowExpert em expertIds r).elim 0 fun e =>
        if c / blockN < args.hidden / blockN ∧ sortedIds r < M * topK ∧ sortedIds r / topK = t then
          rowOut ar args topK e (sortedIds r) (actScratch r) c * topkWSorted r else 0 := by
  obtain ⟨out, hout, hsum⟩ := moeCombineCpu_ok sortedIds M topK h partialOut args.b2 topkWSorted (fun _ _ => 0)
    args.hidden
  refine ⟨out, hout, ?_⟩
  intro t c
  rw [hsum, zero_add]
  refine sum_congr rfl fun r _ => ?_
  cases hr : rowExpert em expertIds r with
  | none => rfl
  | some e =>
    simp only [Option.elim_some, combined, ← ite_and]
    by_cases hin : c / blockN < args.hidden / blockN ∧ sortedIds r < M * topK ∧ sortedIds r / topK = t
    · rw [if_pos hin, if_pos hin, hpart r e c hr hin.2.1 hin.1]
      rfl
    · rw [if_neg hin, if_neg hin]

end

/-! ## The experts of a rank -/

section

variable {R W : Type} [Field R] (ar : Arith R W) (args : MoeArgs R W) (plan : MoeEPPlan) (topK e i : ℕ)

lemma rowGate_ofRank (c : ℕ) : rowGate ar (args.ofRank plan) topK e i c =
    rowGate ar args topK (plan.expertBegin + e) i c := by
  unfold rowGate MoeArgs.ofRank
  rw [weight_offset, ← add_assoc, ← add_mul]

lemma rowUp_ofRank (c : ℕ) : rowUp ar (args.ofRank plan) topK e i c =
    rowUp ar args topK (plan.expertBegin + e) i c := by
  unfold rowUp MoeArgs.ofRank
  rw [weight_offset, ← add_assoc, ← add_mul]

variable [LinearOrder R]

lemma rowAct_ofRank (scratch : ℕ → W) (c : ℕ) : rowAct ar (args.ofRank plan) topK e i scratch c =
    rowAct ar args topK (plan.expertBegin + e) i scratch c := by
  have hbias : ∀ x, plan.expertBegin * 2 * args.ispp + (e * (2 * args.ispp) + x) =
      (plan.expertBegin + e) * (2 * args.ispp) + x := by
    intro x
    rw [add_mul, mul_assoc, add_assoc]
  unfold rowAct
  rw [rowGate_ofRank, rowUp_ofRank]
  unfold MoeArgs.ofRank
  rw [addBias_offset, addBias_offset, hbias, hbias]

/-- **A rank's expert** is the expert that its plan says. -/
theorem rowOut_ofRank (scratch : ℕ → W) (c : ℕ) : rowOut ar (args.ofRank plan) topK e i scratch c =
    rowOut ar args topK (plan.expertBegin + e) i scratch c := by
  have hact : rowAct ar (args.ofRank plan) topK e i scratch = rowAct ar args topK (plan.expertBegin + e) i scratch :=
    funext fun k => rowAct_ofRank ar args plan topK e i scratch k
  unfold rowOut
  rw [hact]
  unfold MoeArgs.ofRank
  rw [weight_offset, addBias_offset, ← add_assoc, ← add_mul]

end

/-! ## The plans -/

section

/-- What `tp_plan` checks. -/
structure TpPlanOk (hidden ispp tp groupSize : ℕ) (plan : MoeTPPlan) : Prop where
  tp_pos : 0 < tp
  hidden_eq : hidden = tp * plan.hiddenShard
  ispp_eq : ispp = tp * plan.isppShard
  hidden_tiles : plan.hiddenShard % 64 = 0
  ispp_tiles : plan.isppShard % 64 = 0
  hidden_groups : plan.hiddenShard % groupSize = 0
  ispp_groups : plan.isppShard % groupSize = 0

lemma tpPlan_ok {hidden ispp tp groupSize : ℕ} {plan : MoeTPPlan}
    (h : tpPlan hidden ispp tp groupSize = .ok plan) : TpPlanOk hidden ispp tp groupSize plan := by
  obtain ⟨htp, h⟩ := require_bind_ok.mp h
  simp only [require_bind_ok] at h
  obtain ⟨hdiv, htiles, hgroups, h⟩ := h
  cases h
  exact ⟨htp, (Nat.mul_div_cancel' (Nat.dvd_of_mod_eq_zero hdiv.1)).symm,
    (Nat.mul_div_cancel' (Nat.dvd_of_mod_eq_zero hdiv.2)).symm, htiles.1, htiles.2, hgroups.1, hgroups.2⟩

lemma TpPlanOk.even {hidden ispp tp groupSize : ℕ} {plan : MoeTPPlan}
    (h : TpPlanOk hidden ispp tp groupSize plan) : hidden % 2 = 0 ∧ ispp % 2 = 0 := by
  have hhidden := h.hidden_tiles
  have hispp := h.ispp_tiles
  rw [h.hidden_eq, h.ispp_eq, Nat.mul_mod, Nat.mul_mod tp, show plan.hiddenShard % 2 = 0 by omega,
    show plan.isppShard % 2 = 0 by omega, Nat.mul_zero, Nat.zero_mod]
  exact ⟨rfl, rfl⟩

lemma epPlan_ok_iff {numExperts ep rank : ℕ} {plan : MoeEPPlan} :
    epPlan numExperts ep rank = .ok plan ↔ moeEpPlan numExperts ep rank = .ok plan := by
  unfold epPlan moeEpPlan
  rw [require_bind_ok, require_bind_ok, require_bind_ok, Comm.expects_ok, Comm.expects_ok,
    Comm.expects_ok, not_lt]
  simp

lemma epDispatch_eq (ids : ℕ → ℤ) (plan : MoeEPPlan) (M topK numExperts : ℕ) {blockSize : ℕ}
    (hblock : 0 < blockSize) : epDispatch ids plan M topK numExperts blockSize =
      .ok ((paddedIds (plan.mask ids) M topK blockSize numExperts).length,
        paddedIds (plan.mask ids) M topK blockSize numExperts,
        (blockExperts (plan.mask ids) M topK blockSize numExperts).map (· - (plan.expertBegin : ℤ))) := by
  unfold epDispatch
  rw [Fallback.moeAlignBlockSize_eq _ M topK numExperts hblock, ok_bind]
  show Except.ok _ = Except.ok _
  congr 3
  apply List.map_congr_left
  intro e he
  obtain ⟨_, _, _, hlo, _⟩ := mem_blockExperts _ M topK numExperts hblock he
  exact if_pos hlo

end

/-! ## What the forwards compute -/

section

variable (topkW : ℕ → R) (M topK : ℕ)

/-- The output at `t`, `c` of a layout whose experts start at `begin`. -/
def layoutOut (sorted : List ℕ) (experts : List ℤ) (begin : ℕ) (scratch : ℕ → ℕ → W) (t c : ℕ) : R :=
  ∑ r ∈ range (sorted.length / blockM * blockM),
    (rowExpert sorted.length (experts.map (· - (begin : ℤ))) r).elim 0 fun e =>
      if c / blockN < args.hidden / blockN ∧ sorted.getD r 0 < M * topK ∧ sorted.getD r 0 / topK = t then
        rowOut ar args topK (begin + e) (sorted.getD r 0) (scratch r) c * sortedWeights sorted topkW (M * topK) r
      else 0

lemma mapM_ok {β : Type} {n : ℕ} {f : ℕ → Except String β} {y : ℕ → β} (h : ∀ rank < n, f rank = .ok (y rank)) :
    (List.range n).mapM f = .ok ((List.range n).map y) := by
  apply mapM_eq_ok.mpr
  rw [List.forall₂_map_right_iff, List.forall₂_same]
  exact fun rank hrank => h rank (List.mem_range.mp hrank)

omit [LinearOrder R] in
lemma sumBuffers_map (n : ℕ) (p : ℕ → ℕ → ℕ → R) (r c : ℕ) :
    sumBuffers ((List.range n).map p) r c = ∑ rank ∈ range n, p rank r c := by
  unfold sumBuffers
  rw [List.map_map]
  rfl

variable (ids : ℕ → ℤ) {numExperts blockSize tp : ℕ} {plan : MoeTPPlan}

/-- **Tensor parallelism**: every rank returns the output of the one layout. -/
theorem distMoeTp_ok (hblock : 0 < blockSize) (hplan : tpPlan args.hidden args.ispp tp args.groupSize = .ok plan)
    (hactivation : args.activation = 0 ∨ args.activation = 1)
    (hfits : (paddedIds ids M topK blockSize numExperts).length / blockM ≤
      (blockExperts ids M topK blockSize numExperts).length) (scratch : ℕ → ℕ → W) :
    ∃ out, distMoeTp ar args ids topkW scratch M topK numExperts blockSize tp = .ok (List.replicate tp out) ∧
      ∀ t c, out t c = layoutOut ar args topkW M topK (paddedIds ids M topK blockSize numExperts)
        (blockExperts ids M topK blockSize numExperts) 0 scratch t c := by
  have hok := tpPlan_ok hplan
  have hhidden : plan.hiddenShard % 2 = 0 := by
    have := hok.hidden_tiles
    omega
  have hispp : plan.isppShard % 2 = 0 := by
    have := hok.ispp_tiles
    omega
  have hgateUp := fun rank => moeGateup_ok ar (fun i => (paddedIds ids M topK blockSize numExperts).getD i 0) M topK
    hfits args.A (tpShardWeights args plan rank).w13 (tpShardWeights args plan rank).w13Scale
    ⟨fun _ _ => 0, fun _ _ => 0⟩ args.hidden (rank * plan.hiddenShard) args.ispp hhidden hok.hidden_groups
  choose gateUp hgateUp hgate using hgateUp
  -- the first collective
  obtain ⟨act, hact, hrowAct⟩ := moeActEpilogue_ok ar (fun i => (paddedIds ids M topK blockSize numExperts).getD i 0)
    M topK args hfits { gate := sumBuffers (((List.range tp).map gateUp).map GateUp.gate)
                        up := sumBuffers (((List.range tp).map gateUp).map GateUp.up) } scratch (by
      intro r e c hr hflat hc
      rw [List.map_map, List.map_map]
      constructor
      · refine (sumBuffers_map tp (fun rank => (gateUp rank).gate) r c).trans ?_
        rw [sum_congr rfl fun rank _ => (hgate rank r e c hr hflat hc).1]
        simp only [add_assoc]
        exact sum_columns ar args.w13 args.w13Scale hok.hidden_eq args.groupSize_pos hok.hidden_tiles
          hok.hidden_groups (fun k => args.A
            ((paddedIds ids M topK blockSize numExperts).getD r 0 / topK * args.hidden + k)) _
      · refine (sumBuffers_map tp (fun rank => (gateUp rank).up) r c).trans ?_
        rw [sum_congr rfl fun rank _ => (hgate rank r e c hr hflat hc).2]
        simp only [add_assoc]
        exact sum_columns ar args.w13 args.w13Scale hok.hidden_eq args.groupSize_pos hok.hidden_tiles
          hok.hidden_groups (fun k => args.A
            ((paddedIds ids M topK blockSize numExperts).getD r 0 / topK * args.hidden + k)) _)
  have hdown := fun rank => moeDown_ok ar (fun i => (paddedIds ids M topK blockSize numExperts).getD i 0) M topK
    hfits act (tpShardWeights args plan rank).w2 (tpShardWeights args plan rank).w2Scale (fun _ _ => 0)
    (rank * plan.isppShard) args.hidden hispp hok.ispp_groups
  choose partialOut hdown hpart using hdown
  -- the second collective
  obtain ⟨out, hout, hsum⟩ := moeCombine_ok ar (fun i => (paddedIds ids M topK blockSize numExperts).getD i 0) M topK
    args hfits (sumBuffers ((List.range tp).map partialOut))
    (sortedWeights _ topkW _) scratch (by
      intro r e c hr hflat hc
      rw [sumBuffers_map, sum_congr rfl fun rank _ => hpart rank r e c hr hflat hc]
      refine (sum_columns ar args.w2 args.w2Scale hok.ispp_eq args.groupSize_pos hok.ispp_tiles hok.ispp_groups
        (act r) _).trans ?_
      rw [show act r = _ from funext fun k => hrowAct r e k hr hflat])
  refine ⟨out, ?_, ?_⟩
  · unfold distMoeTp
    rw [hplan, ok_bind, Fallback.moeAlignBlockSize_eq ids M topK numExperts hblock, ok_bind]
    dsimp only
    rw [require_of hactivation, ok_bind, mapM_ok fun rank _ => hgateUp rank, ok_bind, hact, ok_bind,
      mapM_ok fun rank _ => hdown rank, ok_bind, hout, ok_bind]
    rfl
  · intro t c
    rw [hsum]
    unfold layoutOut
    simp

lemma distMoeTp_error (hblock : 0 < blockSize) (hplan : tpPlan args.hidden args.ispp tp args.groupSize = .ok plan)
    (hlong : (blockExperts ids M topK blockSize numExperts).length <
      (paddedIds ids M topK blockSize numExperts).length / blockM) (scratch : ℕ → ℕ → W) (outs : List (ℕ → ℕ → R)) :
    distMoeTp ar args ids topkW scratch M topK numExperts blockSize tp ≠ .ok outs := by
  intro h
  have hok := tpPlan_ok hplan
  have hhidden : plan.hiddenShard % 2 = 0 := by
    have := hok.hidden_tiles
    omega
  unfold distMoeTp at h
  rw [hplan, ok_bind, Fallback.moeAlignBlockSize_eq ids M topK numExperts hblock, ok_bind] at h
  obtain ⟨_, h⟩ := require_bind_ok.mp h
  obtain ⟨_, hpartials, _⟩ := bind_ok.mp h
  obtain ⟨_, _, hfirst⟩ := (forall₂_mem (mapM_eq_ok.mp hpartials)).1 0 (List.mem_range.mpr hok.tp_pos)
  rw [moeGateup_eq ar _ M topK _ _ _ _ _ _ _ hhidden hok.hidden_groups, forBlocks_error hlong] at hfirst
  cases hfirst

/-- **A rank's local forward** is that of its experts among all. -/
theorem moeLocalForward_ok (plan : MoeEPPlan) (hhidden : args.hidden % 2 = 0) (hispp : args.ispp % 2 = 0)
    (hhiddenGroups : args.hidden % args.groupSize = 0) (hisppGroups : args.ispp % args.groupSize = 0)
    {rows : List ℕ} {experts : List ℤ} (hfits : rows.length / blockM ≤ experts.length) (scratch : ℕ → ℕ → W) :
    ∃ out, moeLocalForward ar (args.ofRank plan) rows (sortedWeights rows topkW (M * topK))
        (experts.map (· - (plan.expertBegin : ℤ))) scratch M topK rows.length = .ok out ∧
      ∀ t c, out t c = layoutOut ar args topkW M topK rows experts plan.expertBegin scratch t c := by
  have hfits' : rows.length / blockM ≤ (experts.map (· - (plan.expertBegin : ℤ))).length := by
    rwa [List.length_map]
  obtain ⟨gateUp, hgateUp, hgate⟩ := moeGateup_ok ar (fun i => rows.getD i 0) M topK hfits' args.A
    (args.ofRank plan).w13 (args.ofRank plan).w13Scale ⟨fun _ _ => 0, fun _ _ => 0⟩ args.hidden 0 args.ispp hhidden
    hhiddenGroups
  obtain ⟨act, hact, hrowAct⟩ := moeActEpilogue_ok ar (fun i => rows.getD i 0) M topK (args.ofRank plan) hfits'
    gateUp scratch fun r e c hr hflat hc => hgate r e c hr hflat hc
  obtain ⟨partialOut, hpartOut, hpart⟩ := moeDown_ok ar (fun i => rows.getD i 0) M topK hfits' act
    (args.ofRank plan).w2 (args.ofRank plan).w2Scale (fun _ _ => 0) 0 args.hidden hispp hisppGroups
  obtain ⟨out, hout, hsum⟩ := moeCombine_ok ar (fun i => rows.getD i 0) M topK (args.ofRank plan) hfits'
    partialOut _ scratch (by
      intro r e c hr hflat hc
      rw [hpart r e c hr hflat hc]
      simp only [zero_add]
      rw [show act r = _ from funext fun k => hrowAct r e k hr hflat]
      rfl)
  refine ⟨out, ?_, ?_⟩
  · show (moeGateup ar args.A _ _ _ _ _ M args.hidden 0 args.hidden args.ispp topK _ args.groupSize >>= _) = _
    rw [hgateUp, ok_bind]
    rw [hact, ok_bind]
    show (moeDown ar act _ _ _ _ _ M 0 args.ispp args.hidden topK _ args.groupSize >>= _) = _
    rw [hpartOut, ok_bind]
    exact hout
  · intro t c
    rw [hsum]
    simp only [rowOut_ofRank]
    rfl

variable (hhidden : args.hidden % 2 = 0) (hispp : args.ispp % 2 = 0)
  (hhiddenGroups : args.hidden % args.groupSize = 0) (hisppGroups : args.ispp % args.groupSize = 0) {ep : ℕ}

include hhidden hispp hhiddenGroups hisppGroups in
/-- **Expert parallelism**: every rank returns the output of its layout. -/
theorem distMoeEp_ok (hblock : 0 < blockSize) (hep : 0 < ep) (hle : ep ≤ numExperts)
    (hfits : ∀ rank plan, epPlan numExperts ep rank = .ok plan →
      (paddedIds (plan.mask ids) M topK blockSize numExperts).length / blockM ≤
        (blockExperts (plan.mask ids) M topK blockSize numExperts).length) (scratch : ℕ → ℕ → ℕ → W) :
    ∃ out : ℕ → ℕ → ℕ → R, distMoeEp ar args ids topkW scratch M topK numExperts blockSize ep =
        .ok ((List.range ep).map out) ∧ ∀ rank plan, epPlan numExperts ep rank = .ok plan → ∀ t c, out rank t c =
        layoutOut ar args topkW M topK (paddedIds (plan.mask ids) M topK blockSize numExperts)
          (blockExperts (plan.mask ids) M topK blockSize numExperts) plan.expertBegin (scratch rank) t c := by
  have hplan := fun rank (h : rank < ep) => epPlan_ok_iff.mpr (moeEpPlan_eq hep hle h)
  have hrank : ∀ rank < ep, ∃ o : ℕ → ℕ → R, (epPlan numExperts ep rank >>= fun plan =>
      epDispatch ids plan M topK numExperts blockSize >>= fun layout =>
        moeLocalForward ar (args.ofRank plan) layout.2.1 (sortedWeights layout.2.1 topkW (M * topK)) layout.2.2
          (scratch rank) M topK layout.1) = .ok o ∧
      ∀ plan, epPlan numExperts ep rank = .ok plan → ∀ t c, o t c =
        layoutOut ar args topkW M topK (paddedIds (plan.mask ids) M topK blockSize numExperts)
          (blockExperts (plan.mask ids) M topK blockSize numExperts) plan.expertBegin (scratch rank) t c := by
    intro rank hrank
    obtain ⟨o, ho, hsum⟩ := moeLocalForward_ok ar args topkW M topK _ hhidden hispp hhiddenGroups hisppGroups
      (hfits rank _ (hplan rank hrank)) _
    refine ⟨o, ?_, ?_⟩
    · rw [hplan rank hrank, ok_bind, epDispatch_eq ids _ M topK numExperts hblock, ok_bind]
      exact ho
    · intro plan h
      rw [hplan rank hrank] at h
      cases h
      exact hsum
  choose! out hout hsum using hrank
  refine ⟨out, ?_, fun rank plan h => hsum rank (moeEpPlan_ok (epPlan_ok_iff.mp h)).1 plan h⟩
  unfold distMoeEp
  rw [require_of hep, ok_bind]
  exact mapM_ok hout

include hhidden hhiddenGroups in
lemma fits_of_distMoeEp (hblock : 0 < blockSize) {scratch : ℕ → ℕ → ℕ → W} {outs : List (ℕ → ℕ → R)}
    (h : distMoeEp ar args ids topkW scratch M topK numExperts blockSize ep = .ok outs) {rank : ℕ} {plan : MoeEPPlan}
    (hplan : epPlan numExperts ep rank = .ok plan) :
    (paddedIds (plan.mask ids) M topK blockSize numExperts).length / blockM ≤
      (blockExperts (plan.mask ids) M topK blockSize numExperts).length := by
  obtain ⟨_, h⟩ := require_bind_ok.mp h
  have hrank := (moeEpPlan_ok (epPlan_ok_iff.mp hplan)).1
  obtain ⟨_, _, ho⟩ := (forall₂_mem (mapM_eq_ok.mp h)).1 rank (List.mem_range.mpr hrank)
  rw [hplan, ok_bind, epDispatch_eq ids _ M topK numExperts hblock, ok_bind] at ho
  by_contra hlong
  obtain ⟨_, hgateUp, _⟩ := bind_ok.mp ho
  change moeGateup ar args.A _ _ _ _ _ M args.hidden 0 args.hidden args.ispp topK _ args.groupSize = _ at hgateUp
  rw [moeGateup_eq ar _ M topK _ _ _ _ _ _ _ hhidden hhiddenGroups, forBlocks_error (by
    rw [List.length_map]
    omega)] at hgateUp
  cases hgateUp

end

end VKernels.Moe.Dist
