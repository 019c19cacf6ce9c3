import VKernels.Comm.RingAllreduce
import VKernels.Moe.ExpertParallel

/-!
# Tensor parallelism

`moe_tp_plan`, the two shard functions and the per-rank forward of `dist/dist_moe.cpp`, over the
channels of the ring all-reduce.

* `moeTpPlan`, `moeTpShardW13`, `moeTpShardW2` — the plan and the shards of a rank.
-/

namespace VKernels.Moe

open Comm (expects)
open Comm.Allreduce (RankM Ring ringAllreduceRank)
open Blocks FifoProcesses
open List

/-! ## The plan and the shards -/

/-- The ue8m0 scale group, the fused kernel's constant. -/
def kGroupSize : ℕ := 32

structure MoeTPPlan where
  tp : ℕ
  hidden : ℕ
  ispp : ℕ
  hiddenShard : ℕ
  isppShard : ℕ
  w13ShardBytes : ℕ
  w13sShardBytes : ℕ
  w2ShardBytes : ℕ
  w2sShardBytes : ℕ

def moeTpPlan (hidden ispp tp : ℕ) : Except String MoeTPPlan := do
  expects (tp > 0) "tp must be positive" "tp > 0"
  expects (hidden % tp = 0) "hidden must be divisible by tp" "hidden % tp == 0"
  expects (ispp % tp = 0) "ispp must be divisible by tp" "ispp % tp == 0"
  let hiddenShard := hidden / tp
  let isppShard := ispp / tp
  expects (hiddenShard % 64 = 0) "hidden/tp must be a multiple of 64" "hidden_shard % 64 == 0"
  expects (isppShard % 64 = 0) "ispp/tp must be a multiple of 64" "ispp_shard % 64 == 0"
  expects (hiddenShard % kGroupSize = 0) "hidden/tp must be a multiple of 32"
    "hidden_shard % kGroupSize == 0"
  expects (isppShard % kGroupSize = 0) "ispp/tp must be a multiple of 32"
    "ispp_shard % kGroupSize == 0"
  return {
    tp, hidden, ispp, hiddenShard, isppShard
    w13ShardBytes := 2 * ispp * (hiddenShard / 2)
    w13sShardBytes := 2 * ispp * (hiddenShard / kGroupSize)
    w2ShardBytes := hidden * (isppShard / 2)
    w2sShardBytes := hidden * (isppShard / kGroupSize) }

/-- `std::memcpy` from a pointer into a vector. -/
def memcpy (shard : List UInt8) (dst : ℕ) (full : ℕ → UInt8) (src len : ℕ) : Except String (List UInt8) :=
  if dst + len ≤ shard.length then .ok (overwrite shard dst ((range len).map fun j => full (src + j)))
  else .error outOfBounds

/-- The row loop of the shard functions. -/
def shardRows (full fullScale : ℕ → UInt8) (rows rowPacked rowScale shardPacked shardScale rank : ℕ)
    (shards : List UInt8 × List UInt8) : Except String (List UInt8 × List UInt8) :=
  let offPacked := rank * shardPacked
  let offScale := rank * shardScale
  (range rows).foldlM (fun shards r => do
    let packed ← memcpy shards.1 (r * shardPacked) full (r * rowPacked + offPacked) shardPacked
    let scale ← memcpy shards.2 (r * shardScale) fullScale (r * rowScale + offScale) shardScale
    return (packed, scale)) shards

def moeTpShardW13 (w13 w13Scale : ℕ → UInt8) (E : ℕ) (plan : MoeTPPlan) (rank : ℕ)
    (shards : List UInt8 × List UInt8) : Except String (List UInt8 × List UInt8) := do
  expects (rank ≥ 0 ∧ rank < plan.tp) "rank out of range" "rank >= 0 && rank < plan.tp"
  shardRows w13 w13Scale (E * 2 * plan.ispp) (plan.hidden / 2) (plan.hidden / kGroupSize)
    (plan.hiddenShard / 2) (plan.hiddenShard / kGroupSize) rank shards

def moeTpShardW2 (w2 w2Scale : ℕ → UInt8) (E : ℕ) (plan : MoeTPPlan) (rank : ℕ)
    (shards : List UInt8 × List UInt8) : Except String (List UInt8 × List UInt8) := do
  expects (rank ≥ 0 ∧ rank < plan.tp) "rank out of range" "rank >= 0 && rank < plan.tp"
  shardRows w2 w2Scale (E * plan.hidden) (plan.ispp / 2) (plan.ispp / kGroupSize)
    (plan.isppShard / 2) (plan.isppShard / kGroupSize) rank shards

/-- The shard vectors of a rank's thread, `w13` and `w2`, each with its scales. -/
def rankShards {R W : Type} (args : MoeArgs R W) (numExperts : ℕ) (plan : MoeTPPlan) (rank : ℕ) :
    Except String ((List UInt8 × List UInt8) × (List UInt8 × List UInt8)) := do
  let w13 ← moeTpShardW13 args.w13 args.w13Scale numExperts plan rank
    (replicate (plan.w13ShardBytes * numExperts) 0, replicate (plan.w13sShardBytes * numExperts) 0)
  let w2 ← moeTpShardW2 args.w2 args.w2Scale numExperts plan rank
    (replicate (plan.w2ShardBytes * numExperts) 0, replicate (plan.w2sShardBytes * numExperts) 0)
  return (w13, w2)

/-! ## Buffers in one vector -/

section

variable {R : Type}

/-- A buffer of `rows` rows, row-major. -/
def flat (buf : ℕ → ℕ → R) (rows cols : ℕ) : List R :=
  (range (rows * cols)).map fun j => buf (j / cols) (j % cols)

variable [Zero R]

def ofFlat (l : List R) (cols : ℕ) : ℕ → ℕ → R := fun r c => l.getD (r * cols + c) 0

omit [Zero R] in
/-- `[EM, 2*ispp]`: a row is its gate half and its up half. -/
def GateUp.flat (gateUp : GateUp R) (em ispp : ℕ) : List R :=
  Moe.flat (fun r c => if c < ispp then gateUp.gate r c else gateUp.up r (c - ispp)) em (2 * ispp)

def GateUp.ofFlat (l : List R) (ispp : ℕ) : GateUp R where
  gate r c := Moe.ofFlat l (2 * ispp) r c
  up r c := Moe.ofFlat l (2 * ispp) r (ispp + c)

end

/-! ## The ranks -/

section

variable {R W : Type} [Field R] [LinearOrder R] [Zero W] (ar : Arith R W) (args : MoeArgs R W)

/-- `data()` of a shard; `beyond` is what the memory behind its end holds. -/
def data (beyond : ℕ → UInt8) (shard : List UInt8) : ℕ → UInt8 := fun i => shard.getD i (beyond i)

/-- One rank; of `args` it reads all but the weights, which are its shards. -/
def fusedMoeMxfp4TpRank (w13Shard w13sShard w2Shard w2sShard : ℕ → UInt8) (topkW : ℕ → R)
    (M topK blockSize tp rank em : ℕ) (sortedIds : ℕ → ℕ) (expertIds : List ℤ) : RankM R (List R) := do
  expects (rank ≥ 0 ∧ rank < tp) "rank out of range" "rank >= 0 && rank < tp"
  expects (em % blockSize = 0) "EM must be block-aligned" "EM % block_size == 0"
  expects (blockSize = 16) ("CPU reference is decode-regime (block_size 16); " ++
    "prefill 64-row alignment is HIP-only") "block_size == 16"
  let plan ← moeTpPlan args.hidden args.ispp tp
  let kBase := rank * plan.hiddenShard
  let kBaseDown := rank * plan.isppShard
  let nflat := M * topK
  let sortedW := fun i => if sortedIds i < nflat then topkW (sortedIds i) else 0
  let gateUp ← moeGateupCpu ar args.A w13Shard w13sShard sortedIds expertIds ⟨fun _ _ => 0, fun _ _ => 0⟩
    M args.hidden kBase plan.hiddenShard args.ispp topK em args.groupSize
  let gateUp ← ringAllreduceRank (gateUp.flat em args.ispp) rank tp
  let act ← moeActEpilogueCpu ar (GateUp.ofFlat gateUp args.ispp) args.b13 (fun _ _ => 0) sortedIds expertIds
    M topK em args.ispp args.swigluLimit args.activation args.beta args.linearBeta
  let partialOut ← moeDownCpu ar act w2Shard w2sShard sortedIds expertIds (fun _ _ => 0) M kBaseDown
    plan.isppShard args.hidden topK em args.groupSize
  let partialOut ← ringAllreduceRank (flat partialOut em args.hidden) rank tp
  let out ← moeCombineCpu (ofFlat partialOut args.hidden) args.b2 sortedW sortedIds expertIds
    (fun _ _ => 0) M args.hidden topK em
  return flat out M args.hidden

/-- `fused_moe_mxfp4_tp`, up to the `join` of its threads. -/
def fusedMoeMxfp4Tp (beyond : ℕ → UInt8) (topkIds : ℕ → ℤ) (topkW : ℕ → R)
    (M topK numExperts blockSize tp : ℕ) : Except String (Ring tp R) := do
  expects (tp > 0) "tp must be positive" "tp > 0"
  expects (blockSize = 16) ("CPU reference is decode-regime (block_size 16); " ++
    "prefill 64-row alignment is HIP-only") "block_size == 16"
  let plan ← moeTpPlan args.hidden args.ispp tp
  let (em, sorted, expertIds) ← alignTp topkIds M topK blockSize numExperts
  return {
    procs := fun r => (do
      let (w13, w2) ← rankShards args numExperts plan r
      fusedMoeMxfp4TpRank ar args (data beyond w13.1) (data beyond w13.2) (data beyond w2.1)
        (data beyond w2.2) topkW M topK blockSize tp r em (fun i => sorted.getD i 0) expertIds :
      RankM R (List R))
    channels := fun _ => [] }

end

/-! ## What the ranks must do -/

/-- Of a tensor `[rows, cols]` that keeps `per` elements a byte, the shard has the columns of the rank:
every element has the byte that it has in the full tensor. -/
def ShardOf (full : ℕ → UInt8) (per rows cols shardCols rank : ℕ) (shard : List UInt8) : Prop :=
  shard.length = rows * (shardCols / per) ∧ ∀ row < rows, ∀ k < shardCols,
    k / per < shardCols / per ∧ (rank * shardCols + k) / per < cols / per ∧
      shard[row * (shardCols / per) + k / per]? =
        some (full (row * (cols / per) + (rank * shardCols + k) / per))

/-- The shards of all ranks, side by side, are the full tensor. -/
def Concatenates (full : ℕ → UInt8) (per rows cols shardCols tp : ℕ) (shards : ℕ → List UInt8) : Prop :=
  ∀ row < rows, (range tp).flatMap (fun rank => block (shardCols / per) (shards rank) row) =
    (range (cols / per)).map fun j => full (row * (cols / per) + j)

/-- The shards of all ranks are the slices of one tensor. -/
def Sharded (full : ℕ → UInt8) (per rows cols shardCols tp : ℕ) (shards : ℕ → List UInt8) : Prop :=
  (∀ rank < tp, ShardOf full per rows cols shardCols rank (shards rank)) ∧
    Concatenates full per rows cols shardCols tp shards

/-- **Tensor parallelism**: the four shards are slices of the full tensors, and every rank ends with the
output of the single-rank oracle, whatever the order of the channel operations. -/
structure TpExact {R W : Type} [Field R] [LinearOrder R] [Zero W] (ar : Arith R W) (args : MoeArgs R W)
    (beyond : ℕ → UInt8) (topkIds : ℕ → ℤ) (topkW : ℕ → R) (M topK numExperts blockSize tp : ℕ) : Prop where
  shards : ∃ plan w13 w13s w2 w2s, moeTpPlan args.hidden args.ispp tp = .ok plan ∧
    (∀ rank < tp, rankShards args numExperts plan rank = .ok ((w13 rank, w13s rank), (w2 rank, w2s rank))) ∧
    Sharded args.w13 2 (numExperts * 2 * args.ispp) args.hidden plan.hiddenShard tp w13 ∧
    Sharded args.w13Scale args.groupSize (numExperts * 2 * args.ispp) args.hidden plan.hiddenShard tp w13s ∧
    Sharded args.w2 2 (numExperts * args.hidden) args.ispp plan.isppShard tp w2 ∧
    Sharded args.w2Scale args.groupSize (numExperts * args.hidden) args.ispp plan.isppShard tp w2s
  outputs : ∃ ring out, fusedMoeMxfp4Tp ar args beyond topkIds topkW M topK numExperts blockSize tp = .ok ring ∧
    runOracle ar args topkIds topkW M topK numExperts blockSize = .ok out ∧
    Net.Yields (fun r => (Comm.Allreduce.makeRingChannels r).inp) ring (.ok (flat out M args.hidden))

end VKernels.Moe
