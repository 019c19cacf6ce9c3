import VKernels.Moe.TensorParallelShards

/-!
# K-slices of the GEMMs

* `sum_rowDot` — the dot products of the K-slices add up to the dot product.
-/

namespace VKernels.Moe

open Comm.Allreduce (RankM)
open Blocks TileLoops

variable {R W : Type} [Field R] (ar : Arith R W)

/-! ## Weights by row -/

section

/-- The weight of a row of `cols`, at place `k` of K block `kb`. -/
def rowWeight (packed scale : ℕ → UInt8) (cols groupSize row kb k : ℕ) : W :=
  dequantWeightTile ar (offset packed (row * (cols / 2) + kb * blockK / 2))
    (offset scale (row * (cols / groupSize) + kb * blockK / groupSize)) groupSize (cols / 2)
    (cols / groupSize) 1 k 0

variable {ar} in
lemma dequant_congr {packed packed' scale scale' : ℕ → UInt8} {g sp sp' ss ss' k n n' : ℕ}
    (hpacked : packed (n * sp + k / 2) = packed' (n' * sp' + k / 2))
    (hscale : scale (n * ss + k / 2 * 2 / g * 1) = scale' (n' * ss' + k / 2 * 2 / g * 1)) :
    dequantWeightTile ar packed scale g sp ss 1 k n = dequantWeightTile ar packed' scale' g sp' ss' 1 k n' := by
  unfold dequantWeightTile
  simp only [hpacked, hscale]

variable (packed scale : ℕ → UInt8) {cols ispp hidden groupSize e nb kb k n : ℕ}

lemma gateTile_row : gateTile ar packed scale cols ispp groupSize e nb kb k n =
    rowWeight ar packed scale cols groupSize (e * (2 * ispp) + (nb * blockN + n)) kb k := by
  refine dequant_congr (congrArg packed ?_) (congrArg scale ?_)
  · ring
  · ring

lemma upTile_row : upTile ar packed scale cols ispp groupSize e nb kb k n =
    rowWeight ar packed scale cols groupSize (e * (2 * ispp) + (nb * blockN + n + ispp)) kb k := by
  refine dequant_congr (congrArg packed ?_) (congrArg scale ?_)
  · ring
  · ring

lemma downTile_row : downTile ar packed scale cols hidden groupSize e nb kb k n =
    rowWeight ar packed scale cols groupSize (e * hidden + (nb * blockN + n)) kb k := by
  refine dequant_congr (congrArg packed ?_) (congrArg scale ?_)
  · ring
  · ring

/-- **A shard's weight** is the full tensor's, `rank` K-slices further on. -/
theorem rowWeight_shard (beyond : ℕ → UInt8) (tp rank : ℕ) {rows m row kb k : ℕ} (hrow : row < rows) (hkb : kb < m)
    (hk : k < blockK) :
    rowWeight ar (data beyond (rowSlices packed rows (tp * (m * blockK) / 2) (rank * (m * blockK / 2)) (m * blockK / 2)))
        (data beyond (rowSlices scale rows (tp * (m * blockK) / kGroupSize) (rank * (m * blockK / kGroupSize))
          (m * blockK / kGroupSize))) (m * blockK) kGroupSize row kb k =
      rowWeight ar packed scale (tp * (m * blockK)) kGroupSize row (rank * m + kb) k := by
  have hk : k < 64 := hk
  have hget : ∀ (full : ℕ → UInt8) (rowBytes off len j : ℕ), j < len →
      data beyond (rowSlices full rows rowBytes off len) (row * len + j) = full (row * rowBytes + off + j) := by
    intro full _ _ _ j hj
    unfold data
    rw [List.getD_eq_getElem?_getD, getElem?_rowSlices full hrow hj]
    rfl
  have hpackedShard : m * blockK / 2 = m * 32 := by
    show m * 64 / 2 = m * 32
    omega
  have hscaleShard : m * blockK / kGroupSize = m * 2 := by
    show m * 64 / 32 = m * 2
    omega
  have hpackedAt : ∀ x : ℕ, x * blockK / 2 = x * 32 := by
    intro x
    show x * 64 / 2 = x * 32
    omega
  have hscaleAt : ∀ x : ℕ, x * blockK / kGroupSize = x * 2 := by
    intro x
    show x * 64 / 32 = x * 2
    omega
  have hgroup : k / 2 * 2 / kGroupSize < 2 := by
    show k / 2 * 2 / 32 < 2
    omega
  refine dequant_congr ?_ ?_
  · show data beyond _ (row * (m * blockK / 2) + kb * blockK / 2 + (0 * (m * blockK / 2) + k / 2)) =
      packed (row * (tp * (m * blockK) / 2) + (rank * m + kb) * blockK / 2 + (0 * (tp * (m * blockK) / 2) + k / 2))
    rw [Nat.zero_mul, Nat.zero_mul, zero_add, add_assoc, hget packed _ _ _ _ (by rw [hpackedShard, hpackedAt]; omega)]
    congr 1
    rw [hpackedShard, hpackedAt, hpackedAt]
    ring
  · show data beyond _ (row * (m * blockK / kGroupSize) + kb * blockK / kGroupSize +
        (0 * (m * blockK / kGroupSize) + k / 2 * 2 / kGroupSize * 1)) =
      scale (row * (tp * (m * blockK) / kGroupSize) + (rank * m + kb) * blockK / kGroupSize +
        (0 * (tp * (m * blockK) / kGroupSize) + k / 2 * 2 / kGroupSize * 1))
    rw [Nat.zero_mul, Nat.zero_mul, zero_add, mul_one, add_assoc,
      hget scale _ _ _ _ (by rw [hscaleShard, hscaleAt]; omega)]
    congr 1
    rw [hscaleShard, hscaleAt, hscaleAt]
    ring

end

lemma rowDot_eq_sum (n : ℕ) (a b : ℕ → ℕ → W) : rowDot ar n a b =
    ∑ kb ∈ Finset.range n, ∑ k ∈ Finset.range blockK, ar.bf16ToFloat (a kb k) * ar.bf16ToFloat (b kb k) := by
  have hblock : ∀ kb, (List.range blockK).foldl (fun dot k =>
      dot + ar.bf16ToFloat (a kb k) * ar.bf16ToFloat (b kb k)) 0 =
        ∑ k ∈ Finset.range blockK, ar.bf16ToFloat (a kb k) * ar.bf16ToFloat (b kb k) := by
    intro _
    rw [foldl_add (fun x : R => x) (fun _ _ => rfl), zero_add]
  unfold rowDot
  simp only [hblock]
  rw [foldl_add (fun x : R => x) (fun _ _ => rfl), zero_add]

lemma sum_rowDot {tp full shard : ℕ} (hfull : full = tp * shard) (hshard : shard = shard / blockK * blockK)
    (x : ℕ → W) {tile : ℕ → ℕ → W} {shardTile : ℕ → ℕ → ℕ → W}
    (htile : ∀ rank < tp, ∀ kb < shard / blockK, ∀ k < blockK,
      shardTile rank kb k = tile (rank * (shard / blockK) + kb) k) :
    ∑ rank : Fin tp, rowDot ar (shard / blockK) (fun kb k => x (rank * shard + kb * blockK + k)) (shardTile rank) =
      rowDot ar (full / blockK) (fun kb k => x (kb * blockK + k)) tile := by
  have hblocks : full / blockK = tp * (shard / blockK) := by
    rw [hfull, Nat.mul_div_assoc _ ⟨shard / blockK, by rw [Nat.mul_comm]; exact hshard⟩]
  rw [hblocks, rowDot_eq_sum, ← sum_blocks, Finset.sum_range]
  refine Finset.sum_congr rfl fun rank _ => ?_
  rw [rowDot_eq_sum]
  refine Finset.sum_congr rfl fun kb hkb => Finset.sum_congr rfl fun k hk => ?_
  have hplace : (rank : ℕ) * shard + kb * blockK = (rank * (shard / blockK) + kb) * blockK := by
    rw [Nat.add_mul, Nat.mul_assoc, ← hshard]
  rw [htile rank rank.isLt kb (Finset.mem_range.mp hkb) k (Finset.mem_range.mp hk), hplace]

/-! ## The ranks' tiles -/

section

variable (args : MoeArgs R W) (beyond : ℕ → UInt8) (numExperts tp : ℕ) (plan : MoeTPPlan)

/-- Each rank dequantises its K-slice of the tiles of the full weights. -/
structure ShardTiles : Prop where
  gate : ∀ rank < tp, ∀ e < numExperts, ∀ c < args.ispp, ∀ kb < plan.hiddenShard / blockK, ∀ k < blockK,
    gateTile ar (data beyond (w13Shard args numExperts plan rank)) (data beyond (w13sShard args numExperts plan rank))
        plan.hiddenShard args.ispp args.groupSize e (c / blockN) kb k (c % blockN) =
      gateTile ar args.w13 args.w13Scale args.hidden args.ispp args.groupSize e (c / blockN)
        (rank * (plan.hiddenShard / blockK) + kb) k (c % blockN)
  up : ∀ rank < tp, ∀ e < numExperts, ∀ c < args.ispp, ∀ kb < plan.hiddenShard / blockK, ∀ k < blockK,
    upTile ar (data beyond (w13Shard args numExperts plan rank)) (data beyond (w13sShard args numExperts plan rank))
        plan.hiddenShard args.ispp args.groupSize e (c / blockN) kb k (c % blockN) =
      upTile ar args.w13 args.w13Scale args.hidden args.ispp args.groupSize e (c / blockN)
        (rank * (plan.hiddenShard / blockK) + kb) k (c % blockN)
  down : ∀ rank < tp, ∀ e < numExperts, ∀ c < args.hidden, ∀ kb < plan.isppShard / blockK, ∀ k < blockK,
    downTile ar (data beyond (w2Shard args numExperts plan rank)) (data beyond (w2sShard args numExperts plan rank))
        plan.isppShard args.hidden args.groupSize e (c / blockN) kb k (c % blockN) =
      downTile ar args.w2 args.w2Scale args.ispp args.hidden args.groupSize e (c / blockN)
        (rank * (plan.isppShard / blockK) + kb) k (c % blockN)

variable {numExperts tp plan}

/-- **Scale groups of 32** give every rank its tiles. -/
theorem shardTiles_of_group (hplan : PlanOk args.hidden args.ispp tp plan) (hgroup : args.groupSize = kGroupSize) :
    ShardTiles ar args beyond numExperts tp plan := by
  have hrows : numExperts * 2 * args.ispp = numExperts * (2 * args.ispp) := mul_assoc _ _ _
  have hw13 : ∀ rank row kb k, row < numExperts * 2 * args.ispp → kb < plan.hiddenShard / blockK → k < blockK →
      rowWeight ar (data beyond (w13Shard args numExperts plan rank)) (data beyond (w13sShard args numExperts plan rank))
          plan.hiddenShard args.groupSize row kb k =
        rowWeight ar args.w13 args.w13Scale args.hidden args.groupSize row (rank * (plan.hiddenShard / blockK) + kb) k := by
    intro rank row kb k hrow hkb hk
    have h := rowWeight_shard ar args.w13 args.w13Scale beyond tp rank hrow hkb hk
    rw [← hplan.hiddenShard_blocks, ← hplan.hidden_shards] at h
    rw [hgroup]
    exact h
  have hw2 : ∀ rank row kb k, row < numExperts * args.hidden → kb < plan.isppShard / blockK → k < blockK →
      rowWeight ar (data beyond (w2Shard args numExperts plan rank)) (data beyond (w2sShard args numExperts plan rank))
          plan.isppShard args.groupSize row kb k =
        rowWeight ar args.w2 args.w2Scale args.ispp args.groupSize row (rank * (plan.isppShard / blockK) + kb) k := by
    intro rank _ kb k hrow hkb hk
    have h := rowWeight_shard ar args.w2 args.w2Scale beyond tp rank hrow hkb hk
    rw [← hplan.isppShard_blocks, ← hplan.ispp_shards] at h
    rw [hgroup]
    exact h
  refine ⟨fun rank hrank e he c hc kb hkb k hk => ?_, fun rank hrank e he c hc kb hkb k hk => ?_,
    fun rank hrank e he c hc kb hkb k hk => ?_⟩
  · rw [gateTile_row, gateTile_row, block_col]
    exact hw13 rank _ kb k (hrows ▸ block_lt he (by omega)) hkb hk
  · rw [upTile_row, upTile_row, block_col]
    exact hw13 rank _ kb k (hrows ▸ block_lt he (by omega)) hkb hk
  · rw [downTile_row, downTile_row, block_col]
    exact hw2 rank _ kb k (block_lt he hc) hkb hk

lemma shardTiles_of_empty (hplan : PlanOk args.hidden args.ispp tp plan)
    (hempty : numExperts * args.hidden * args.ispp = 0) : ShardTiles ar args beyond numExperts tp plan := by
  have hsizes : ∀ {e : ℕ}, e < numExperts → args.hidden = 0 ∨ args.ispp = 0 := by
    intro e he
    rcases Nat.mul_eq_zero.mp hempty with h | h
    · exact .inl ((Nat.mul_eq_zero.mp h).resolve_left (by omega))
    · exact .inr h
  have hshard : ∀ {full shard kb : ℕ}, full = tp * shard → full = 0 → ¬ kb < shard / blockK := by
    intro _ _ kb hfull hzero hkb
    have := (Nat.mul_eq_zero.mp (hfull.symm.trans hzero)).resolve_left (ne_of_gt hplan.tp_pos)
    rw [this, Nat.zero_div] at hkb
    omega
  refine ⟨fun rank _ e he c hc kb hkb k _ => ?_, fun rank _ e he c hc kb hkb k _ => ?_,
    fun rank _ e he c hc kb hkb k _ => ?_⟩
  · rcases hsizes he with h | h
    · exact absurd hkb (hshard hplan.hidden_shards h)
    · omega
  · rcases hsizes he with h | h
    · exact absurd hkb (hshard hplan.hidden_shards h)
    · omega
  · rcases hsizes he with h | h
    · omega
    · exact absurd hkb (hshard hplan.ispp_shards h)

end

end VKernels.Moe
