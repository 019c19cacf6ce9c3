import VKernels.Moe.TensorParallel

/-!
# The shards of a rank

* `moeTpPlan_ok` — what an accepted plan says of the sizes; `shardRows_ok` — what the row loop leaves.
* `sharded_rowSlices` — for scale groups that fill the shard the slices are shards of the tensor.
* `group_of_sharded` — the scale shards are slices for groups of 32 only.
-/

namespace VKernels.Moe

open Comm (expects expects_of expects_ok)
open Blocks
open List

/-! ## The plan -/

section

variable {hidden ispp tp : ℕ} {plan : MoeTPPlan}

/-- The sizes of an accepted plan. -/
structure PlanOk (hidden ispp tp : ℕ) (plan : MoeTPPlan) : Prop where
  tp_pos : 0 < tp
  tp_eq : plan.tp = tp
  hidden_eq : plan.hidden = hidden
  ispp_eq : plan.ispp = ispp
  hidden_shards : hidden = tp * plan.hiddenShard
  ispp_shards : ispp = tp * plan.isppShard
  hiddenShard_blocks : plan.hiddenShard = plan.hiddenShard / blockK * blockK
  isppShard_blocks : plan.isppShard = plan.isppShard / blockK * blockK
  w13ShardBytes_eq : plan.w13ShardBytes = 2 * ispp * (plan.hiddenShard / 2)
  w13sShardBytes_eq : plan.w13sShardBytes = 2 * ispp * (plan.hiddenShard / kGroupSize)
  w2ShardBytes_eq : plan.w2ShardBytes = hidden * (plan.isppShard / 2)
  w2sShardBytes_eq : plan.w2sShardBytes = hidden * (plan.isppShard / kGroupSize)

section

variable (h : PlanOk hidden ispp tp plan)
include h

lemma PlanOk.hidden_blocks : hidden % blockN = 0 := by
  rw [h.hidden_shards, h.hiddenShard_blocks, ← mul_assoc]
  exact Nat.mul_mod_left _ 64

lemma PlanOk.ispp_blocks : ispp % blockN = 0 := by
  rw [h.ispp_shards, h.isppShard_blocks, ← mul_assoc]
  exact Nat.mul_mod_left _ 64

lemma PlanOk.empty_w13 {numExperts : ℕ}
    (hempty : numExperts * hidden * ispp = 0) : numExperts * 2 * ispp = 0 ∨ plan.hiddenShard = 0 := by
  have htp := h.tp_pos
  have hhidden := h.hidden_shards
  rcases Nat.mul_eq_zero.mp hempty with hzero | hzero
  · rcases Nat.mul_eq_zero.mp hzero with hzero | hzero
    · exact .inl (by simp [hzero])
    · exact .inr ((Nat.mul_eq_zero.mp (hhidden.symm.trans hzero)).resolve_left (by omega))
  · exact .inl (by rw [hzero, Nat.mul_zero])

lemma PlanOk.empty_w2 {numExperts : ℕ}
    (hempty : numExperts * hidden * ispp = 0) : numExperts * hidden = 0 ∨ plan.isppShard = 0 := by
  have htp := h.tp_pos
  have hispp := h.ispp_shards
  rcases Nat.mul_eq_zero.mp hempty with hzero | hzero
  · exact .inl hzero
  · exact .inr ((Nat.mul_eq_zero.mp (hispp.symm.trans hzero)).resolve_left (by omega))

end

lemma moeTpPlan_ok (h : moeTpPlan hidden ispp tp = .ok plan) : PlanOk hidden ispp tp plan := by
  obtain ⟨htp, h⟩ := expects_ok.mp h
  simp only [expects_ok] at h
  obtain ⟨hhidden, hispp, hhiddenShard, hisppShard, _, _, h⟩ := h
  cases h
  exact ⟨htp, rfl, rfl, rfl, (Nat.mul_div_cancel' (Nat.dvd_of_mod_eq_zero hhidden)).symm,
    (Nat.mul_div_cancel' (Nat.dvd_of_mod_eq_zero hispp)).symm,
    (Nat.div_mul_cancel (Nat.dvd_of_mod_eq_zero hhiddenShard)).symm,
    (Nat.div_mul_cancel (Nat.dvd_of_mod_eq_zero hisppShard)).symm, rfl, rfl, rfl, rfl⟩

end

/-! ## The row loop -/

/-- Of every row of a tensor, `len` bytes from `off` on. -/
def rowSlices (full : ℕ → UInt8) (rows rowBytes off len : ℕ) : List UInt8 :=
  (List.range rows).flatMap fun r => (List.range len).map fun j => full (r * rowBytes + off + j)

section

variable (full fullScale : ℕ → UInt8) {rows rowBytes off len : ℕ}

lemma rowSlices_length : (rowSlices full rows rowBytes off len).length = rows * len :=
  length_flatMap_range fun r _ => by rw [length_map, length_range]

lemma rowSlices_succ : rowSlices full (rows + 1) rowBytes off len = rowSlices full rows rowBytes off len ++
      (range len).map fun j => full (rows * rowBytes + off + j) := by
  unfold rowSlices
  rw [range_succ, flatMap_append, flatMap_singleton]

lemma getElem?_rowSlices {r j : ℕ} (hr : r < rows) (hj : j < len) :
    (rowSlices full rows rowBytes off len)[r * len + j]? = some (full (r * rowBytes + off + j)) := by
  unfold rowSlices
  rw [getElem?_flatMap_range (fun r _ => by rw [length_map, length_range]) hr hj, getElem?_map,
    getElem?_range hj]
  rfl

lemma memcpy_row {shard : List UInt8} {n : ℕ} (hlen : shard.length = rows * len) (hn : n < rows) :
    memcpy (rowSlices full n rowBytes off len ++ shard.drop (n * len)) (n * len) full (n * rowBytes + off) len =
      .ok (rowSlices full (n + 1) rowBytes off len ++ shard.drop ((n + 1) * len)) := by
  have hpre : (rowSlices full n rowBytes off len).length = n * len := rowSlices_length full
  have hroom : (n + 1) * len ≤ rows * len := Nat.mul_le_mul_right len hn
  rw [add_one_mul] at hroom ⊢
  unfold memcpy
  rw [if_pos (by rw [length_append, length_drop, hpre]; omega), rowSlices_succ]
  congr 1
  unfold overwrite
  rw [take_left' hpre, length_map, length_range, drop_append, hpre,
    drop_eq_nil_of_le (by omega), nil_append, drop_drop, Nat.add_sub_cancel_left]

variable {rowPacked rowScale shardPacked shardScale rank : ℕ}

lemma shardRows_ok {shards : List UInt8 × List UInt8} (hpacked : shards.1.length = rows * shardPacked)
    (hscale : shards.2.length = rows * shardScale) :
    shardRows full fullScale rows rowPacked rowScale shardPacked shardScale rank shards =
      .ok (rowSlices full rows rowPacked (rank * shardPacked) shardPacked,
        rowSlices fullScale rows rowScale (rank * shardScale) shardScale) := by
  have hloop : ∀ n ≤ rows,
      shardRows full fullScale n rowPacked rowScale shardPacked shardScale rank shards =
        .ok (rowSlices full n rowPacked (rank * shardPacked) shardPacked ++ shards.1.drop (n * shardPacked),
          rowSlices fullScale n rowScale (rank * shardScale) shardScale ++ shards.2.drop (n * shardScale)) := by
    intro n hn
    induction n with
    | zero =>
      rw [Nat.zero_mul, Nat.zero_mul]
      rfl
    | succ n ih =>
      have hprev := ih (by omega)
      unfold shardRows at hprev ⊢
      rw [range_succ, foldlM_append, hprev, ok_bind, foldlM_cons]
      rw [memcpy_row full hpacked (by omega), ok_bind, memcpy_row fullScale hscale (by omega), ok_bind]
      rfl
  rw [hloop rows le_rfl, ← hpacked, ← hscale, drop_length, drop_length, append_nil,
    append_nil]

end

/-! ## Slices are shards -/

section

variable (full : ℕ → UInt8) {per rows shardCols tp rank : ℕ}

lemma shardOf_rowSlices (hper : 0 < per) (hdvd : per ∣ shardCols) (hrank : rank < tp) :
    ShardOf full per rows (tp * shardCols) shardCols rank
      (rowSlices full rows (tp * shardCols / per) (rank * (shardCols / per)) (shardCols / per)) := by
  obtain ⟨q, rfl⟩ := hdvd
  have hq : per * q / per = q := Nat.mul_div_cancel_left q hper
  have hcols : tp * (per * q) / per = tp * q := by
    rw [Nat.mul_left_comm, Nat.mul_div_cancel_left _ hper]
  refine ⟨by rw [hq]; exact rowSlices_length full, fun row hrow k hk => ?_⟩
  have hbyte : (rank * (per * q) + k) / per = rank * q + k / per := by
    rw [Nat.mul_left_comm, Nat.mul_add_div hper]
  have hlt : k / per < q := Nat.div_lt_of_lt_mul hk
  have hroom := Blocks.block_le hrank q
  rw [hq, hcols, hbyte]
  refine ⟨hlt, by omega, ?_⟩
  rw [getElem?_rowSlices full hrow hlt, Nat.add_assoc]

lemma block_rowSlices {rowBytes off len row : ℕ} (hrow : row < rows) :
    block len (rowSlices full rows rowBytes off len) row =
      (range len).map fun j => full (row * rowBytes + off + j) := by
  refine ext_getElem? fun j => ?_
  rw [getElem?_block]
  by_cases hj : j < len
  · rw [if_pos hj, getElem?_rowSlices full hrow hj, getElem?_map, getElem?_range hj]
    rfl
  · rw [if_neg hj, getElem?_eq_none (by rw [length_map, length_range]; omega)]

lemma concatenates_rowSlices (hper : 0 < per) (hdvd : per ∣ shardCols) :
    Concatenates full per rows (tp * shardCols) shardCols tp fun rank =>
      rowSlices full rows (tp * shardCols / per) (rank * (shardCols / per)) (shardCols / per) := by
  obtain ⟨q, rfl⟩ := hdvd
  have hcols : tp * (per * q) / per = tp * q := by
    rw [Nat.mul_left_comm, Nat.mul_div_cancel_left _ hper]
  intro row hrow
  simp only [hcols, Nat.mul_div_cancel_left q hper, block_rowSlices full hrow, Nat.add_assoc]
  exact map_blocks tp q fun j => full _

lemma sharded_rowSlices (hper : 0 < per) (hdvd : per ∣ shardCols) :
    Sharded full per rows (tp * shardCols) shardCols tp fun rank =>
      rowSlices full rows (tp * shardCols / per) (rank * (shardCols / per)) (shardCols / per) :=
  ⟨fun _ hrank => shardOf_rowSlices full hper hdvd hrank, concatenates_rowSlices full hper hdvd⟩

/-- A tensor without elements, whatever the scale groups are. -/
lemma sharded_empty {len rowBytes : ℕ} {off : ℕ → ℕ} (hempty : rows = 0 ∨ shardCols = 0)
    (hlen : shardCols = 0 → len = 0) :
    Sharded full per rows (tp * shardCols) shardCols tp fun rank => rowSlices full rows rowBytes (off rank) len := by
  rcases hempty with rfl | rfl
  · exact ⟨fun rank _ => ⟨by rw [Nat.zero_mul]; rfl, fun row hrow => absurd hrow (Nat.not_lt_zero row)⟩,
      fun row hrow => absurd hrow (Nat.not_lt_zero row)⟩
  · obtain rfl := hlen rfl
    refine ⟨fun rank _ => ⟨?_, fun row _ k hk => absurd hk (Nat.not_lt_zero k)⟩, fun row hrow => ?_⟩
    · rw [rowSlices_length, Nat.zero_div]
    · simp [Nat.zero_div, block]

lemma group_of_sharded {shards : ℕ → List UInt8} {cols : ℕ} (htp : 0 < tp) (hrows : 0 < rows)
    (hcols : 0 < shardCols) (hblocks : kGroupSize ∣ shardCols) (hper : 0 < per)
    (h : Sharded full per rows cols shardCols tp shards)
    (hlen : (shards 0).length = rows * (shardCols / kGroupSize)) : per = kGroupSize := by
  obtain ⟨hlen', hall⟩ := h.1 0 htp
  have hsame : shardCols / kGroupSize = shardCols / per :=
    Nat.eq_of_mul_eq_mul_left hrows (hlen.symm.trans hlen')
  obtain ⟨hlast, -⟩ := hall 0 hrows (shardCols - 1) (by omega)
  -- the last column is in a whole group
  have hfill : per * (shardCols / per) = shardCols := by
    by_contra hne
    have hmod := Nat.div_add_mod shardCols per
    have hle : shardCols / per ≤ (shardCols - 1) / per := by
      rw [Nat.le_div_iff_mul_le hper, Nat.mul_comm]
      omega
    omega
  have hfill' : kGroupSize * (shardCols / kGroupSize) = shardCols := Nat.mul_div_cancel' hblocks
  rw [hsame] at hfill'
  have hpos : 0 < shardCols / per := by
    rcases eq_zero_or_pos (shardCols / per) with hzero | hpos
    · rw [hzero, Nat.mul_zero] at hfill
      omega
    · exact hpos
  exact Nat.eq_of_mul_eq_mul_right hpos (hfill.trans hfill'.symm)

end

/-! ## The four shards -/

section

variable {R W : Type} (args : MoeArgs R W) (numExperts : ℕ) {tp rank : ℕ} {plan : MoeTPPlan}

/-- The rows of the packed weights of all experts, and the columns of a rank. -/
def w13Shard (plan : MoeTPPlan) (rank : ℕ) : List UInt8 :=
  rowSlices args.w13 (numExperts * 2 * args.ispp) (args.hidden / 2) (rank * (plan.hiddenShard / 2))
    (plan.hiddenShard / 2)

def w13sShard (plan : MoeTPPlan) (rank : ℕ) : List UInt8 :=
  rowSlices args.w13Scale (numExperts * 2 * args.ispp) (args.hidden / kGroupSize)
    (rank * (plan.hiddenShard / kGroupSize)) (plan.hiddenShard / kGroupSize)

def w2Shard (plan : MoeTPPlan) (rank : ℕ) : List UInt8 :=
  rowSlices args.w2 (numExperts * args.hidden) (args.ispp / 2) (rank * (plan.isppShard / 2))
    (plan.isppShard / 2)

def w2sShard (plan : MoeTPPlan) (rank : ℕ) : List UInt8 :=
  rowSlices args.w2Scale (numExperts * args.hidden) (args.ispp / kGroupSize)
    (rank * (plan.isppShard / kGroupSize)) (plan.isppShard / kGroupSize)

/-- **The shards of a rank** are slices of all rows. -/
theorem rankShards_ok (hplan : PlanOk args.hidden args.ispp tp plan) (hrank : rank < tp) :
    rankShards args numExperts plan rank =
      .ok ((w13Shard args numExperts plan rank, w13sShard args numExperts plan rank),
        (w2Shard args numExperts plan rank, w2sShard args numExperts plan rank)) := by
  have hrange : rank ≥ 0 ∧ rank < plan.tp := ⟨Nat.zero_le _, hplan.tp_eq.symm ▸ hrank⟩
  have hrows13 : ∀ len, 2 * args.ispp * len * numExperts = numExperts * 2 * args.ispp * len := by
    intro len
    ring
  have hrows2 : ∀ len, args.hidden * len * numExperts = numExperts * args.hidden * len := by
    intro _
    ring
  unfold rankShards moeTpShardW13 moeTpShardW2
  rw [expects_of hrange, ok_bind, hplan.ispp_eq, hplan.hidden_eq,
    shardRows_ok _ _ (by rw [length_replicate, hplan.w13ShardBytes_eq, hrows13])
      (by rw [length_replicate, hplan.w13sShardBytes_eq, hrows13]), ok_bind, ok_bind,
    shardRows_ok _ _ (by rw [length_replicate, hplan.w2ShardBytes_eq, hrows2])
      (by rw [length_replicate, hplan.w2sShardBytes_eq, hrows2]), ok_bind]
  rfl

end

end VKernels.Moe
