import VKernels.Moe.TensorParallelTiles

/-!
# Tensor parallelism is exact for scale groups of 32

* `tp_outputs` — every rank ends with the oracle's output.
-/

namespace VKernels.Moe

open Comm (expects expects_of expects_ok)
open Comm.Allreduce (RankM Ring ringAllreduceRank lift_ok_bind allreduce_run inp_injective)
open Interleaving FifoProcesses Blocks TileLoops

/-! ## Buffers in one vector -/

section

variable {R : Type} {rows cols r c : ℕ}

lemma flat_length (buf : ℕ → ℕ → R) : (flat buf rows cols).length = rows * cols := by
  unfold flat
  rw [List.length_map, List.length_range]

lemma getElem?_flat (buf : ℕ → ℕ → R) (hr : r < rows) (hc : c < cols) :
    (flat buf rows cols)[r * cols + c]? = some (buf r c) := by
  unfold flat
  rw [List.getElem?_map, List.getElem?_range (block_lt hr hc), Option.map_some]
  rw [block_div _ hc, block_mod _ hc]

lemma GateUp.flat_length (g : GateUp R) : (g.flat rows cols).length = rows * (2 * cols) := Moe.flat_length _

lemma GateUp.getElem?_gate (g : GateUp R) (hr : r < rows) (hc : c < cols) :
    (g.flat rows cols)[r * (2 * cols) + c]? = some (g.gate r c) := by
  unfold GateUp.flat
  rw [getElem?_flat _ hr (by omega), if_pos hc]

lemma GateUp.getElem?_up (g : GateUp R) (hr : r < rows) (hc : c < cols) :
    (g.flat rows cols)[r * (2 * cols) + (cols + c)]? = some (g.up r c) := by
  unfold GateUp.flat
  rw [getElem?_flat _ hr (by omega), if_neg (by omega), Nat.add_sub_cancel_left]

lemma ofFlat_eq [Zero R] {l : List R} {v : R} (h : l[r * cols + c]? = some v) : ofFlat l cols r c = v := by
  unfold ofFlat
  rw [List.getD_eq_getElem?_getD, h]
  rfl

end

variable {R W : Type} [Field R] [LinearOrder R] [Zero W] (ar : Arith R W) (args : MoeArgs R W)
    (beyond : ℕ → UInt8)

/-! ## The ranks' programs -/

section

variable (topkW : ℕ → R) (M topK : ℕ) {numExperts tp em : ℕ} {plan : MoeTPPlan} {sortedIds : ℕ → ℕ}
    {expertIds : List ℤ}

/-- Whole blocks of 16 rows, each with an expert or none. -/
structure Served (numExperts em : ℕ) (expertIds : List ℤ) : Prop where
  whole : em % blockM = 0
  fits : em / blockM ≤ expertIds.length
  experts : ∀ r e, rowExpert em expertIds r = some e → e < numExperts

lemma rowExpert_row_lt {r e : ℕ} (hr : rowExpert em expertIds r = some e) :
    r < em := by
  unfold rowExpert at hr
  split at hr
  · rename_i hlt
    have hmod : r % blockM < blockM := Nat.mod_lt r (show 0 < 16 by decide)
    have hrow := block_row r
    have hem : em / blockM * blockM ≤ em := Nat.div_mul_le_self em blockM
    have hnext := Blocks.block_le hlt blockM
    omega
  · cases hr

/-- A column of a rank's row is in a whole block. -/
lemma div_block_lt {c full : ℕ} (hfull : full % blockN = 0) (hc : c < full) : c / blockN < full / blockN := by
  apply Nat.div_lt_of_lt_mul
  rw [Nat.mul_comm, Nat.div_mul_cancel (Nat.dvd_of_mod_eq_zero hfull)]
  exact hc

lemma lt_of_div_block_lt {c full : ℕ} (hc : c / blockN < full / blockN) : c < full := by
  have hmod : c % blockN < blockN := Nat.mod_lt c (show 0 < 64 by decide)
  have hcol := block_col c
  have hfull := Nat.div_mul_le_self full blockN
  have hnext := Blocks.block_le hc blockN
  omega

/-- A rank from the second all-reduce on. -/
def afterDown (em : ℕ) (sortedIds : ℕ → ℕ) (expertIds : List ℤ) (partialOut : List R) : RankM R (List R) := do
  let out ← moeCombineCpu (ofFlat partialOut args.hidden) args.b2
    (fun i => if sortedIds i < M * topK then topkW (sortedIds i) else 0) sortedIds expertIds (fun _ _ => 0) M
    args.hidden topK em
  return flat out M args.hidden

/-- A rank from the first all-reduce on. -/
def afterGateUp (w2Shard w2sShard : ℕ → UInt8) (plan : MoeTPPlan) (rank em : ℕ) (sortedIds : ℕ → ℕ)
    (expertIds : List ℤ) (gateUp : List R) : RankM R (List R) := do
  let act ← moeActEpilogueCpu ar (GateUp.ofFlat gateUp args.ispp) args.b13 (fun _ _ => 0) sortedIds expertIds
    M topK em args.ispp args.swigluLimit args.activation args.beta args.linearBeta
  let partialOut ← moeDownCpu ar act w2Shard w2sShard sortedIds expertIds (fun _ _ => 0) M
    (rank * plan.isppShard) plan.isppShard args.hidden topK em args.groupSize
  let partialOut ← ringAllreduceRank (flat partialOut em args.hidden) rank plan.tp
  afterDown args topkW M topK em sortedIds expertIds partialOut

lemma tpRank_eq (hplan : moeTpPlan args.hidden args.ispp tp = .ok plan) (hem : em % blockM = 0) {rank : ℕ}
    (hrank : rank < tp) {w13 w13s w2 w2s : ℕ → UInt8} {gateUp : GateUp R}
    (hgateUp : moeGateupCpu ar args.A w13 w13s sortedIds expertIds ⟨fun _ _ => 0, fun _ _ => 0⟩ M args.hidden
      (rank * plan.hiddenShard) plan.hiddenShard args.ispp topK em args.groupSize = .ok gateUp) :
    fusedMoeMxfp4TpRank ar args w13 w13s w2 w2s topkW M topK 16 tp rank em sortedIds expertIds =
      (ringAllreduceRank (gateUp.flat em args.ispp) rank tp >>=
        afterGateUp ar args topkW M topK w2 w2s plan rank em sortedIds expertIds : RankM R (List R)) := by
  have htp := (moeTpPlan_ok hplan).tp_eq
  unfold fusedMoeMxfp4TpRank afterGateUp
  rw [expects_of ⟨Nat.zero_le _, hrank⟩, lift_ok_bind, expects_of (show em % 16 = 0 from hem), lift_ok_bind,
    expects_of rfl, lift_ok_bind, hplan, lift_ok_bind, htp]
  dsimp only
  rw [hgateUp, lift_ok_bind]
  rfl

omit [LinearOrder R] [Zero W] in
lemma gateUp_sums (hok : PlanOk args.hidden args.ispp tp plan)
    (htiles : ShardTiles ar args beyond numExperts tp plan) (hserved : Served numExperts em expertIds)
    {gateUp : Fin tp → GateUp R}
    (hgateUp : ∀ rank : Fin tp, ∀ r e c, rowExpert em expertIds r = some e → sortedIds r < M * topK →
      c / blockN < args.ispp / blockN → (gateUp rank).gate r c = rowDot ar (plan.hiddenShard / blockK)
          (fun kb k => args.A (sortedIds r / topK * args.hidden + rank * plan.hiddenShard + kb * blockK + k))
          (fun kb k => gateTile ar (data beyond (w13Shard args numExperts plan rank))
            (data beyond (w13sShard args numExperts plan rank)) plan.hiddenShard args.ispp args.groupSize e
            (c / blockN) kb k (c % blockN)) ∧ (gateUp rank).up r c = rowDot ar (plan.hiddenShard / blockK)
          (fun kb k => args.A (sortedIds r / topK * args.hidden + rank * plan.hiddenShard + kb * blockK + k))
          (fun kb k => upTile ar (data beyond (w13Shard args numExperts plan rank))
            (data beyond (w13sShard args numExperts plan rank)) plan.hiddenShard args.ispp args.groupSize e
            (c / blockN) kb k (c % blockN))) {sums : List R}
    (hsums : ∀ (j : ℕ) (v : Fin tp → R), (∀ rank, ((gateUp rank).flat em args.ispp)[j]? = some (v rank)) →
      sums[j]? = some (∑ rank, v rank)) {r e c : ℕ} (hr : rowExpert em expertIds r = some e)
    (hflat : sortedIds r < M * topK) (hc : c < args.ispp) :
    (GateUp.ofFlat sums args.ispp).gate r c = rowGate ar args topK e (sortedIds r) c ∧
      (GateUp.ofFlat sums args.ispp).up r c = rowUp ar args topK e (sortedIds r) c := by
  have hrow := rowExpert_row_lt hr
  have he := hserved.experts r e hr
  have hcol := div_block_lt (hok.ispp_blocks) hc
  let x : ℕ → W := fun j => args.A (sortedIds r / topK * args.hidden + j)
  have hx : ∀ rank kb k : ℕ, args.A (sortedIds r / topK * args.hidden + rank * plan.hiddenShard + kb * blockK + k) =
      x (rank * plan.hiddenShard + kb * blockK + k) := by
    intro rank kb k
    simp [x, add_assoc]
  have hrowA : rowA args topK (sortedIds r) = fun kb k => x (kb * blockK + k) := by
    funext kb k
    simp [x, rowA, add_zero, add_assoc]
  constructor
  · refine ofFlat_eq ((hsums _ _ fun rank => (gateUp rank).getElem?_gate hrow hc).trans (congrArg some ?_))
    unfold rowGate
    rw [hrowA, ← sum_rowDot ar hok.hidden_shards hok.hiddenShard_blocks x
      fun rank hrank kb hkb k hk => htiles.gate rank hrank e he c hc kb hkb k hk]
    refine Finset.sum_congr rfl fun rank _ => ?_
    rw [(hgateUp rank r e c hr hflat hcol).1]
    simp [hx]
  · refine ofFlat_eq ((hsums _ _ fun rank => (gateUp rank).getElem?_up hrow hc).trans (congrArg some ?_))
    unfold rowUp
    rw [hrowA, ← sum_rowDot ar hok.hidden_shards hok.hiddenShard_blocks x
      fun rank hrank kb hkb k hk => htiles.up rank hrank e he c hc kb hkb k hk]
    refine Finset.sum_congr rfl fun rank _ => ?_
    rw [(hgateUp rank r e c hr hflat hcol).2]
    simp [hx]

omit [Zero W] in
lemma down_sums (hok : PlanOk args.hidden args.ispp tp plan)
    (htiles : ShardTiles ar args beyond numExperts tp plan) (hserved : Served numExperts em expertIds)
    {act : ℕ → ℕ → W} (hact : ∀ r e c, rowExpert em expertIds r = some e → sortedIds r < M * topK → c < args.ispp →
      act r c = rowAct ar args topK e (sortedIds r) c) {partialOut : Fin tp → ℕ → ℕ → R}
    (hdown : ∀ rank : Fin tp, ∀ r e c, rowExpert em expertIds r = some e → sortedIds r < M * topK →
      c / blockN < args.hidden / blockN → partialOut rank r c = rowDot ar (plan.isppShard / blockK)
          (fun kb k => act r (rank * plan.isppShard + kb * blockK + k))
          (fun kb k => downTile ar (data beyond (w2Shard args numExperts plan rank))
            (data beyond (w2sShard args numExperts plan rank)) plan.isppShard args.hidden args.groupSize e
            (c / blockN) kb k (c % blockN))) {sums : List R}
    (hsums : ∀ (j : ℕ) (v : Fin tp → R), (∀ rank, (flat (partialOut rank) em args.hidden)[j]? = some (v rank)) →
      sums[j]? = some (∑ rank, v rank)) {r e c : ℕ} (hr : rowExpert em expertIds r = some e)
    (hflat : sortedIds r < M * topK) (hc : c < args.hidden) :
    addBias args.b2 (e * args.hidden + c) (ofFlat sums args.hidden r c) = rowOut ar args topK e (sortedIds r) c := by
  have hrow := rowExpert_row_lt hr
  have he := hserved.experts r e hr
  have hcol := div_block_lt hok.hidden_blocks hc
  have hread : ∀ kb < args.ispp / blockK, ∀ k < blockK, act r (kb * blockK + k) =
      rowAct ar args topK e (sortedIds r) (kb * blockK + k) := by
    intro kb hkb k hk
    refine hact r e _ hr hflat (lt_of_lt_of_le ?_ (Nat.div_mul_le_self args.ispp blockK))
    exact block_lt hkb hk
  congr 1
  refine ofFlat_eq ((hsums _ _ fun rank => getElem?_flat _ hrow hc).trans (congrArg some ?_))
  rw [← rowDot_congr ar hread, ← sum_rowDot ar hok.ispp_shards hok.isppShard_blocks (act r)
    fun rank hrank kb hkb k hk => htiles.down rank hrank e he c hc kb hkb k hk]
  exact Finset.sum_congr rfl fun rank _ => hdown rank r e c hr hflat hcol

/-- The ranks with their shards, before the first channel operation. -/
def tpNet (numExperts : ℕ) (plan : MoeTPPlan) (em : ℕ) (sortedIds : ℕ → ℕ) (expertIds : List ℤ) : Ring tp R where
  procs r := fusedMoeMxfp4TpRank ar args
    (data beyond (w13Shard args numExperts plan r)) (data beyond (w13sShard args numExperts plan r))
    (data beyond (w2Shard args numExperts plan r)) (data beyond (w2sShard args numExperts plan r))
    topkW M topK 16 tp r em sortedIds expertIds
  channels _ := []

variable (sortedIds) in
/-- **The ranks in lockstep**: every rank ends with the same output, in which every served row adds what its
token gets from the expert of its block. -/
theorem tpRank_run (hplan : moeTpPlan args.hidden args.ispp tp = .ok plan)
    (htiles : ShardTiles ar args beyond numExperts tp plan) (hserved : Served numExperts em expertIds) :
    ∃ out : ℕ → ℕ → R,
      (∀ t c, out t c = ∑ r ∈ Finset.range (em / blockM * blockM), (rowExpert em expertIds r).elim 0 fun e =>
        if c / blockN < args.hidden / blockN ∧ sortedIds r < M * topK ∧ sortedIds r / topK = t then
          rowOut ar args topK e (sortedIds r) c * (if sortedIds r < M * topK then topkW (sortedIds r) else 0) else 0) ∧
      ∃ σ, run Ring.step σ (tpNet ar args beyond topkW M topK numExperts plan em sortedIds expertIds : Ring tp R) =
        some ⟨fun _ => .ret (.ok (flat out M args.hidden)), fun _ => []⟩ := by
  have hok := moeTpPlan_ok hplan
  have hgateUp : ∀ rank : Fin tp, _ := fun rank => moeGateupCpu_ok ar sortedIds M topK hserved.fits args.A
    (data beyond (w13Shard args numExperts plan rank)) (data beyond (w13sShard args numExperts plan rank))
    ⟨fun _ _ => 0, fun _ _ => 0⟩ args.hidden (rank * plan.hiddenShard) plan.hiddenShard args.ispp args.groupSize
  choose gateUp hgateUp hrows using hgateUp
  -- the first all-reduce
  have hlen : ∀ rank, ((gateUp rank).flat em args.ispp).length = tp * (em * (2 * plan.isppShard)) := by
    intro rank
    rw [GateUp.flat_length, hok.ispp_shards]
    ring
  obtain ⟨sums, -, hsums, σ₁, hσ₁⟩ := allreduce_run hok.tp_pos _ hlen
    fun rank => afterGateUp ar args topkW M topK _
      (data beyond _) plan rank em sortedIds expertIds
  obtain ⟨act, hact, hactRows⟩ := moeActEpilogueCpu_ok ar sortedIds M topK hserved.fits
    (GateUp.ofFlat sums args.ispp) args.b13 (fun _ _ => 0) args.ispp args.swigluLimit args.activation args.beta
    args.linearBeta
  have hdown : ∀ rank : Fin tp, _ := fun rank => moeDownCpu_ok ar sortedIds M topK hserved.fits act
    (data beyond (w2Shard args numExperts plan rank)) (data beyond (w2sShard args numExperts plan rank))
    (fun _ _ => 0) (rank * plan.isppShard) plan.isppShard args.hidden args.groupSize
  choose partialOut hdown hpartialRows using hdown
  -- the second all-reduce
  have hlen : ∀ rank, (flat (partialOut rank) em args.hidden).length = tp * (em * plan.hiddenShard) := by
    intro rank
    rw [flat_length]
    nth_rewrite 1 [hok.hidden_shards]
    ring
  obtain ⟨total, -, htotal, σ₂, hσ₂⟩ := allreduce_run hok.tp_pos _ hlen
    fun _ => afterDown args topkW M topK em sortedIds expertIds
  obtain ⟨out, hout, houtRows⟩ := moeCombineCpu_ok sortedIds M topK hserved.fits _ args.b2
    (fun i => if sortedIds i < M * topK then topkW _ else 0) (fun _ _ => 0) args.hidden
  have hstart : ∀ rank : Fin tp, (fusedMoeMxfp4TpRank ar args (data beyond (w13Shard args numExperts plan rank))
      (data beyond (w13sShard args numExperts plan rank)) (data beyond (w2Shard args numExperts plan rank))
      (data beyond (w2sShard args numExperts plan rank)) topkW M topK 16 tp rank em sortedIds expertIds : RankM R (List R)) =
        ringAllreduceRank _ rank tp >>=
          afterGateUp ar args topkW M topK _
            (data beyond _) plan rank em sortedIds expertIds :=
    fun rank => tpRank_eq ar args topkW M topK hplan hserved.whole rank.isLt (hgateUp rank)
  have hmid : ∀ rank : Fin tp, (afterGateUp ar args topkW M topK (data beyond (w2Shard args numExperts plan rank))
      (data beyond (w2sShard args numExperts plan rank)) plan rank em sortedIds expertIds sums : RankM R (List R)) =
        ringAllreduceRank (flat (partialOut rank) em args.hidden) rank tp >>=
          afterDown args topkW M topK em sortedIds expertIds := by
    intro rank
    unfold afterGateUp
    rw [hact, lift_ok_bind, hdown, lift_ok_bind, hok.tp_eq]
  have hend : (afterDown args topkW M topK em sortedIds expertIds total : RankM R (List R)) =
      .ret (.ok (flat out M args.hidden)) := by
    unfold afterDown
    rw [hout, lift_ok_bind]
    rfl
  refine ⟨out, fun t c => ?_, σ₁ ++ σ₂, Interleaving.run_append.mpr ⟨⟨fun rank : Fin tp => (afterGateUp ar args topkW M topK
    (data beyond (w2Shard args numExperts plan rank)) (data beyond (w2sShard args numExperts plan rank)) plan rank em
    sortedIds expertIds sums : RankM R _), fun _ => []⟩, ?_, ?_⟩⟩
  · rw [houtRows, zero_add]
    refine Finset.sum_congr rfl fun r _ => ?_
    cases hr : rowExpert em expertIds r with
    | none => rfl
    | some e =>
      simp only [Option.elim_some, combined]
      by_cases hcol : c / blockN < args.hidden / blockN
      · by_cases hin : sortedIds r < M * topK ∧ sortedIds r / topK = t
        · rw [if_pos hcol, if_pos hin, if_pos (And.intro hcol hin),
            down_sums ar args beyond M topK hok htiles hserved (fun r e c hr hflat hc => ?_) hpartialRows htotal hr
              hin.1 (lt_of_div_block_lt hcol)]
          obtain ⟨hgate, hup⟩ := gateUp_sums ar args beyond M topK hok htiles hserved hrows hsums hr hflat hc
          rw [hactRows r e c hr hflat (div_block_lt hok.ispp_blocks hc), hgate, hup]
          rfl
        · rw [if_pos hcol, if_neg hin, if_neg fun h => hin h.2]
      · rw [if_neg hcol, if_neg fun h => hcol h.1]
  · rw [← hσ₁]
    unfold tpNet
    rw [funext hstart]
  · rw [funext hmid, hσ₂, hend]

end

/-! ## All ranks -/

section

variable (ids : ℕ → ℤ) (topkW : ℕ → R) (M topK : ℕ) {numExperts tp : ℕ} {plan : MoeTPPlan}

lemma served_sixteen : Served numExperts (paddedIds ids M topK 16 numExperts).length
    (blockExperts ids M topK 16 numExperts) where
  whole := by
    rw [paddedIds_length ids M topK numExperts (show 0 < 16 by decide)]
    exact Nat.mul_mod_left _ 16
  fits := (linedUp_sixteen ids M topK numExperts).1
  experts := by
    intro r e hr
    unfold rowExpert blockExpert at hr
    split at hr
    · obtain ⟨x, hx, he⟩ := Option.bind_eq_some_iff.mp hr
      obtain ⟨i, _, _, hlo, hhi⟩ := mem_blockExperts ids M topK numExperts (show 0 < 16 by decide)
        (List.mem_of_getElem? hx)
      rw [if_neg (not_lt.mpr hlo)] at he
      obtain rfl := Option.some.inj he
      omega
    · cases hr

section

variable (hplan : moeTpPlan args.hidden args.ispp tp = .ok plan)
include hplan

lemma fusedMoeMxfp4Tp_eq : fusedMoeMxfp4Tp ar args beyond ids topkW M topK numExperts 16 tp =
      .ok (tpNet ar args beyond topkW M topK numExperts plan (paddedIds ids M topK 16 numExperts).length
        (fun i => (paddedIds ids M topK 16 numExperts).getD i 0) (blockExperts ids M topK 16 numExperts)) := by
  have hok := moeTpPlan_ok hplan
  unfold fusedMoeMxfp4Tp
  rw [expects_of hok.tp_pos, ok_bind, expects_of rfl, ok_bind, hplan, ok_bind,
    (alignTp_eq ids M topK numExperts (show 0 < 16 by decide)).1, ok_bind]
  dsimp only
  congr 2
  funext r
  rw [rankShards_ok args numExperts hok r.isLt, lift_ok_bind]

lemma tp_outputs (htiles : ShardTiles ar args beyond numExperts tp plan) :
    ∃ ring out, fusedMoeMxfp4Tp ar args beyond ids topkW M topK numExperts 16 tp = .ok ring ∧
      runOracle ar args ids topkW M topK numExperts 16 = .ok out ∧
      Net.Yields (fun r => (Comm.Allreduce.makeRingChannels r).inp) ring (.ok (flat out M args.hidden)) := by
  have hserved : Served numExperts (paddedIds ids M topK 16 numExperts).length
      (blockExperts ids M topK 16 numExperts) := served_sixteen ids M topK
  obtain ⟨out, hrows, σ, hσ⟩ := tpRank_run ar args beyond topkW M topK
    (fun i => (paddedIds ids M topK 16 numExperts).getD i 0) hplan htiles hserved
  obtain ⟨_, out', hout', hrows'⟩ := fusedMoeMxfp4Cpu_ok ar
    (fun i => (paddedIds ids M topK 16 numExperts).getD i 0) M topK args hserved.fits
    (fun i => if (paddedIds ids M topK 16 numExperts).getD i 0 < M * topK then
      topkW _ else 0) (fun _ _ => 0) (fun _ _ => 0)
  have hsame : out = out' := by
    funext t c
    rw [hrows, hrows', zero_add]
  refine ⟨_, out', fusedMoeMxfp4Tp_eq ar args beyond ids topkW M topK hplan, ?_, hsame ▸ Net.yields_of_run inp_injective hσ⟩
  unfold runOracle
  rw [(alignTp_eq ids M topK numExperts (show 0 < 16 by decide)).1, ok_bind]
  unfold fusedOnLayout
  dsimp only
  rw [hout']
  rfl

omit [Field R] [LinearOrder R] [Zero W] in
lemma tp_shards (h : args.groupSize = kGroupSize ∨ numExperts * args.hidden * args.ispp = 0) :
    ∃ plan w13 w13s w2 w2s, moeTpPlan args.hidden args.ispp tp = .ok plan ∧
      (∀ rank < tp, rankShards args numExperts plan rank = .ok ((w13 rank, w13s rank), (w2 rank, w2s rank))) ∧
      Sharded args.w13 2 (numExperts * 2 * args.ispp) args.hidden plan.hiddenShard tp w13 ∧
      Sharded args.w13Scale args.groupSize (numExperts * 2 * args.ispp) args.hidden plan.hiddenShard tp w13s ∧
      Sharded args.w2 2 (numExperts * args.hidden) args.ispp plan.isppShard tp w2 ∧
      Sharded args.w2Scale args.groupSize (numExperts * args.hidden) args.ispp plan.isppShard tp w2s := by
  have hok := moeTpPlan_ok hplan
  have h64 : ∀ {shard : ℕ}, shard = shard / blockK * blockK → 64 ∣ shard :=
    fun {shard} hshard => ⟨shard / blockK, by rw [mul_comm]; exact hshard⟩
  have hhidden := h64 hok.hiddenShard_blocks
  have hispp := h64 hok.isppShard_blocks
  have h2 : 2 ∣ 64 := ⟨32, rfl⟩
  have h32 : kGroupSize ∣ 64 := ⟨2, rfl⟩
  refine ⟨plan, w13Shard args numExperts plan, w13sShard args numExperts plan, w2Shard args numExperts plan,
    w2sShard args numExperts plan, hplan, fun rank hrank => rankShards_ok args numExperts hok hrank, ?_, ?_, ?_, ?_⟩
  · have hw13 : Sharded args.w13 2 (numExperts * 2 * args.ispp) (tp * plan.hiddenShard) plan.hiddenShard tp _ :=
      sharded_rowSlices args.w13 two_pos (h2.trans hhidden)
    rw [← hok.hidden_shards] at hw13
    exact hw13
  · rcases h with h | h
    · have hw13s : Sharded args.w13Scale kGroupSize (numExperts * 2 * args.ispp) (tp * plan.hiddenShard)
          plan.hiddenShard tp _ :=
        sharded_rowSlices args.w13Scale (show 0 < kGroupSize from Nat.succ_pos 31) (h32.trans hhidden)
      rw [← hok.hidden_shards] at hw13s
      rw [h]
      exact hw13s
    · have hw13s : Sharded args.w13Scale args.groupSize (numExperts * 2 * args.ispp) (tp * plan.hiddenShard)
          plan.hiddenShard tp (w13sShard args numExperts plan) :=
        sharded_empty args.w13Scale (hok.empty_w13 h) fun hzero => by rw [hzero, Nat.zero_div]
      rw [← hok.hidden_shards] at hw13s
      exact hw13s
  · have hw2 : Sharded args.w2 2 (numExperts * args.hidden) (tp * plan.isppShard) plan.isppShard tp _ :=
      sharded_rowSlices args.w2 two_pos (h2.trans hispp)
    rw [← hok.ispp_shards] at hw2
    exact hw2
  · rcases h with h | h
    · have hw2s : Sharded args.w2Scale kGroupSize (numExperts * args.hidden) (tp * plan.isppShard) plan.isppShard tp _ :=
        sharded_rowSlices args.w2Scale (show 0 < kGroupSize from Nat.succ_pos 31) (h32.trans hispp)
      rw [← hok.ispp_shards] at hw2s
      rw [h]
      exact hw2s
    · have hw2s : Sharded args.w2Scale args.groupSize (numExperts * args.hidden) (tp * plan.isppShard) plan.isppShard tp
          (w2sShard args numExperts plan) :=
        sharded_empty args.w2Scale (hok.empty_w2 h) fun hzero => by rw [hzero, Nat.zero_div]
      rw [← hok.ispp_shards] at hw2s
      exact hw2s

lemma group_of_shards (h : TpExact ar args beyond ids topkW M topK numExperts 16 tp)
    (hsome : numExperts * args.hidden * args.ispp ≠ 0) : args.groupSize = kGroupSize := by
  have hok := moeTpPlan_ok hplan
  obtain ⟨plan', _, w13s, _, _, hplan', hranks, -, hw13s, -, -⟩ := h.shards
  obtain rfl : plan = plan' := Except.ok.inj (hplan.symm.trans hplan')
  have hpos := Nat.pos_of_ne_zero hsome
  have hispp := Nat.pos_of_mul_pos_left hpos
  have hboth := Nat.pos_of_mul_pos_right hpos
  have hhidden := Nat.pos_of_mul_pos_left hboth
  have hexperts := Nat.pos_of_mul_pos_right hboth
  have hshard : 0 < plan.hiddenShard := by
    rw [hok.hidden_shards] at hhidden
    exact Nat.pos_of_mul_pos_left hhidden
  have h32 : kGroupSize ∣ plan.hiddenShard :=
    ⟨plan.hiddenShard / blockK * 2, by
      nth_rewrite 1 [hok.hiddenShard_blocks]
      show _ * 64 = 32 * (_ * 2)
      omega⟩
  have hzero := hranks 0 hok.tp_pos
  rw [rankShards_ok args numExperts hok hok.tp_pos] at hzero
  have hlen : (w13s 0).length = numExperts * 2 * args.ispp * (plan.hiddenShard / kGroupSize) := by
    have hsame : w13sShard args numExperts plan 0 = w13s 0 := by
      injection hzero with hpair
      exact congrArg (fun p => p.1.2) hpair
    rw [← hsame]
    exact rowSlices_length _
  exact group_of_sharded _ hok.tp_pos (by positivity) hshard h32 args.groupSize_pos hw13s hlen

end

end

/-! ## Two ranks -/

/-- Weights of `[128, 128]` in scale groups of `groupSize`. -/
def tpArgs (groupSize : ℕ) (h : 0 < groupSize) : MoeArgs ℚ ℚ :=
  { probeArgs 0 with hidden := 128, ispp := 128, groupSize := groupSize, groupSize_pos := h }

lemma tpPlan_two : moeTpPlan 128 128 2 = .ok ⟨2, 128, 128, 64, 64, 8192, 512, 4096, 256⟩ := rfl

end VKernels.Moe
