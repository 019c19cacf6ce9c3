import VKernels.Moe.Fused

/-!
# Expert parallelism

`moe_ep_plan` and `fused_moe_mxfp4_ep` of `dist/dist_moe.cpp` beside the single-rank oracle that its
tests compare with.

* `fusedMoeMxfp4Ep` — one output per rank, over the experts of its plan.
* `EpMatchesOracle` — the outputs of the ranks add up to the oracle's.

## Results

* `moeEpPlan_ok` — the plans cut the experts into consecutive ranges.
* `layout_out` — a layout that lines up gives every token what its experts give it.
* `expert_parallel_iff` — the ranks add up to the oracle exactly when their layouts line up, which
  every routing's do only for blocks of 16.
-/

namespace VKernels.Moe

open Comm (expects expects_of bind_ok)
open Finset
open Grouping TileLoops
open List hiding cons mem_range min range sum_eq_zero

variable {R W : Type} [Field R] [LinearOrder R] [Zero W] (ar : Arith R W)

/-! ## The two computations -/

section

/-- The routing weights in sorted order, and the fused kernel. -/
def fusedOnLayout (args : MoeArgs R W) (topkW : ℕ → R) (M topK : ℕ)
    (layout : ℕ × List ℕ × List ℤ) : Except String (ℕ → ℕ → R) := do
  let (em, sorted, expertIds) := layout
  let sortedIds := fun i => sorted.getD i 0
  let nflat := M * topK
  let sortedW := fun i => if sortedIds i < nflat then topkW (sortedIds i) else 0
  let (_, out) ← fusedMoeMxfp4Cpu ar args sortedIds sortedW expertIds (fun _ _ => 0) (fun _ _ => 0)
    M topK em
  return out

/-- `run_oracle` of the tests. -/
def runOracle (args : MoeArgs R W) (topkIds : ℕ → ℤ) (topkW : ℕ → R)
    (M topK numExperts blockSize : ℕ) : Except String (ℕ → ℕ → R) := do
  let layout ← alignTp topkIds M topK blockSize numExperts
  fusedOnLayout ar args topkW M topK layout

omit [Field R] [LinearOrder R] [Zero W] in
/-- The weights and biases from a rank's first expert on. -/
def MoeArgs.ofRank (args : MoeArgs R W) (plan : MoeEPPlan) : MoeArgs R W :=
  let w13E := 2 * args.ispp * (args.hidden / 2)
  let w13sE := 2 * args.ispp * (args.hidden / args.groupSize)
  let w2E := args.hidden * (args.ispp / 2)
  let w2sE := args.hidden * (args.ispp / args.groupSize)
  { args with
    w13 := offset args.w13 (plan.expertBegin * w13E)
    w13Scale := offset args.w13Scale (plan.expertBegin * w13sE)
    w2 := offset args.w2 (plan.expertBegin * w2E)
    w2Scale := offset args.w2Scale (plan.expertBegin * w2sE)
    b13 := args.b13.map fun b => offset b (plan.expertBegin * 2 * args.ispp)
    b2 := args.b2.map fun b => offset b (plan.expertBegin * args.hidden) }

def fusedMoeMxfp4Ep (args : MoeArgs R W) (topkIds : ℕ → ℤ) (topkW : ℕ → R)
    (M topK numExperts blockSize ep : ℕ) : Except String (List (ℕ → ℕ → R)) := do
  expects (ep > 0) "ep must be positive" "ep > 0"
  (List.range ep).mapM fun r => do
    let plan ← moeEpPlan numExperts ep r
    let layout ← moeEpDispatch topkIds M topK numExperts blockSize plan
    fusedOnLayout ar (args.ofRank plan) topkW M topK layout

/-! ## What they should compute -/

def EpMatchesOracle (args : MoeArgs R W) (topkIds : ℕ → ℤ) (topkW : ℕ → R)
    (M topK numExperts blockSize ep : ℕ) : Prop :=
  ∃ outs out, fusedMoeMxfp4Ep ar args topkIds topkW M topK numExperts blockSize ep = .ok outs ∧
    outs.length = ep ∧ runOracle ar args topkIds topkW M topK numExperts 16 = .ok out ∧
    ∀ t c, (outs.map fun o => o t c).sum = out t c

end

/-- The plans cut the experts into consecutive ranges, none empty. -/
def PlansPartition (numExperts ep : ℕ) : Prop :=
  ∃ bound : ℕ → ℕ, bound 0 = 0 ∧ bound ep = numExperts ∧ ∀ rank < ep, ∃ plan,
    moeEpPlan numExperts ep rank = .ok plan ∧ plan.expertBegin = bound rank ∧
      plan.expertEnd = bound (rank + 1) ∧ plan.expertBegin < plan.expertEnd ∧
      plan.numLocal = plan.expertEnd - plan.expertBegin

/-- A layout in blocks of `blockSize` rows can be served in blocks of 16: no block of 16 is beyond the
    table, and every routed row is in a whole one, which has the expert of the row. -/
def LinedUp (rows : List ℕ) (experts : List ℤ) (N blockSize : ℕ) : Prop :=
  rows.length / blockM ≤ experts.length ∧ ∀ p i, rows[p]? = some i → i < N →
    p / blockM < rows.length / blockM ∧ experts[p / blockM]? = experts[p / blockSize]?

/-- The layout of every rank lines up. -/
def RanksLineUp (topkIds : ℕ → ℤ) (M topK numExperts blockSize ep : ℕ) : Prop :=
  ∀ rank plan, moeEpPlan numExperts ep rank = .ok plan →
    LinedUp (paddedIds (plan.mask topkIds) M topK blockSize numExperts)
      (blockExperts (plan.mask topkIds) M topK blockSize numExperts) (M * topK) blockSize

/-! ## The plans -/

section

variable {numExperts ep : ℕ}

/-- The experts of the ranks before `rank`. -/
def planBound (numExperts ep rank : ℕ) : ℕ := rank * (numExperts / ep) + min rank (numExperts % ep)

lemma planBound_succ (rank : ℕ) : planBound numExperts ep (rank + 1) =
    planBound numExperts ep rank + numExperts / ep + if rank < numExperts % ep then 1 else 0 := by
  unfold planBound
  rw [add_one_mul]
  split <;> omega

lemma planBound_mono (numExperts ep : ℕ) : Monotone (planBound numExperts ep) := by
  apply monotone_nat_of_le_succ
  intro _
  rw [planBound_succ, add_assoc]
  exact Nat.le_add_right _ _

lemma planBound_last (hep : 0 < ep) : planBound numExperts ep ep = numExperts := by
  have := Nat.mod_lt numExperts hep
  have := Nat.div_add_mod numExperts ep
  unfold planBound
  omega

lemma moeEpPlan_eq (hep : 0 < ep) (hle : ep ≤ numExperts) {rank : ℕ} (hrank : rank < ep) :
    moeEpPlan numExperts ep rank = .ok ⟨ep, rank, planBound numExperts ep rank, planBound numExperts ep (rank + 1),
      planBound numExperts ep (rank + 1) - planBound numExperts ep rank⟩ := by
  have hbegin : (rank * (numExperts / ep) + if rank < numExperts % ep then rank
      else numExperts % ep) = planBound numExperts ep rank := by
    unfold planBound
    split <;> omega
  unfold moeEpPlan
  rw [expects_of hep, ok_bind, expects_of ⟨Nat.zero_le _, hrank⟩, ok_bind, expects_of hle, ok_bind]
  dsimp only
  rw [hbegin, ← planBound_succ]
  rfl

lemma moeEpPlan_ok {rank : ℕ} {plan : MoeEPPlan} (h : moeEpPlan numExperts ep rank = .ok plan) :
    rank < ep ∧ plan.expertBegin = planBound numExperts ep rank ∧
      plan.expertEnd = planBound numExperts ep (rank + 1) := by
  have hchecks := h
  obtain ⟨hep, hchecks⟩ := Comm.expects_ok.mp hchecks
  obtain ⟨hrank, hchecks⟩ := Comm.expects_ok.mp hchecks
  obtain ⟨hle, _⟩ := Comm.expects_ok.mp hchecks
  rw [moeEpPlan_eq hep hle hrank.2] at h
  cases h
  exact ⟨hrank.2, rfl, rfl⟩

lemma plansPartition (hep : 0 < ep) (hle : ep ≤ numExperts) : PlansPartition numExperts ep := by
  refine ⟨planBound numExperts ep, ?_, planBound_last hep, ?_⟩
  · simp [planBound]
  · intro rank hrank
    refine ⟨_, moeEpPlan_eq hep hle hrank, rfl, rfl, ?_, rfl⟩
    have hbase : 0 < numExperts / ep := Nat.div_pos hle hep
    show planBound numExperts ep rank < planBound numExperts ep (rank + 1)
    rw [planBound_succ]
    omega

end

/-! ## The weights of a rank -/

section

variable {R W : Type} [Field R] (ar : Arith R W)

lemma offset_offset {α : Type} (p : ℕ → α) (a b : ℕ) : offset (offset p a) b = offset p (a + b) := by
  funext j
  exact congrArg p (add_assoc a b j).symm

lemma offset_expert (p : ℕ → UInt8) (b e size x y : ℕ) :
    offset (offset p (b * size)) (e * size + x + y) = offset p ((b + e) * size + x + y) := by
  rw [offset_offset, add_mul]
  congr 1
  omega

lemma addBias_offset (bias : Option (ℕ → R)) (k i : ℕ) (v : R) :
    addBias (bias.map fun b => offset b k) i v = addBias bias (k + i) v := by
  cases bias <;> rfl

variable (args : MoeArgs R W) (plan : MoeEPPlan) (topK e i : ℕ)

lemma rowGate_ofRank (c : ℕ) : rowGate ar (args.ofRank plan) topK e i c =
    rowGate ar args topK (plan.expertBegin + e) i c := by
  unfold rowGate gateTile MoeArgs.ofRank rowA
  simp [offset_expert]

lemma rowUp_ofRank (c : ℕ) : rowUp ar (args.ofRank plan) topK e i c =
    rowUp ar args topK (plan.expertBegin + e) i c := by
  unfold rowUp upTile MoeArgs.ofRank rowA
  simp [offset_expert]

variable [LinearOrder R]

lemma rowAct_ofRank (c : ℕ) : rowAct ar (args.ofRank plan) topK e i c =
    rowAct ar args topK (plan.expertBegin + e) i c := by
  have hbias : ∀ x, plan.expertBegin * 2 * args.ispp + (e * (2 * args.ispp) + x) =
      (plan.expertBegin + e) * (2 * args.ispp) + x := by
    intro x
    rw [add_mul, mul_assoc]
    omega
  unfold rowAct
  rw [rowGate_ofRank, rowUp_ofRank]
  show ar.f32ToBf16 (epilogueValue ar args.activation
    (addBias (args.b13.map fun b => offset b (plan.expertBegin * 2 * args.ispp)) _ _)
    (addBias (args.b13.map fun b => offset b (plan.expertBegin * 2 * args.ispp)) _ _) _ _ _) = _
  rw [addBias_offset, addBias_offset]
  show ar.f32ToBf16 (epilogueValue ar args.activation
    (addBias args.b13 (plan.expertBegin * 2 * args.ispp + (e * (2 * args.ispp) + c)) _)
    (addBias args.b13 (plan.expertBegin * 2 * args.ispp + (e * (2 * args.ispp) + c + args.ispp)) _)
    _ _ _) = _
  rw [add_assoc _, hbias, hbias, add_assoc]
  rfl

/-- **A rank's expert** is the expert that its plan says. -/
theorem rowOut_ofRank (c : ℕ) : rowOut ar (args.ofRank plan) topK e i c =
    rowOut ar args topK (plan.expertBegin + e) i c := by
  unfold rowOut
  simp only [rowAct_ofRank]
  unfold downTile MoeArgs.ofRank
  simp only [offset_expert, addBias_offset]
  rw [← add_assoc, ← add_mul]

end

/-! ## A layout that lines up -/

section

variable (args : MoeArgs R W) (topkW : ℕ → R)

section

variable {ids : ℕ → ℤ} {M topK numExperts blockSize begin : ℕ} {rows : List ℕ} {experts : List ℤ}
  (haligned : Aligned ids M topK blockSize numExperts rows.length rows experts)
  (hlined : LinedUp rows experts (M * topK) blockSize)
  (hbegin : ∀ i < M * topK, 0 ≤ ids i → ids i < numExperts → (begin : ℤ) ≤ ids i)

omit [Zero W] in
variable (ids M topK) in
/-- What output `t`, `c` gets from the routed token `i`. -/
def given (t c i : ℕ) : R :=
  if c / blockN < args.hidden / blockN ∧ i < M * topK ∧ i / topK = t then
    rowOut ar args topK (ids i).toNat i c * topkW i
  else 0

lemma getElem?_getD {p : ℕ} (hp : p < rows.length) : rows[p]? = some (rows.getD p 0) := by
  rw [getD_eq_getElem?_getD, getElem?_eq_getElem hp, Option.getD_some]

include haligned hlined hbegin

lemma served_row {p i : ℕ} (hp : rows[p]? = some i) (hi : i < M * topK) :
    (0 ≤ ids i ∧ ids i < numExperts) ∧ (begin : ℤ) ≤ ids i ∧
      rowExpert rows.length (experts.map (· - (begin : ℤ))) p = some ((ids i).toNat - begin) := by
  rcases haligned.only _ (mem_of_getElem? hp) with hpadded | ⟨_, hlo, hhi⟩
  · omega
  · have hle := hbegin _ hi hlo hhi
    obtain ⟨hwhole, hexpert⟩ := hlined.2 p i hp hi
    have hids := haligned.experts.2 p i hp (ne_of_lt hi)
    refine ⟨⟨hlo, hhi⟩, hle, ?_⟩
    unfold rowExpert blockExpert
    rw [if_pos hwhole, getElem?_map, hexpert, hids, Option.map_some, Option.bind_some,
      if_neg (by omega)]
    congr 1
    omega

omit [LinearOrder R] [Zero W] in
/-- **The rows of a layout that lines up** are the routed tokens, each with its own expert. -/
theorem served_sum {g : ℕ → ℕ → R} (hpad : ∀ e i, ¬ i < M * topK → g e i = 0) :
    ∑ r ∈ range (rows.length / blockM * blockM), (rowExpert rows.length (experts.map (· - (begin : ℤ))) r).elim 0
        (fun e => g (begin + e) (rows.getD r 0)) =
      ∑ i ∈ range (M * topK), if 0 ≤ ids i ∧ ids i < numExperts then g (ids i).toNat i else 0 := by
  have hwhole : rows.length / blockM * blockM ≤ rows.length := Nat.div_mul_le_self _ _
  -- a served row gives its token's part
  have hserved : ∀ p < rows.length / blockM * blockM,
      ((rowExpert rows.length (experts.map (· - (begin : ℤ))) p).elim 0 fun e => g (begin + e) (rows.getD p 0)) =
        g (ids (rows.getD p 0)).toNat (rows.getD p 0) := by
    intro p hp
    by_cases hi : rows.getD p 0 < M * topK
    · obtain ⟨_, hle, hexpert⟩ := served_row haligned hlined hbegin (getElem?_getD (by omega)) hi
      rw [hexpert, Option.elim_some, show begin + ((ids _).toNat - begin) =
        (ids (rows.getD p 0)).toNat by omega]
    · rw [hpad _ _ hi]
      cases rowExpert rows.length (experts.map (· - (begin : ℤ))) p with
      | none => rfl
      | some e => exact hpad _ _ hi
  -- the rows after the last whole block are padding
  have hrest : ∀ p ∈ range rows.length, p ∉ range (rows.length / blockM * blockM) →
      g (ids (rows.getD p 0)).toNat (rows.getD p 0) = 0 := by
    intro p hp hnot
    rw [mem_range] at hp hnot
    refine hpad _ _ fun h => hnot ?_
    have hlt := (hlined.2 p _ (getElem?_getD hp) h).1
    have hmod : p % blockM < blockM := Nat.mod_lt _ (by decide)
    have hp' := block_row p
    have hmul := Blocks.block_le hlt blockM
    omega
  rw [sum_congr rfl fun p hp => hserved p (mem_range.mp hp),
    sum_subset (range_subset_range.mpr hwhole) hrest, sum_getD rows 0 fun i => g (ids i).toNat i]
  exact sum_map_once (fun i hi => haligned.only i hi) (fun i hi h => haligned.once i hi h.1 h.2)
    (hpad _ _ (lt_irrefl _))

omit [LinearOrder R] [Zero W] in
lemma served_weighted (visible : Prop) [Decidable visible] (value : ℕ → ℕ → R) (t : ℕ) :
    ∑ r ∈ range (rows.length / blockM * blockM), (rowExpert rows.length (experts.map (· - (begin : ℤ))) r).elim 0
        (fun e => if visible ∧ rows.getD r 0 < M * topK ∧ rows.getD r 0 / topK = t then
            value (begin + e) (rows.getD r 0) * (if rows.getD r 0 < M * topK then topkW (rows.getD r 0) else 0)
          else 0) = ∑ i ∈ range (M * topK), if 0 ≤ ids i ∧ ids i < numExperts then
        (if visible ∧ i < M * topK ∧ i / topK = t then value (ids i).toNat i * topkW i else 0) else 0 := by
  rw [← served_sum haligned hlined hbegin
    (g := fun e i => if visible ∧ i < M * topK ∧ i / topK = t then value e i * topkW i else 0)
    fun e i hi => if_neg fun h => hi h.2.1]
  refine sum_congr rfl fun r _ => ?_
  cases rowExpert rows.length (experts.map (· - (begin : ℤ))) r with
  | none => rfl
  | some e =>
    rw [Option.elim_some, Option.elim_some]
    by_cases hi : rows.getD r 0 < M * topK
    · rw [if_pos hi]
    · rw [if_neg fun h => hi h.2.1, if_neg fun h => hi h.2.1]

lemma layout_out {args' : MoeArgs R W}
    (hargs : ∀ e i c, rowOut ar args' topK e i c = rowOut ar args topK (begin + e) i c)
    (hhidden : args'.hidden = args.hidden) :
    ∃ out, fusedOnLayout ar args' topkW M topK (rows.length, rows, experts.map (· - (begin : ℤ))) = .ok out ∧
      ∀ t c, out t c = ∑ i ∈ range (M * topK), if 0 ≤ ids i ∧ ids i < numExperts then
        given ar args topkW ids M topK t c i else 0 := by
  have hfits : rows.length / blockM ≤ (experts.map (· - (begin : ℤ))).length := by
    rw [length_map]
    exact hlined.1
  obtain ⟨_, out, hout, hsum⟩ := fusedMoeMxfp4Cpu_ok ar (fun i => rows.getD i 0) M topK args' hfits
    (fun i => if rows.getD i 0 < M * topK then topkW _ else 0) (fun _ _ => 0) (fun _ _ => 0)
  refine ⟨out, ?_, ?_⟩
  · unfold fusedOnLayout
    dsimp only
    rw [hout]
    rfl
  · intro t c
    rw [hsum, zero_add, hhidden]
    simp only [hargs]
    exact served_weighted topkW haligned hlined hbegin _ (fun e i => rowOut ar args topK e i c) t

end

variable (ids : ℕ → ℤ) (M topK numExperts : ℕ) {blockSize : ℕ}

lemma rank_out {plan : MoeEPPlan} (hblock : 0 < blockSize) (hplan : plan.numLocal = plan.expertEnd - plan.expertBegin)
    (hend : plan.expertEnd ≤ numExperts) (hlined : LinedUp (paddedIds (plan.mask ids) M topK blockSize numExperts)
      (blockExperts (plan.mask ids) M topK blockSize numExperts) (M * topK) blockSize) :
    ∃ out, (moeEpDispatch ids M topK numExperts blockSize plan >>=
        fusedOnLayout ar (args.ofRank plan) topkW M topK) = .ok out ∧ ∀ t c, out t c = ∑ i ∈ range (M * topK),
        if plan.expertBegin ≤ ids i ∧ ids i < plan.expertEnd then given ar args topkW ids M topK t c i else 0 := by
  have hbegin : ∀ i < M * topK, 0 ≤ plan.mask ids i → plan.mask ids i < numExperts →
      (plan.expertBegin : ℤ) ≤ plan.mask ids i := by
    intro i _ hlo _
    obtain ⟨hid, hbegin, _⟩ := mask_nonneg ids hlo
    omega
  obtain ⟨out, hout, hsum⟩ := layout_out ar args topkW (paddedIds_aligned (plan.mask ids) M topK numExperts hblock)
    hlined hbegin (fun e i c => rowOut_ofRank ar args plan topK e i c) rfl
  refine ⟨out, ?_, ?_⟩
  · rw [(moeEpDispatch_eq ids M topK numExperts hblock hplan).1, ok_bind]
    exact hout
  · intro t c
    rw [hsum]
    refine sum_congr rfl fun i _ => ?_
    unfold given MoeEPPlan.mask
    by_cases hin : ids i ≥ plan.expertBegin ∧ ids i < plan.expertEnd
    · rw [if_pos hin, if_pos (by omega), if_pos hin]
    · rw [if_neg hin, if_neg (by omega), if_neg hin]

lemma oracle_out (hblock : 0 < blockSize) (hlined : LinedUp (paddedIds ids M topK blockSize numExperts)
      (blockExperts ids M topK blockSize numExperts) (M * topK) blockSize) :
    ∃ out, runOracle ar args ids topkW M topK numExperts blockSize = .ok out ∧
      ∀ t c, out t c = ∑ i ∈ range (M * topK), if 0 ≤ ids i ∧ ids i < numExperts then
        given ar args topkW ids M topK t c i else 0 := by
  have hargs : ∀ e i c, rowOut ar args topK e i c = rowOut ar args topK (0 + e) i c := by
    intro e i c
    rw [zero_add]
  obtain ⟨out, hout, hsum⟩ := layout_out ar args topkW (paddedIds_aligned ids M topK numExperts hblock) hlined
    (fun i _ hlo _ => hlo) hargs rfl
  refine ⟨out, ?_, hsum⟩
  have hmap : (blockExperts ids M topK blockSize numExperts).map (· - ((0 : ℕ) : ℤ)) =
      blockExperts ids M topK blockSize numExperts := by
    simp
  rw [hmap] at hout
  unfold runOracle
  rw [(alignTp_eq ids M topK numExperts hblock).1, ok_bind]
  exact hout

end

/-! ## The ranks add up -/

section

lemma mapM_eq_ok {α β : Type} {f : α → Except String β} {l : List α} {ys : List β} :
    l.mapM f = .ok ys ↔ Forall₂ (fun x y => f x = .ok y) l ys := by
  induction l generalizing ys with
  | nil =>
    rw [mapM_nil, forall₂_nil_left_iff]
    exact ⟨fun h => (Except.ok.inj h).symm, fun h => h ▸ rfl⟩
  | cons x l ih =>
    rw [mapM_cons, forall₂_cons_left_iff, bind_ok]
    constructor
    · rintro ⟨y, hy, hrest⟩
      obtain ⟨ys', hys', hret⟩ := bind_ok.mp hrest
      exact ⟨y, ys', hy, ih.mp hys', (Except.ok.inj hret).symm⟩
    · rintro ⟨y, ys', hy, hys', rfl⟩
      exact ⟨y, hy, bind_ok.mpr ⟨ys', ih.mpr hys', rfl⟩⟩

lemma forall₂_mem {α β : Type} {rel : α → β → Prop} {l : List α} {ys : List β} (h : Forall₂ rel l ys) :
    (∀ x ∈ l, ∃ y ∈ ys, rel x y) ∧ ∀ y ∈ ys, ∃ x ∈ l, rel x y := by
  induction h with
  | nil => simp
  | cons hxy _ ih =>
    constructor
    · intro x hx
      rcases mem_cons.mp hx with rfl | hx
      · exact ⟨_, mem_cons_self, hxy⟩
      · obtain ⟨y, hy, hr⟩ := ih.1 x hx
        exact ⟨y, mem_cons_of_mem _ hy, hr⟩
    · intro y hy
      rcases mem_cons.mp hy with rfl | hy
      · exact ⟨_, mem_cons_self, hxy⟩
      · obtain ⟨x, hx, hr⟩ := ih.2 y hy
        exact ⟨x, mem_cons_of_mem _ hx, hr⟩

variable {R W : Type} [Field R] [LinearOrder R] [Zero W] (ar : Arith R W) (args : MoeArgs R W)
  (topkW : ℕ → R) (ids : ℕ → ℤ) (M topK : ℕ) {numExperts ep blockSize : ℕ}

lemma fusedMoeMxfp4Ep_ok (hblock : 0 < blockSize) (hep : 0 < ep) {outs : List (ℕ → ℕ → R)}
    (h : fusedMoeMxfp4Ep ar args ids topkW M topK numExperts blockSize ep = .ok outs) :
    Forall₂ (fun rank o => ∃ plan, moeEpPlan numExperts ep rank = .ok plan ∧
      fusedOnLayout ar (args.ofRank plan) topkW M topK ((paddedIds (plan.mask ids) M topK blockSize numExperts).length,
          paddedIds (plan.mask ids) M topK blockSize numExperts,
          (blockExperts (plan.mask ids) M topK blockSize numExperts).map (· - (plan.expertBegin : ℤ))) =
        .ok o) (List.range ep) outs := by
  unfold fusedMoeMxfp4Ep at h
  rw [expects_of hep, ok_bind, mapM_eq_ok] at h
  apply h.imp
  intro _ o ho
  obtain ⟨plan, hplan, ho⟩ := bind_ok.mp ho
  rw [(moeEpDispatch_eq ids M topK numExperts hblock (moeEpPlan_numLocal hplan)).1, ok_bind] at ho
  exact ⟨plan, hplan, ho⟩

omit [LinearOrder R] in
lemma sum_ranks (hep : 0 < ep) (x : ℤ) (a : R) : ∑ rank ∈ range ep, (if planBound numExperts ep rank ≤ x ∧
      x < planBound numExperts ep (rank + 1) then a else 0) = if 0 ≤ x ∧ x < numExperts then a else 0 := by
  by_cases hx : 0 ≤ x
  · obtain ⟨n, rfl⟩ := Int.eq_ofNat_of_zero_le hx
    have hsum := sum_consecutive (planBound_mono numExperts ep) n a ep
    rw [planBound_last hep] at hsum
    have hzero : planBound numExperts ep 0 = 0 := by simp [planBound]
    simp only [hzero, zero_le, true_and] at hsum
    simp only [Nat.cast_le, Nat.cast_lt, hx, true_and]
    exact hsum
  · rw [if_neg fun h => hx h.1]
    apply sum_eq_zero
    intro _ _
    exact if_neg (by omega)

lemma linedUp_sixteen (ids : ℕ → ℤ) (M topK numExperts : ℕ) :
    LinedUp (paddedIds ids M topK 16 numExperts) (blockExperts ids M topK 16 numExperts) (M * topK) 16 := by
  have haligned := paddedIds_aligned ids M topK numExperts (show 0 < 16 by decide)
  refine ⟨haligned.experts.1.ge, ?_⟩
  intro p i hp _
  refine ⟨?_, rfl⟩
  obtain ⟨hlt, _⟩ := List.getElem?_eq_some_iff.mp hp
  exact Nat.div_lt_div_of_lt_of_dvd (Nat.dvd_of_mod_eq_zero haligned.blocks) hlt

/-- **Layouts that line up** make the ranks add up to the oracle. -/
theorem epMatchesOracle_of_linesUp (hblock : 0 < blockSize) (hep : 0 < ep) (hle : ep ≤ numExperts)
    (hlines : RanksLineUp ids M topK numExperts blockSize ep) :
    EpMatchesOracle ar args ids topkW M topK numExperts blockSize ep := by
  obtain ⟨out, hout, horacle⟩ := oracle_out ar args topkW ids M topK numExperts
    (show 0 < 16 by decide) (linedUp_sixteen ids M topK numExperts)
  have hrank : ∀ rank ∈ range ep, ∃ o, (moeEpPlan numExperts ep rank >>= fun plan =>
      moeEpDispatch ids M topK numExperts blockSize plan >>=
        fusedOnLayout ar (args.ofRank plan) topkW M topK) = .ok o ∧
      ∀ t c, o t c = ∑ i ∈ range (M * topK), if planBound numExperts ep rank ≤ ids i ∧
        ids i < planBound numExperts ep (rank + 1) then
          given ar args topkW ids M topK t c i else 0 := by
    intro rank hrank
    have hplan := moeEpPlan_eq hep hle (mem_range.mp hrank)
    have hend : planBound numExperts ep (rank + 1) ≤ numExperts := by
      have hmono := planBound_mono numExperts ep (mem_range.mp hrank)
      rwa [planBound_last hep] at hmono
    obtain ⟨o, ho, hsum⟩ := rank_out ar args topkW ids M topK numExperts hblock
      (moeEpPlan_numLocal hplan) hend (hlines rank _ hplan)
    refine ⟨o, ?_, hsum⟩
    rw [hplan, ok_bind]
    exact ho
  choose! o ho hsum using hrank
  refine ⟨(List.range ep).map o, out, ?_, by simp, hout, ?_⟩
  · unfold fusedMoeMxfp4Ep
    rw [expects_of hep, ok_bind]
    apply mapM_eq_ok.mpr
    rw [forall₂_map_right_iff, forall₂_same]
    exact ho
  · intro t c
    rw [List.map_map, horacle]
    have hranks : ((List.range ep).map ((fun o => o t c) ∘ o)).sum =
        ∑ rank ∈ range ep, ∑ i ∈ range (M * topK),
          if planBound numExperts ep rank ≤ ids i ∧ ids i < planBound numExperts ep (rank + 1) then
            given ar args topkW ids M topK t c i else 0 := by
      show ((List.range ep).map fun rank => o rank t c).sum = _
      rw [map_congr_left fun rank hrank => hsum rank hrank t c]
      rfl
    rw [hranks, sum_comm]
    apply sum_congr rfl
    intro i _
    exact sum_ranks hep (ids i) _

end

/-! ## A layout that does not line up -/

section

/-- Exact arithmetic without rounding. -/
def probeArith : Arith ℚ ℚ where
  nonFinite _ := 0
  bf16ToFloat x := x
  f32ToBf16 x := x
  exp _ := 1
  tanh _ := 0

/-- Down weights of scale 0, and a bias of 1 for one expert. -/
def probeArgs (expert : ℕ) : MoeArgs ℚ ℚ where
  A _ := 0
  w13 _ := 0
  w13Scale _ := 0
  w2 _ := 0
  w2Scale _ := 0xFF
  b13 := none
  b2 := some fun j => if j / 64 = expert then 1 else 0
  hidden := 64
  ispp := 64
  groupSize := 32
  groupSize_pos := by decide
  swigluLimit := 0
  activation := 0
  beta := 1
  linearBeta := 0

lemma rowDot_zero {R W : Type} [Field R] (ar : Arith R W) {b : ℕ → ℕ → W}
    (hb : ∀ kb k, ar.bf16ToFloat (b kb k) = 0) (numKBlocks : ℕ) (a : ℕ → ℕ → W) : rowDot ar numKBlocks a b = 0 := by
  have hdot : ∀ kb n, (List.range n).foldl (fun dot k =>
      dot + ar.bf16ToFloat (a kb k) * ar.bf16ToFloat (b kb k)) 0 = 0 := by
    intro _ n
    simp only [hb, mul_zero, add_zero]
    exact foldl_frame (fun x : R => x) (fun _ _ => rfl) n 0
  unfold rowDot
  simp only [hdot, add_zero]
  exact foldl_frame (fun x : R => x) (fun _ _ => rfl) numKBlocks 0

lemma rowOut_probe (topK expert e i : ℕ) :
    rowOut probeArith (probeArgs expert) topK e i 0 = if e = expert then 1 else 0 := by
  have hdown : ∀ kb k, probeArith.bf16ToFloat (downTile probeArith (probeArgs expert).w2
      (probeArgs expert).w2Scale 64 64 32 e (0 / blockN) kb k (0 % blockN)) = 0 :=
    fun kb k => mul_zero _
  show addBias _ _ (rowDot probeArith (64 / blockK) _ fun kb k => downTile probeArith
    (probeArgs expert).w2 (probeArgs expert).w2Scale 64 64 32 e (0 / blockN) kb k (0 % blockN)) = _
  rw [rowDot_zero probeArith hdown]
  show (0 : ℚ) + (if (e * 64 + 0) / 64 = expert then 1 else 0) = _
  rw [zero_add, Nat.add_zero, Nat.mul_div_cancel _ (by decide)]

variable (ids : ℕ → ℤ) (M topK : ℕ) {numExperts ep blockSize : ℕ}

/-- The routing weights that see one routed token only. -/
def probeW (i : ℕ) : ℕ → ℚ := fun j => if j = i then 1 else 0

lemma given_probe {i : ℕ} (hi : i < M * topK) (j : ℕ) :
    given probeArith (probeArgs (ids i).toNat) (probeW i) ids M topK (i / topK) 0 j = if j = i then 1 else 0 := by
  unfold given probeW
  by_cases hj : j = i
  · subst hj
    have hcol : 0 / blockN < (probeArgs (ids j).toNat).hidden / blockN := show 0 / 64 < 64 / 64 by decide
    rw [if_pos ⟨hcol, hi, rfl⟩, rowOut_probe, if_pos rfl, if_pos rfl, mul_one]
  · rw [if_neg hj, mul_zero, ite_self]

lemma oracle_probe (numExperts : ℕ) {i : ℕ} (hi : i < M * topK) (hids : 0 ≤ ids i ∧ ids i < numExperts) :
    ∃ out, runOracle probeArith (probeArgs (ids i).toNat) ids (probeW i) M topK numExperts 16 =
      .ok out ∧ out (i / topK) 0 = 1 := by
  obtain ⟨out, hout, hsum⟩ := oracle_out probeArith _ _ ids M topK
    numExperts (show 0 < 16 by decide) (linedUp_sixteen ids M topK numExperts)
  refine ⟨out, hout, ?_⟩
  rw [hsum, sum_eq_single i]
  · rw [if_pos hids, given_probe ids M topK hi, if_pos rfl]
  · intro j _ hj
    rw [given_probe ids M topK hi, if_neg hj, ite_self]
  · intro hnot
    exact absurd (mem_range.mpr hi) hnot

variable {experts : List ℤ}

lemma rank_probe {plan : MoeEPPlan} {em : ℕ} {rows : List ℕ} {i : ℕ} {out : ℕ → ℕ → ℚ}
    (hserved : ∀ p e, p < em → rows.getD p 0 = i → rowExpert em experts p = some e →
      plan.expertBegin + e ≠ (ids i).toNat)
    (hout : fusedOnLayout probeArith ((probeArgs (ids i).toNat).ofRank plan) (probeW i) M topK
      (em, rows, experts) = .ok out) : out (i / topK) 0 = 0 := by
  by_cases hfits : em / blockM ≤ experts.length
  · obtain ⟨_, out', hout', hsum⟩ := fusedMoeMxfp4Cpu_ok probeArith (fun i => rows.getD i 0) M topK
      ((probeArgs (ids i).toNat).ofRank plan) hfits
      (fun j => if rows.getD j 0 < M * topK then probeW i _ else 0) (fun _ _ => 0)
      (fun _ _ => 0)
    unfold fusedOnLayout at hout
    dsimp only at hout
    rw [hout', ok_bind] at hout
    cases hout
    show out' (i / topK) 0 = 0
    rw [hsum, zero_add]
    apply sum_eq_zero
    intro p hp
    cases hr : rowExpert em experts p with
    | none => rfl
    | some e =>
      rw [Option.elim_some]
      split
      · rename_i hin
        rw [rowOut_ofRank, rowOut_probe, if_pos hin.2.1]
        by_cases hrow : rows.getD p 0 = i
        · have hlt : p < em := (mem_range.mp hp).trans_le (Nat.div_mul_le_self em blockM)
          rw [if_neg (hserved p e hlt hrow hr), zero_mul]
        · rw [probeW, if_neg hrow, mul_zero]
      · rfl
  · unfold fusedOnLayout at hout
    dsimp only at hout
    rw [fusedMoeMxfp4Cpu_error probeArith (fun i => rows.getD i 0) M topK _ (by omega)] at hout
    cases hout

lemma mask_of_row {plan : MoeEPPlan} {rows : List ℕ} {p i : ℕ}
    (haligned : Aligned (plan.mask ids) M topK blockSize numExperts rows.length rows experts) (hp : rows[p]? = some i)
    (hi : i < M * topK) : plan.mask ids i = ids i ∧ plan.expertBegin ≤ ids i ∧ ids i < plan.expertEnd ∧
      0 ≤ ids i ∧ ids i < numExperts := by
  rcases haligned.only i (mem_of_getElem? hp) with hpad | ⟨_, hlo, hhi⟩
  · omega
  · obtain ⟨hid, hbegin, hend⟩ := mask_nonneg ids hlo
    exact ⟨hid, hbegin, hend, by omega, by omega⟩

lemma row_unique {ids : ℕ → ℤ} {rows : List ℕ} {p q i : ℕ}
    (haligned : Aligned ids M topK blockSize numExperts rows.length rows experts) (hp : rows[p]? = some i)
    (hq : rows[q]? = some i) (hi : i < M * topK) : p = q := by
  have hone : rows.count i = 1 := by
    rcases haligned.only i (mem_of_getElem? hp) with hpad | ⟨_, hlo, hhi⟩
    · omega
    · exact haligned.once i hi hlo hhi
  by_contra hne
  have hdup : Duplicate i rows := by
    rw [duplicate_iff_exists_distinct_get]
    obtain ⟨hplt, hpi⟩ := List.getElem?_eq_some_iff.mp hp
    obtain ⟨hqlt, hqi⟩ := List.getElem?_eq_some_iff.mp hq
    rcases lt_or_gt_of_ne hne with hlt | hlt
    · exact ⟨⟨p, hplt⟩, ⟨q, hqlt⟩, hlt, hpi.symm, hqi.symm⟩
    · exact ⟨⟨q, hqlt⟩, ⟨p, hplt⟩, hlt, hqi.symm, hpi.symm⟩
  have htwo := duplicate_iff_two_le_count.mp hdup
  omega

lemma rank_unique (numExperts ep : ℕ) {rank other : ℕ} {x : ℤ}
    (hlo : planBound numExperts ep rank ≤ x) (hhi : x < planBound numExperts ep (rank + 1))
    (hlo' : planBound numExperts ep other ≤ x) (hhi' : x < planBound numExperts ep (other + 1)) : rank = other := by
  have hmono := planBound_mono numExperts ep
  rcases lt_trichotomy rank other with hlt | heq | hlt
  · have := hmono (show rank + 1 ≤ other from hlt)
    omega
  · exact heq
  · have := hmono (show other + 1 ≤ rank from hlt)
    omega

/-- **A routed row that is not served with its expert** is missing from the ranks' sum. -/
theorem linesUp_of_epMatchesOracle (hblock : 0 < blockSize) (hep : 0 < ep)
    (h : ∀ expert i, EpMatchesOracle probeArith (probeArgs expert) ids (probeW i) M topK numExperts
      blockSize ep) : RanksLineUp ids M topK numExperts blockSize ep := by
  intro rank plan hplan
  obtain ⟨hrank, hbegin, hend⟩ := moeEpPlan_ok hplan
  constructor
  · -- the rank returned, so it read no block beyond the table
    obtain ⟨outs, _, houts, _⟩ := h 0 0
    obtain ⟨o, _, plan', hplan', ho⟩ := (forall₂_mem (fusedMoeMxfp4Ep_ok probeArith _
      (probeW 0) ids M topK hblock hep houts)).1 rank (mem_range.mpr hrank)
    rw [hplan] at hplan'
    cases hplan'
    by_contra hlong
    unfold fusedOnLayout at ho
    dsimp only at ho
    rw [fusedMoeMxfp4Cpu_error probeArith _ M topK _ (by rw [length_map]; omega)] at ho
    cases ho
  · intro p i hp hi
    have haligned := paddedIds_aligned (plan.mask ids) M topK numExperts hblock
    obtain ⟨hid, hlo, hhi, hids⟩ := mask_of_row ids M topK haligned hp hi
    have hexpert := haligned.experts.2 p i hp (ne_of_lt hi)
    by_contra hnot
    -- then no rank serves the row with its expert
    obtain ⟨outs, _, houts, _, hout, hsum⟩ := h (ids i).toNat i
    obtain ⟨_, hout', hone⟩ := oracle_probe ids M topK numExperts hi hids
    rw [hout] at hout'
    cases hout'
    have hzero : ∀ o ∈ outs, o (i / topK) 0 = 0 := by
      intro o ho
      obtain ⟨rank', _, plan', hplan', ho⟩ := (forall₂_mem (fusedMoeMxfp4Ep_ok probeArith
        (probeArgs (ids i).toNat) _ ids M topK hblock hep houts)).2 o ho
      refine rank_probe ids M topK (fun q e hq hrow hr heq => ?_) ho
      have hrow' : (paddedIds (plan'.mask ids) M topK blockSize numExperts)[q]? = some i := by
        rw [getElem?_getD hq, hrow]
      obtain ⟨_, hlo', hhi', _⟩ :=
        mask_of_row ids M topK (paddedIds_aligned (plan'.mask ids) M topK numExperts hblock) hrow' hi
      obtain ⟨_, hbegin', hend'⟩ := moeEpPlan_ok hplan'
      have hsame : rank' = rank := rank_unique numExperts ep (x := ids i) (by omega) (by omega)
        (by omega) (by omega)
      subst hsame
      rw [hplan] at hplan'
      cases hplan'
      have hpos : q = p := row_unique M topK haligned hrow' hp hi
      subst hpos
      apply hnot
      unfold rowExpert blockExpert at hr
      split at hr
      · rename_i hwhole
        refine ⟨hwhole, ?_⟩
        rw [getElem?_map] at hr
        cases hblockExpert : (blockExperts _ M topK blockSize numExperts)[q / blockM]? with
        | none =>
          rw [hblockExpert] at hr
          cases hr
        | some x =>
          rw [hblockExpert, Option.map_some, Option.bind_some] at hr
          split at hr
          · cases hr
          · have := Option.some.inj hr
            rw [hexpert]
            congr 1
            omega
      · cases hr
    have hall : (outs.map fun o => o (i / topK) 0).sum = 0 := by
      apply List.sum_eq_zero
      intro x hx
      obtain ⟨o, ho, rfl⟩ := List.mem_map.mp hx
      exact hzero o ho
    rw [hsum, hone] at hall
    exact one_ne_zero hall

end

/-! ## Which block sizes line up -/

section

lemma paddedIds_single (M : ℕ) (blockSize : ℕ) :
    paddedIds (fun _ => 0) M 1 blockSize 1 = fillUp blockSize M (List.range M) ∧
      blockExperts (fun _ => 0) M 1 blockSize 1 = replicate (blocksFor blockSize M) 0 := by
  have htokens : (collectPerExpert (fun _ => 0) M 1).getD 0 [] = List.range M := by
    rw [getD_collectPerExpert _ 1 (by decide)]
    simp
  constructor
  · rw [paddedIds_eq, mul_one, List.range_one, flatMap_singleton, htokens]
  · rw [blockExperts_eq, mul_one, List.range_one, flatMap_singleton, htokens,
      length_range]
    rfl

lemma singlePlan : moeEpPlan 1 1 0 = .ok ⟨1, 0, 0, 1, 1⟩ := rfl

lemma singleMask (i : ℕ) : MoeEPPlan.mask (fun _ => 0) ⟨1, 0, 0, 1, 1⟩ i = 0 := rfl

lemma sixteen_of_linesUp {blockSize : ℕ} (hblock : 0 < blockSize)
    (h : ∀ M, RanksLineUp (fun _ => 0) M 1 1 blockSize 1) : blockSize = 16 := by
  have hlined : ∀ M, LinedUp (fillUp blockSize M (List.range M))
      (replicate (blocksFor blockSize M) 0) M blockSize := by
    intro M
    have hM := h M 0 _ singlePlan
    rw [show MoeEPPlan.mask (fun _ => 0) ⟨1, 0, 0, 1, 1⟩ = fun _ => 0 from funext singleMask,
      (paddedIds_single M blockSize).1, (paddedIds_single M blockSize).2, mul_one] at hM
    exact hM
  have hrow : ∀ M i, i < M → (fillUp blockSize M (List.range M))[i]? = some i := by
    intro M i hi
    rw [fillUp, getElem?_append_left (by simpa using hi), getElem?_range hi]
  have hlen : ∀ M, (fillUp blockSize M (List.range M)).length = blocksFor blockSize M * blockSize := by
    intro M
    rw [fillUp_length hblock, length_range]
  rcases lt_trichotomy blockSize 16 with hlt | heq | hgt
  · -- one token: its block of 16 is not whole
    have hwhole := ((hlined 1).2 0 0 (hrow 1 0 (by decide)) (by decide)).1
    have hone : blocksFor blockSize 1 = 1 := by
      unfold blocksFor
      rw [Nat.add_sub_cancel_left]
      exact Nat.div_self hblock
    rw [hlen, hone, one_mul, show blockSize / blockM = 0 from Nat.div_eq_of_lt hlt] at hwhole
    exact absurd hwhole (Nat.not_lt_zero _)
  · exact heq
  · -- 17 tokens: the last is in the second block of 16, the table has one entry
    have hsecond := ((hlined 17).2 16 16 (hrow 17 16 (by decide)) (by decide)).2
    have hone : blocksFor blockSize 17 = 1 := by
      unfold blocksFor
      rw [show 17 + blockSize - 1 = 16 + blockSize by omega, Nat.add_div_right _ hblock,
        Nat.div_eq_of_lt hgt]
    rw [hone, show 16 / blockM = 1 from rfl, Nat.div_eq_of_lt hgt] at hsecond
    cases hsecond

end

end VKernels.Moe
