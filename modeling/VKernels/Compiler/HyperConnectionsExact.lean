import VKernels.Compiler.HyperConnections

/-!
# Hyper-connections: the device against the reference

* `laneLogits_eq`, `lanePre_eq`, `lanePost_eq` — the gates on padded lanes.
* `Padded` — a tile that is zero off the block; the passes keep it.
* `device_pre`, `device_post` — the two task bodies store what the reference stores.
-/

namespace VKernels.HyperConnections

open Finset WorkerTasks LaneLaunch
open Wavefront (sum_bounded)
open SplitSoftmax (maxOver maxOver_congr maxOver_succ maximum_none_right)
open Grouping (blocksFor le_blocksFor)
open Blocks (range_blocks)
open List hiding mem_range range sum_nonneg sum_pos

variable {V : Type} [Field V]

/-! ## Padded lanes -/

variable {g : Geometry} {n : ℕ}

lemma overBlocks_eq (p : Padding g) {f h : ℕ → V} (hin : ∀ i < n, f i = h i)
    (hout : ∀ i, n ≤ i → f i = 0) : overBlocks g p n f = ∑ i ∈ range n, h i := by
  have hf : f = fun i => if i < n then h i else 0 := by
    funext i
    split
    · exact hin i ‹_›
    · exact hout i (by omega)
  rw [hf]
  exact sum_masked_blocks p.block_pos n h

/-- A sum of masked lanes that picks lane `r`. -/
lemma sum_pick {r : ℕ} (hr : r < n) {q : Prop} [Decidable q] (hq : q) (f : ℕ → V) :
    (∑ m ∈ range n, if m = r ∧ q then f m else 0) = f r := by
  simp only [hq, and_true]
  exact sum_where_eq hr f

lemma combRow_lt {k j : ℕ} (hk : k < g.hc) (hj : j < g.hc) : combRow g k j < g.mix := by
  have hrow : (k + 1) * g.hc ≤ g.hc * g.hc := Nat.mul_le_mul_right _ hk
  simp only [combRow, Geometry.mix, add_mul] at *
  omega

lemma lt_mix {j : ℕ} (hj : j < g.hc) : g.hc + j < g.mix := by
  simp only [Geometry.mix, add_mul]
  omega

lemma sumOver_some {f : ℕ → Option V} {h : ℕ → V} (hf : ∀ i < n, f i = some (h i)) :
    sumOver n f = some (∑ i ∈ range n, h i) := by
  rw [sumOver_eq hf]
  rfl

/-! ## Maxima -/

section

variable {V : Type} [LinearOrder V]

variable {n : ℕ}

lemma maxOver_padded {lanes : ℕ} (h : n ≤ lanes) {f : ℕ → Option V} (hout : ∀ i, n ≤ i → f i = none) :
    maxOver lanes f = maxOver n f := by
  induction lanes, h using Nat.le_induction with
  | base => rfl
  | succ lanes hle ih => rw [maxOver_succ, hout lanes hle, maximum_none_right, ih]

lemma maxOver_some (hn : 0 < n) (f : ℕ → V) :
    maxOver n (fun i => some (f i)) = some ((maxOver n fun i => some (f i)).getD (f 0)) := by
  obtain ⟨n, rfl⟩ := Nat.exists_eq_add_of_lt hn
  rw [zero_add, maxOver_succ]
  cases maxOver n fun i => some (f i) <;> rfl

end

/-! ## Gates -/

section

variable {exp sqrt : V → V} {g : Geometry} {x : PreData V} {p : Padding g} {b : ℕ}

lemma laneStream_eq {i : ℕ} (hi : i < g.hck) : laneStream g x b i = x.streams (b * g.hck + i) := if_pos hi

lemma laneStream_out {i : ℕ} (hi : g.hck ≤ i) : laneStream g x b i = 0 := if_neg (by omega)

lemma flat_eq {i : ℕ} (hi : i < g.hck) : laneStream g x b i * rstd sqrt g x p b = flat sqrt g x b i := by
  have hss : overBlocks g p g.hck (fun i => laneStream g x b i * laneStream g x b i) =
      ∑ i ∈ range g.hck, x.streams (b * g.hck + i) * x.streams (b * g.hck + i) := by
    refine overBlocks_eq p (fun i hi => ?_) fun i hi => ?_
    · rw [laneStream_eq hi]
    · rw [laneStream_out hi, zero_mul]
  rw [rstd, hss, laneStream_eq hi, mul_one_div, flat]

lemma laneLogits_eq {m : ℕ} (hm : m < g.mix) : laneLogits sqrt g x p b m = logits sqrt g x b m := by
  refine overBlocks_eq p (fun i hi => ?_) fun i hi => ?_
  · rw [if_pos ⟨hm, hi⟩, flat_eq hi]
  · rw [laneStream_out hi, zero_mul, mul_zero]

variable {j : ℕ}

lemma lanePre_eq (hj : j < g.hc) : lanePre exp sqrt g x p b j = pre exp sqrt g x b j := by
  have hmix : j < g.mix := by
    have := lt_mix hj
    omega
  have hw : lanePreW sqrt g x p b j = logits sqrt g x b j := by
    rw [lanePreW, sum_pick (hmix.trans_le p.mix_le) hj, laneLogits_eq hmix]
  rw [lanePre, hw, if_pos hj, pre]

lemma lanePost_eq (hj : j < g.hc) : lanePost exp sqrt g x p b j = post exp sqrt g x b j := by
  have hw : lanePostW sqrt g x p b j = logits sqrt g x b (g.hc + j) := by
    rw [lanePostW, sum_pick ((lt_mix hj).trans_le p.mix_le) hj, laneLogits_eq (lt_mix hj)]
  rw [lanePost, hw, if_pos hj, post]

lemma laneCombLogits_eq {k : ℕ} (h : Valid g k j) :
    laneCombLogits sqrt g x p b k j = some (combLogits sqrt g x b k j) := by
  have hrow := combRow_lt h.1 h.2
  have hw : laneCombW sqrt g x p b k j = logits sqrt g x b (combRow g k j) := by
    rw [laneCombW, sum_where_eq (hrow.trans_le p.mix_le), laneLogits_eq hrow]
  rw [laneCombLogits, if_pos h, if_pos h, hw, combLogits]

lemma laneCombLogits_out {k : ℕ} (h : ¬Valid g k j) : laneCombLogits sqrt g x p b k j = none := if_neg h

variable [LinearOrder V]

lemma rowMax_eq {k : ℕ} (hk : k < g.hc) : (maxOver p.HCP fun h => laneCombLogits sqrt g x p b k h) =
      maxOver g.hc fun j => some (combLogits sqrt g x b k j) := by
  rw [maxOver_padded p.hc_le fun i hi => laneCombLogits_out fun h => Nat.not_lt.mpr hi h.2]
  exact maxOver_congr fun j hj => laneCombLogits_eq ⟨hk, hj⟩

lemma expDiff_eq {k : ℕ} (h : Valid g k j) :
    expDiff exp (laneCombLogits sqrt g x p b k j) (maxOver p.HCP fun h => laneCombLogits sqrt g x p b k h) =
      some (combExp exp sqrt g x b k j) := by
  have hpos : 0 < g.hc := Nat.zero_lt_of_lt h.1
  rw [laneCombLogits_eq h, rowMax_eq h.1, combExp, maxOver_some hpos, Option.getD_some]
  rfl

end

/-! ## Tiles -/

section

variable (g : Geometry) (p : Padding g)

def Padded (t : ℕ → ℕ → Cell V) (M : ℕ → ℕ → V) : Prop :=
  ∀ k < p.HCP, ∀ h < p.HCP, t k h = some (if Valid g k h then M k h else 0)

variable {g p} {t : ℕ → ℕ → Cell V} {M : ℕ → ℕ → V}

lemma whereValid_padded (h : ∀ k j, Valid g k j → t k j = some (M k j)) : Padded g p (whereValid g t) M := by
  intro k _ j _
  unfold whereValid
  split
  · exact h k j ‹_›
  · rfl

variable {j : ℕ}

lemma Padded.at (h : Padded g p t M) {k : ℕ} (hv : Valid g k j) : t k j = some (M k j) := by
  rw [h k (hv.1.trans_le p.hc_le) j (hv.2.trans_le p.hc_le), if_pos hv]

lemma Padded.row_sum (h : Padded g p t M) {k : ℕ} (hk : k < p.HCP) :
    (sumOver p.HCP fun j => t k j) = some (if k < g.hc then ∑ j ∈ range g.hc, M k j else 0) := by
  rw [sumOver_some (h k hk)]
  congr 1
  by_cases hk' : k < g.hc
  · rw [if_pos hk', ← sum_bounded p.hc_le]
    simp [Valid, hk', true_and]
  · simp [Valid, hk']

lemma Padded.column_sum (h : Padded g p t M) (hj : j < p.HCP) :
    (sumOver p.HCP fun k => t k j) = some (if j < g.hc then ∑ k ∈ range g.hc, M k j else 0) := by
  rw [sumOver_some fun k hk => h k hk j hj]
  congr 1
  by_cases hj' : j < g.hc
  · rw [if_pos hj', ← sum_bounded p.hc_le]
    simp [Valid, hj', and_true]
  · simp [Valid, hj']

variable [LinearOrder V]

variable (g) in
def Positive (M : ℕ → ℕ → V) : Prop := ∀ k j, Valid g k j → 0 < M k j

lemma divide_some {a d : V} (hd : d ≠ 0) : divide (some a) (some d) = some (a / d) := if_neg hd

variable [IsStrictOrderedRing V] {x : PreData V} (heps : 0 < x.eps)
include heps

lemma sum_add_pos {n : ℕ} {f : ℕ → V} (hf : ∀ i < n, 0 < f i) : 0 < (∑ i ∈ range n, f i) + x.eps :=
  add_pos_of_nonneg_of_pos (sum_nonneg fun i hi => (hf i (mem_range.mp hi)).le) heps

omit [IsStrictOrderedRing V] in
lemma divide_masked {q r : Prop} [Decidable q] [Decidable r] {a d : V} (hqr : q → r) (hd : r → 0 < d + x.eps) :
    divide (some (if q then a else 0)) (addEps x.eps (some (if r then d else 0))) =
      some (if q then a / (d + x.eps) else 0) := by
  have hne : (if r then d else 0) + x.eps ≠ 0 := by
    split
    · exact (hd ‹_›).ne'
    · rw [zero_add]
      exact heps.ne'
  rw [addEps, Option.map_some, divide_some hne]
  by_cases hq : q
  · rw [if_pos hq, if_pos hq, if_pos (hqr hq)]
  · rw [if_neg hq, if_neg hq, zero_div]

/-- **A column pass** keeps the padding at zero. -/
theorem Padded.columns (h : Padded g p t M) (hM : Positive g M) :
    Padded g p (laneColumns g x p t) (normalizeColumns g x M) := by
  intro k hk j hj
  rw [laneColumns, h k hk j hj, h.column_sum hj]
  exact divide_masked heps (fun hv => hv.2) fun hj' => sum_add_pos heps fun k hk' => hM k j ⟨hk', hj'⟩

/-- **A row pass** keeps the padding at zero. -/
theorem Padded.rows (h : Padded g p t M) (hM : Positive g M) : Padded g p (laneRows g x p t) (normalizeRows g x M) := by
  intro k hk j hj
  rw [laneRows, h k hk j hj, h.row_sum hk]
  exact divide_masked heps (fun hv => hv.1) fun hk' => sum_add_pos heps fun j hj' => hM k j ⟨hk', hj'⟩

lemma Positive.columns (hM : Positive g M) : Positive g (normalizeColumns g x M) := fun k j hv =>
  div_pos (hM k j hv) (sum_add_pos heps fun k hk => hM k j ⟨hk, hv.2⟩)

lemma Positive.rows (hM : Positive g M) : Positive g (normalizeRows g x M) := fun k j hv =>
  div_pos (hM k j hv) (sum_add_pos heps fun j hj => hM k j ⟨hv.1, hj⟩)

lemma column_lt_one (hM : Positive g M) (hj : j < g.hc) : ∑ k ∈ range g.hc, normalizeColumns g x M k j < 1 := by
  simp only [normalizeColumns, ← sum_div]
  rw [div_lt_one (sum_add_pos heps fun k hk => hM k j ⟨hk, hj⟩)]
  exact lt_add_of_pos_right _ heps

end

/-! ## The normalization -/

section

variable [LinearOrder V] [IsStrictOrderedRing V] {exp sqrt : V → V} (hexp : ∀ a, 0 < exp a)
    {g : Geometry} {x : PreData V} (heps : 0 < x.eps) {p : Padding g} {b : ℕ}
include hexp

lemma combExp_sum_pos {k : ℕ} (hpos : 0 < g.hc) : 0 < ∑ j ∈ range g.hc, combExp exp sqrt g x b k j :=
  sum_pos (fun _ _ => hexp _) ⟨0, mem_range.mpr hpos⟩

lemma softmaxRows_padded : Padded g p (laneSoftmaxRows exp sqrt g x p b) (softmaxRows exp sqrt g x b) := by
  refine whereValid_padded fun k j hv => ?_
  have hexps : Padded g p (laneCombExp exp sqrt g x p b) (combExp exp sqrt g x b) :=
    whereValid_padded fun k j hv => expDiff_eq hv
  have hden : 0 < ∑ j ∈ range g.hc, combExp exp sqrt g x b k j := combExp_sum_pos hexp (Nat.zero_lt_of_lt hv.1)
  rw [hexps.row_sum (hv.1.trans_le p.hc_le), hexps.at hv, if_pos hv.1, divide_some hden.ne']
  rfl

include heps

lemma softmaxRows_pos : Positive g (softmaxRows exp sqrt g x b) := fun k j hv => by
  have hden : 0 < ∑ j ∈ range g.hc, combExp exp sqrt g x b k j := combExp_sum_pos hexp (Nat.zero_lt_of_lt hv.1)
  exact add_pos (div_pos (hexp _) hden) heps

lemma combAfter_pos (n : ℕ) : Positive g (combAfter exp sqrt g x b n) := by
  induction n with
  | zero => exact (softmaxRows_pos hexp heps).columns heps
  | succ n ih => exact (ih.rows heps).columns heps

/-- **After every pass** the tile holds the block, and zero in the padding. -/
theorem combAfter_padded (n : ℕ) : Padded g p (tileAfter exp sqrt g x p b n) (combAfter exp sqrt g x b n) := by
  induction n with
  | zero => exact (softmaxRows_padded hexp).columns heps (softmaxRows_pos hexp heps)
  | succ n ih => exact (ih.rows heps (combAfter_pos hexp heps n)).columns heps ((combAfter_pos hexp heps n).rows heps)

lemma rowsAfter_padded (n : ℕ) :
    Padded g p (laneRows g x p (tileAfter exp sqrt g x p b n)) (normalizeRows g x (combAfter exp sqrt g x b n)) :=
  (combAfter_padded hexp heps n).rows heps (combAfter_pos hexp heps n)

lemma combAfter_column (n : ℕ) {j : ℕ} (hj : j < g.hc) : ∑ k ∈ range g.hc, combAfter exp sqrt g x b n k j < 1 := by
  cases n with
  | zero => exact column_lt_one heps (softmaxRows_pos hexp heps) hj
  | succ n => exact column_lt_one heps ((combAfter_pos hexp heps n).rows heps) hj

/-! ## Stores -/

lemma laneComb_eq {k j : ℕ} (hv : Valid g k j) : laneComb exp sqrt g x p b k j = some (comb exp sqrt g x b k j) := by
  rw [laneComb, whereValid, if_pos hv, (combAfter_padded hexp heps _).at hv, comb]

omit [LinearOrder V] [IsStrictOrderedRing V] hexp heps in
lemma laneCollapse_eq {c : ℕ} (hc : c < g.C) : laneCollapse exp sqrt g x p b c =
      ∑ h ∈ range g.hc, pre exp sqrt g x b h * x.streams (b * g.hck + (h * g.C + c)) := by
  refine sum_congr rfl fun h hh => ?_
  have hh' : h < g.hc := mem_range.mp hh
  rw [sum_where_eq (hh'.trans_le p.hc_le), if_pos hc, lanePre_eq hh', add_assoc]

/-- **A device task** stores what the reference stores for the row. -/
theorem preTask_perm : (preTask exp sqrt g x p b).Perm (bodyMhcPre exp sqrt g x b) := by
  have hpost : laneStores p.HCP g.hc (fun h => ((PreOut.post, b * g.hc + h), some (lanePost exp sqrt g x p b h))) =
      (List.range g.hc).map fun j => ((.post, b * g.hc + j), some (post exp sqrt g x b j)) := by
    rw [laneStores_eq p.hc_le]
    refine map_congr_left fun j hj => ?_
    rw [lanePost_eq (mem_range.mp hj)]
  have hcomb : tileStores p.HCP p.HCP g.hc g.hc
      (fun k h => ((PreOut.comb, b * g.hc * g.hc + k * g.hc + h), laneComb exp sqrt g x p b k h)) =
      (List.range g.hc).flatMap fun k => (List.range g.hc).map fun j =>
        ((.comb, b * (g.hc * g.hc) + (k * g.hc + j)), some (comb exp sqrt g x b k j)) := by
    rw [tileStores_eq p.hc_le p.hc_le]
    refine flatMap_congr fun k hk => map_congr_left fun j hj => ?_
    rw [laneComb_eq hexp heps ⟨List.mem_range.mp hk, List.mem_range.mp hj⟩, mul_assoc, add_assoc]
  have hin : blockStores p.BLOCK g.C (fun c => ((PreOut.hIn, b * g.C + c), some (laneCollapse exp sqrt g x p b c))) =
      (List.range g.C).map fun c => ((.hIn, b * g.C + c),
        some (∑ h ∈ range g.hc, pre exp sqrt g x b h * x.streams (b * g.hck + (h * g.C + c)))) := by
    rw [blockStores_eq p.block_pos]
    refine map_congr_left fun c hc => ?_
    rw [laneCollapse_eq (List.mem_range.mp hc)]
  rw [preTask, bodyMhcPre, hpost, hcomb, hin, append_assoc _ _ (flatMap _ _)]
  exact perm_append_comm

omit [Field V] [LinearOrder V] [IsStrictOrderedRing V] hexp heps in
lemma square_keys (n b : ℕ) :
    ((List.range n).flatMap fun k => (List.range n).map fun j => (PreOut.comb, b * (n * n) + (k * n + j))) =
      (List.range (n * n)).map fun i => (PreOut.comb, b * (n * n) + i) := by
  rw [← range_blocks, map_flatMap]
  refine flatMap_congr fun k _ => ?_
  rw [List.map_map]
  rfl

/-- The row lengths of the three outputs. -/
def preWidth (g : Geometry) : PreOut → ℕ
  | .hIn => g.C
  | .post => g.hc
  | .comb => g.hc * g.hc

omit [IsStrictOrderedRing V] hexp heps in
lemma bodyMhcPre_keys (b : ℕ) :
    (bodyMhcPre exp sqrt g x b).map Prod.fst = rowKeys [.hIn, .post, .comb] (preWidth g) b := by
  simp only [bodyMhcPre, map_append, List.map_map, map_flatMap, rowKeys, flatMap_cons, flatMap_nil,
    append_nil, append_assoc, preWidth]
  rw [← square_keys]
  rfl

end

/-! ## Post-compose -/

section

variable {g : Geometry} {y : PostData V} {p : Padding g}

/-- **A device task** stores what the reference stores for its stream. -/
theorem postTask_eq {b j : ℕ} (hj : j < g.hc) : postTask g y p (b * g.hc + j) = bodyMhcPost g y (b, j) := by
  have hpos : 0 < g.hc := Nat.zero_lt_of_lt hj
  simp only [postTask, bodyMhcPost, Blocks.block_div b hj, Blocks.block_mod b hj]
  rw [blockStores_eq p.block_pos]
  refine map_congr_left fun c hc => ?_
  have hc' : c < g.C := mem_range.mp hc
  have hterm (k : ℕ) (hk : k ∈ range g.hc) :
      (∑ l ∈ range p.HCP, if l = k then (if l < g.hc then y.comb (b * g.hc * g.hc + l * g.hc + j) else 0) else 0) *
          (if c < g.C then y.streams (b * g.hc * g.C + k * g.C + c) else 0) =
        y.comb (b * (g.hc * g.hc) + (k * g.hc + j)) * y.streams (b * (g.hc * g.C) + (k * g.C + c)) := by
    have hk' : k < g.hc := mem_range.mp hk
    rw [sum_where_eq (hk'.trans_le p.hc_le), if_pos hk', if_pos hc', mul_assoc, mul_assoc, add_assoc, add_assoc]
  rw [sum_congr rfl hterm, if_pos hc', add_comm (y.post _ * _), ← add_mul]

lemma postTasks_eq : (List.range (g.B * g.hc)).flatMap (postTask g y p) = (postCoords g).flatMap (bodyMhcPost g y) := by
  rw [← range_blocks, postCoords, flatMap_assoc, flatMap_assoc]
  refine flatMap_congr fun b _ => ?_
  rw [flatMap_map, flatMap_map]
  refine flatMap_congr fun j hj => ?_
  exact postTask_eq (mem_range.mp hj)

lemma postKeys_nodup : ((postCoords g).flatMap fun bj => (bodyMhcPost g y bj).map Prod.fst).Nodup := by
  have hkeys : ((postCoords g).flatMap fun bj => (bodyMhcPost g y bj).map Prod.fst) = List.range (g.B * g.hc * g.C) := by
    rw [postCoords, flatMap_assoc, ← range_blocks g.C, ← range_blocks, flatMap_assoc]
    refine flatMap_congr fun b _ => ?_
    rw [flatMap_map, flatMap_map]
    refine flatMap_congr fun j _ => ?_
    rw [bodyMhcPost, List.map_map]
    rfl
  rw [hkeys]
  exact nodup_range

end

/-! ## Launches -/

section

variable [LinearOrder V] [IsStrictOrderedRing V]

/-- Three streams, on tiles of width four. -/
def threeStreams : Geometry := ⟨1, 3, 5, 2, Nat.le_succ 1⟩

end

end VKernels.HyperConnections
