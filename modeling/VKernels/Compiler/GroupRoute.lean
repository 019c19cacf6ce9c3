import VKernels.Lib.FloatValues
import VKernels.Lib.RankedLanes
import Mathlib.Algebra.Field.Rat
import Mathlib.Algebra.Order.Ring.Rat

/-!
# Group-limited routing

The router of a mixture of experts: what `moe_route` accepts, and its reference body for one row. Two selections
are nested: the groups with the best top-2 sums, then the best experts under a mask of `-inf` on the others.

* `moeRoute` — the body; `choiceOf` is its biased score, `groupScore` the top-2 sum.

## Results

* `learned_ids` — the experts the body selects, in terms of the pool.
* `group_route_exact_iff` — the routing is right exactly when enough experts of the pool come before every other
  one; of finite scores, when `k` is at most the pool. The capture lets `k` reach twice the pool.
-/

namespace VKernels.Compiler

open TopK
open List hiding not_lt

/-! ## Capture -/

namespace Route

inductive ScalarType where
  | i32
  | f32
  | other (name : String)
  deriving DecidableEq, Repr

def ScalarType.text : ScalarType → String
  | i32 => "i32"
  | f32 => "f32"
  | other name => name

inductive Mode where
  | learned
  | hash
  | other (text : String)
  deriving DecidableEq, Repr

def Mode.text : Mode → String
  | learned => "learned"
  | hash => "hash"
  | other text => text

inductive ScoreFn where
  | sqrtsoftplus
  | sigmoidNoauxTc
  | other (text : String)
  deriving DecidableEq, Repr

def ScoreFn.text : ScoreFn → String
  | sqrtsoftplus => "sqrtsoftplus"
  | sigmoidNoauxTc => "sigmoid_noaux_tc"
  | other text => text

structure Tensor where
  shape : List ℕ
  dtype : ScalarType
  deriving DecidableEq, Repr

/-- The arguments of `moe_route`; `x` is `[b, h]`, the router weight `[e, h_w]`. -/
structure Request where
  b : ℕ
  h : ℕ
  e : ℕ
  hW : ℕ
  ids : Tensor
  weights : Tensor
  mode : Mode := .learned
  scoreFn : ScoreFn := .sqrtsoftplus
  topK : Option ℕ := none
  bias : Option Tensor := none
  nGroup : ℕ := 1
  topkGroup : ℕ := 1
  normTopkProb : Bool := true
  tid2eid : Option Tensor := none
  tokenIds : Option Tensor := none
  name : String := "moe_route"

/-- The attributes of the recorded operation that its body reads. -/
structure Attrs where
  mode : Mode
  scoreFn : ScoreFn
  topK : ℕ
  numExperts : ℕ
  nGroup : ℕ := 1
  topkGroup : ℕ := 1
  normTopkProb : Bool := false
  routedBias : Bool := false
  deriving DecidableEq, Repr

/-- A shape as Python prints it. -/
def tupleText : List ℕ → String
  | [n] => s!"({n},)"
  | l => "(" ++ String.intercalate ", " (l.map toString) ++ ")"

def Request.k (req : Request) : ℕ := req.topK.getD (req.weights.shape.getD 1 0)

def checkHash (req : Request) (attrs : Attrs) : Except String Attrs :=
  match req.tid2eid, req.tokenIds with
  | some tid2eid, some tokenIds =>
    if tid2eid.dtype ≠ .i32 ∨ tid2eid.shape.getD 1 0 ≠ attrs.topK then
      .error s!"{req.name}: tid2eid must be i32 [V, k={attrs.topK}], got {tupleText tid2eid.shape}"
    else if tokenIds.dtype ≠ .i32 ∨ tokenIds.shape ≠ [req.b] then
      .error s!"{req.name}: token_ids must be i32 [B={req.b}], got {tupleText tokenIds.shape}"
    else if req.scoreFn ≠ .sqrtsoftplus then
      .error s!"{req.name}: hash routing (DeepSeek-V4) uses the sqrtsoftplus score; got '{req.scoreFn.text}'"
    else .ok attrs
  | _, _ => .error s!"{req.name}: hash routing requires tid2eid [V, k] and token_ids [B]"

/-- The checks of the group-limited family. -/
def checkNoauxTc (req : Request) (attrs : Attrs) : Except String Attrs :=
  match req.bias with
  | none => .error s!"{req.name}: sigmoid_noaux_tc requires the e_score_correction_bias [E]"
  | some bias =>
    if bias.shape ≠ [req.e] then
      .error s!"{req.name}: bias must be [E={req.e}], got {tupleText bias.shape}"
    else if req.nGroup < 1 ∨ req.e % req.nGroup ≠ 0 then
      .error s!"{req.name}: n_group={req.nGroup} must divide E={req.e}"
    else if ¬(1 ≤ req.topkGroup ∧ req.topkGroup ≤ req.nGroup) then
      .error s!"{req.name}: topk_group={req.topkGroup} outside [1, n_group={req.nGroup}]"
    else if 2 * req.topkGroup * (req.e / req.nGroup) < attrs.topK then
      let pool := 2 * req.topkGroup * (req.e / req.nGroup)
      .error s!"{req.name}: top_k={attrs.topK} exceeds the group-restricted selection pool ({pool})"
    else if bias.dtype ≠ .f32 then
      .error s!"{req.name}: bias must be f32, got {bias.dtype.text}"
    else .ok { attrs with
      nGroup := req.nGroup
      topkGroup := req.topkGroup
      normTopkProb := req.normTopkProb
      routedBias := true }

/-- `moe_route` up to the record. -/
def captureMoeRoute (req : Request) : Except String Attrs :=
  let k := req.k
  let attrs : Attrs := { mode := req.mode, scoreFn := req.scoreFn, topK := k, numExperts := req.e }
  if req.hW ≠ req.h then
    .error s!"{req.name}: router weight contraction mismatch ({req.hW} != {req.h})"
  else if req.ids.dtype ≠ .i32 ∨ req.weights.dtype ≠ .f32 then
    .error (s!"{req.name}: routing table must be i32 ids + f32 weights, " ++
      s!"got {req.ids.dtype.text}/{req.weights.dtype.text}")
  else if req.ids.shape ≠ [req.b, k] ∨ req.weights.shape ≠ [req.b, k] then
    .error (s!"{req.name}: routing table must be [B={req.b}, k={k}], " ++
      s!"got {tupleText req.ids.shape}/{tupleText req.weights.shape}")
  else if k < 1 ∨ req.e < k then
    .error s!"{req.name}: top_k={k} outside [1, E={req.e}]"
  else match req.mode, req.scoreFn with
    | .hash, _ => checkHash req attrs
    | .learned, .sigmoidNoauxTc => checkNoauxTc req attrs
    | .learned, .sqrtsoftplus => .ok { attrs with normTopkProb := true }
    | mode, scoreFn =>
      .error s!"{req.name}: unsupported router family mode='{mode.text}' score_fn='{scoreFn.text}'"

/-- What an accepted group-limited request satisfies. -/
structure Grouped (attrs : Attrs) : Prop where
  scoreFn : attrs.scoreFn = .sigmoidNoauxTc
  mode : attrs.mode = .learned
  bias : attrs.routedBias = true
  k_pos : 1 ≤ attrs.topK
  k_le : attrs.topK ≤ attrs.numExperts
  nGroup_pos : 1 ≤ attrs.nGroup
  divides : attrs.nGroup ∣ attrs.numExperts
  topk_pos : 1 ≤ attrs.topkGroup
  topk_le : attrs.topkGroup ≤ attrs.nGroup
  bound : attrs.topK ≤ 2 * attrs.topkGroup * (attrs.numExperts / attrs.nGroup)

lemma checkNoauxTc_ok {req : Request} {attrs attrs' : Attrs} (h : checkNoauxTc req attrs = .ok attrs') :
    attrs' = { attrs with
      nGroup := req.nGroup
      topkGroup := req.topkGroup
      normTopkProb := req.normTopkProb
      routedBias := true } ∧
    1 ≤ req.nGroup ∧ req.nGroup ∣ req.e ∧ 1 ≤ req.topkGroup ∧ req.topkGroup ≤ req.nGroup ∧
    attrs.topK ≤ 2 * req.topkGroup * (req.e / req.nGroup) := by
  unfold checkNoauxTc at h
  split at h
  · cases h
  · split at h
    · cases h
    split at h
    · cases h
    rename_i hgroup
    split at h
    · cases h
    rename_i htopk
    split at h
    · cases h
    rename_i hpool
    split at h
    · cases h
    rw [not_or, not_lt, not_not] at hgroup
    obtain ⟨hlow, hhigh⟩ := not_not.mp htopk
    exact ⟨(Except.ok.inj h).symm, hgroup.1, Nat.dvd_of_mod_eq_zero hgroup.2, hlow, hhigh, not_lt.mp hpool⟩

lemma captureMoeRoute_grouped {req : Request} {attrs : Attrs} (h : captureMoeRoute req = .ok attrs)
    (hmode : attrs.mode = .learned) (hfn : attrs.scoreFn = .sigmoidNoauxTc) : Grouped attrs := by
  unfold captureMoeRoute at h
  dsimp only at h
  split at h
  · cases h
  split at h
  · cases h
  split at h
  · cases h
  split at h
  · cases h
  rename_i hk
  rw [not_or, not_lt, not_lt] at hk
  split at h
  · rename_i heq
    unfold checkHash at h
    split at h
    · split at h
      · cases h
      split at h
      · cases h
      split at h
      · cases h
      rw [← Except.ok.inj h, heq] at hmode
      cases hmode
    · cases h
  · obtain ⟨rfl, hpos, hdvd, hlow, hhigh, hpool⟩ := checkNoauxTc_ok h
    exact ⟨hfn, hmode, rfl, hk.1, hk.2, hpos, hdvd, hlow, hhigh, hpool⟩
  · rename_i heq
    rw [← Except.ok.inj h] at hfn
    exact absurd (heq.symm.trans hfn) (by decide)
  · cases h

end Route

variable {R : Type} [LinearOrder R] [Zero R]

/-! ## The body -/

/-- `_moe_topk_stable`: of `n` values the first `k` of a stable descending sort. -/
def moeTopkStable (n : ℕ) (choice : ℕ → Fp R) (k : ℕ) : List ℕ := (descending n choice).take k

/-- `np.sort` of one row: ascending, NaN last. -/
def npSort (row : List (Fp R)) : List (Fp R) := row.mergeSort fun a b => b.isNaN || (!a.isNaN && decide (a ≤ b))

/-- `choice.reshape(n_group, e // n_group)[g]`. -/
def groupRow (size : ℕ) (choice : ℕ → Fp R) (g : ℕ) : List (Fp R) :=
  (range size).map fun t => choice (g * size + t)

def groupScore (arith : Fp.Arith R) (size : ℕ) (choice : ℕ → Fp R) (g : ℕ) : Fp R :=
  arith.sum ((npSort (groupRow size choice g)).reverse.take 2)

/-- `-inf`, and 0 on the groups of `gOrder`. -/
def groupMask (size : ℕ) (gOrder : List ℕ) : ℕ → Fp R :=
  gOrder.foldl (fun mask g i => if g * size ≤ i ∧ i < (g + 1) * size then .fin 0 else mask i) fun _ => .negInf

/-- The biased scores before the mask. -/
def choiceOf (arith : Fp.Arith R) (attrs : Route.Attrs) (scores bias : ℕ → Fp R) (j : ℕ) : Fp R :=
  if attrs.routedBias then arith.add (scores j) (bias j) else scores j

def learnedSel (arith : Fp.Arith R) (attrs : Route.Attrs) (scores bias : ℕ → Fp R) : List ℕ :=
  let e := attrs.numExperts
  let choice := choiceOf arith attrs scores bias
  let choice :=
    if attrs.scoreFn = .sigmoidNoauxTc ∧ 1 < attrs.nGroup then
      let size := e / attrs.nGroup
      let gOrder := moeTopkStable attrs.nGroup (groupScore arith size choice) attrs.topkGroup
      fun j => arith.add (choice j) (groupMask size gOrder j)
    else choice
  moeTopkStable e choice attrs.topK

/-- `w / (w.sum() + 1e-20)`. -/
def renorm (arith : Fp.Arith R) (tiny : Fp R) (w : List (Fp R)) : List (Fp R) :=
  w.map fun s => arith.div s (arith.add (arith.sum w) tiny)

/-- `_body_moe_route` for one row from its unbiased scores on: the ids and the weights. `hashRow` is the row of
`tid2eid` for the token. -/
def moeRoute (arith : Fp.Arith R) (tiny scale : Fp R) (attrs : Route.Attrs) (scores bias : ℕ → Fp R)
    (hashRow : List ℕ) : List ℕ × List (Fp R) :=
  if attrs.mode = .hash then
    (hashRow, (renorm arith tiny (hashRow.map scores)).map fun s => arith.mul s scale)
  else
    let sel := learnedSel arith attrs scores bias
    let w := sel.map scores
    let w := if attrs.normTopkProb then renorm arith tiny w else w
    (sel, w.map fun s => arith.mul s scale)

/-! ## What the routing is for -/

/-- Expert `j` belongs to one of the `topk_group` groups with the best top-2 sums. -/
def InPool (arith : Fp.Arith R) (attrs : Route.Attrs) (choice : ℕ → Fp R) (j : ℕ) : Prop :=
  Chosen attrs.nGroup (groupScore arith (attrs.numExperts / attrs.nGroup) choice) attrs.topkGroup
    (j / (attrs.numExperts / attrs.nGroup))

instance (arith : Fp.Arith R) (attrs : Route.Attrs) (choice : ℕ → Fp R) : DecidablePred (InPool arith attrs choice) :=
  fun _ => inferInstanceAs (Decidable (Chosen _ _ _ _))

/-- The pool, best biased score first, ties to the lower expert. -/
def bestOfPool (arith : Fp.Arith R) (attrs : Route.Attrs) (choice : ℕ → Fp R) : List ℕ :=
  ranked (fun j => decide (InPool arith attrs choice j)) attrs.numExperts choice

/-- What the group-limited routing is for. -/
structure Routes (arith : Fp.Arith R) (tiny scale : Fp R) (attrs : Route.Attrs) (scores bias : ℕ → Fp R) : Prop where
  distinct : (moeRoute arith tiny scale attrs scores bias []).1.Nodup
  count : (moeRoute arith tiny scale attrs scores bias []).1.length = attrs.topK
  /-- Every expert belongs to a selected group. -/
  grouped : ∀ j ∈ (moeRoute arith tiny scale attrs scores bias []).1,
    InPool arith attrs (choiceOf arith attrs scores bias) j
  /-- The best `k` of the pool. -/
  best : (moeRoute arith tiny scale attrs scores bias []).1 =
    (bestOfPool arith attrs (choiceOf arith attrs scores bias)).take attrs.topK
  /-- The weights are the unbiased scores of these experts, over their sum where asked for, and scaled. -/
  weights : (moeRoute arith tiny scale attrs scores bias []).2 =
    (moeRoute arith tiny scale attrs scores bias []).1.map fun j =>
      arith.mul (if attrs.normTopkProb then arith.div (scores j)
        (arith.add (arith.sum ((moeRoute arith tiny scale attrs scores bias []).1.map scores)) tiny)
        else scores j) scale

/-- At least `k` experts of the pool come before every other expert, whose score the mask lowers. -/
def PoolSuffices (arith : Fp.Arith R) (attrs : Route.Attrs) (choice : ℕ → Fp R) : Prop :=
  ∀ j < attrs.numExperts, ¬InPool arith attrs choice j →
    attrs.topK ≤ (range attrs.numExperts).countP fun x => decide (InPool arith attrs choice x ∧
      ((choice j).lowered < choice x ∨ choice x = (choice j).lowered ∧ x < j))

section

variable {R : Type} [Zero R] {size : ℕ}

lemma in_group_iff (hsize : 0 < size) {g i : ℕ} : g * size ≤ i ∧ i < (g + 1) * size ↔ i / size = g := by
  rw [Nat.div_eq_iff hsize, Nat.succ_mul]
  omega

lemma groupMask_eq (hsize : 0 < size) (gOrder : List ℕ) (i : ℕ) :
    groupMask size gOrder i = if i / size ∈ gOrder then (.fin 0 : Fp R) else .negInf := by
  induction gOrder using reverseRecOn with
  | nil => simp [groupMask]
  | append_singleton gOrder g ih =>
    have hstep : (groupMask size (gOrder ++ [g]) i : Fp R) =
        if g * size ≤ i ∧ i < (g + 1) * size then .fin 0 else groupMask size gOrder i := by
      unfold groupMask
      rw [foldl_append]
      rfl
    rw [hstep, ih]
    by_cases hg : i / size = g
    · rw [if_pos ((in_group_iff hsize).mpr hg), if_pos (by simp [hg])]
    · rw [if_neg fun h => hg ((in_group_iff hsize).mp h)]
      refine if_congr ?_ rfl rfl
      rw [mem_append, mem_singleton]
      exact ⟨.inl, fun h => h.resolve_right hg⟩

end

/-! ## The selection -/

section

variable {arith : Fp.Arith R} {tiny scale : Fp R} {attrs : Route.Attrs}
    {scores bias choice : ℕ → Fp R}

lemma size_pos (h : Route.Grouped attrs) : 0 < attrs.numExperts / attrs.nGroup :=
  Nat.div_pos (Nat.le_of_dvd (h.k_pos.trans h.k_le) h.divides) h.nGroup_pos

lemma nGroup_mul_size (h : Route.Grouped attrs) : attrs.nGroup * (attrs.numExperts / attrs.nGroup) = attrs.numExperts :=
  Nat.mul_div_cancel' h.divides

lemma group_lt (h : Route.Grouped attrs) {j : ℕ} (hj : j < attrs.numExperts) :
    j / (attrs.numExperts / attrs.nGroup) < attrs.nGroup := by
  rw [Nat.div_lt_iff_lt_mul (size_pos h), nGroup_mul_size h]
  exact hj

/-- The score after the mask: what is outside the pool is lowered. -/
def maskedChoice (arith : Fp.Arith R) (attrs : Route.Attrs) (choice : ℕ → Fp R) (j : ℕ) : Fp R :=
  if InPool arith attrs choice j then choice j else (choice j).lowered

section

variable (h : Route.Grouped attrs)
include h

lemma inPool_of_one (hone : ¬1 < attrs.nGroup) {j : ℕ} (hj : j < attrs.numExperts) : InPool arith attrs choice j := by
  have hzero : j / (attrs.numExperts / attrs.nGroup) = 0 :=
    Nat.lt_one_iff.mp ((group_lt h hj).trans_le (not_lt.mp hone))
  have hcard : ((Finset.range attrs.nGroup).filter fun u =>
      Beats (groupScore arith (attrs.numExperts / attrs.nGroup) choice) u 0).card = 0 := by
    rw [Finset.card_eq_zero, Finset.filter_eq_empty_iff]
    intro u hu hbeats
    have : u = 0 := by
      rw [Finset.mem_range] at hu
      omega
    exact hbeats.ne this
  rw [InPool, hzero, Chosen, hcard]
  exact h.topk_pos

lemma learned_ids : learnedSel arith attrs scores bias =
    (descending attrs.numExperts (maskedChoice arith attrs (choiceOf arith attrs scores bias))).take attrs.topK := by
  have hcongr {f g : ℕ → Fp R} (hfg : ∀ j < attrs.numExperts, f j = g j) :
      descending attrs.numExperts f = descending attrs.numExperts g := by
    rw [← ranked_true, ← ranked_true]
    exact ranked_congr fun j hj _ => hfg j hj
  unfold learnedSel moeTopkStable
  dsimp only
  rw [h.scoreFn]
  by_cases hone : 1 < attrs.nGroup
  · rw [if_pos ⟨rfl, hone⟩]
    refine congrArg _ (hcongr fun j hj => ?_)
    rw [groupMask_eq (size_pos h), maskedChoice]
    have hiff := mem_take_descending (K := attrs.topkGroup)
      (f := groupScore arith (attrs.numExperts / attrs.nGroup) (choiceOf arith attrs scores bias)) (group_lt h hj)
    by_cases hin : InPool arith attrs (choiceOf arith attrs scores bias) j
    · rw [if_pos (hiff.mpr hin), if_pos hin, arith.add_zero]
    · rw [if_neg fun hmem => hin (hiff.mp hmem), if_neg hin, arith.add_negInf]
  · rw [if_neg fun hand => hone hand.2]
    refine congrArg _ (hcongr fun j hj => ?_)
    rw [maskedChoice, if_pos (inPool_of_one h hone hj)]

lemma moeRoute_fst : (moeRoute arith tiny scale attrs scores bias []).1 = learnedSel arith attrs scores bias := by
  unfold moeRoute
  rw [h.mode, if_neg (by decide)]

lemma moeRoute_snd : (moeRoute arith tiny scale attrs scores bias []).2 =
    (learnedSel arith attrs scores bias).map fun j => arith.mul (if attrs.normTopkProb then arith.div (scores j)
        (arith.add (arith.sum ((learnedSel arith attrs scores bias).map scores)) tiny) else scores j) scale := by
  unfold moeRoute renorm
  rw [h.mode, if_neg (by decide)]
  cases attrs.normTopkProb <;> simp

lemma countP_inPool : (range attrs.numExperts).countP (fun j => decide (InPool arith attrs choice j)) =
      attrs.topkGroup * (attrs.numExperts / attrs.nGroup) := by
  have hblocks := countP_blocks (n := attrs.nGroup) (size_pos h) fun g =>
    decide (Chosen attrs.nGroup (groupScore arith (attrs.numExperts / attrs.nGroup) choice) attrs.topkGroup g)
  rw [nGroup_mul_size h, countP_chosen h.topk_le] at hblocks
  exact hblocks

end

lemma beats_masked_iff {x j : ℕ} (hj : ¬InPool arith attrs choice j) :
    (InPool arith attrs choice x ∧ Beats (maskedChoice arith attrs choice) x j) ↔
      InPool arith attrs choice x ∧ ((choice j).lowered < choice x ∨ choice x = (choice j).lowered ∧ x < j) := by
  refine and_congr_right fun hx => ?_
  unfold Beats maskedChoice
  rw [if_pos hx, if_neg hj]

lemma grouped_iff (h : Route.Grouped attrs) :
    (∀ j ∈ learnedSel arith attrs scores bias, InPool arith attrs (choiceOf arith attrs scores bias) j) ↔
      PoolSuffices arith attrs (choiceOf arith attrs scores bias) := by
  have hk : attrs.topK ≤ (descending attrs.numExperts
      (maskedChoice arith attrs (choiceOf arith attrs scores bias))).length := by
    rw [descending_length]
    exact h.k_le
  have htake := take_all_iff (fun _ _ hab => hab.asymm) (descending_pairwise (n := attrs.numExperts)
    (f := maskedChoice arith attrs _))
    (p := fun j => decide (InPool arith attrs (choiceOf arith attrs scores bias) j)) hk
  rw [← learned_ids h] at htake
  simp only [decide_eq_true_iff, decide_eq_false_iff_not, mem_descending] at htake
  rw [htake]
  refine forall_congr' fun j => forall_congr' fun _ => forall_congr' fun hj => ?_
  rw [descending_perm.countP_eq]
  refine Eq.to_iff (congrArg _ (countP_congr fun x _ => ?_))
  rw [decide_eq_true_iff, ← beats_masked_iff hj, Bool.and_eq_true_iff, decide_eq_true_iff, decide_eq_true_iff]

/-- **The routing is right** exactly when the pool suffices. -/
theorem routes_iff (h : Route.Grouped attrs) : Routes arith tiny scale attrs scores bias ↔
    PoolSuffices arith attrs (choiceOf arith attrs scores bias) := by
  rw [← grouped_iff h]
  constructor
  · intro hroutes
    have hgrouped := hroutes.grouped
    rwa [moeRoute_fst h] at hgrouped
  · intro hgrouped
    refine ⟨?_, ?_, ?_, ?_, ?_⟩
    · rw [moeRoute_fst h, learned_ids h]
      exact descending_nodup.sublist (take_sublist _ _)
    · rw [moeRoute_fst h, learned_ids h, length_take, descending_length]
      exact min_eq_left h.k_le
    · rwa [moeRoute_fst h]
    · rw [moeRoute_fst h]
      rw [learned_ids h] at hgrouped ⊢
      have hfilter := take_filter (p := fun j => decide _)
        (fun j hj => decide_eq_true (hgrouped j hj)) (by rw [descending_length]; exact h.k_le)
      rw [← hfilter]
      refine congrArg _ ?_
      refine ranked_congr fun j _ hj => ?_
      rw [maskedChoice, if_pos (of_decide_eq_true hj)]
    · rw [moeRoute_snd h, moeRoute_fst h]

lemma poolSuffices_finite (h : Route.Grouped attrs) (hfinite : ∀ j < attrs.numExperts, (choice j).isFinite = true) :
    PoolSuffices arith attrs choice ↔ attrs.topK ≤ attrs.topkGroup * (attrs.numExperts / attrs.nGroup) := by
  have hcount {j : ℕ} (hj : j < attrs.numExperts) :
      (range attrs.numExperts).countP (fun x => decide (InPool arith attrs choice x ∧
        ((choice j).lowered < choice x ∨ choice x = (choice j).lowered ∧ x < j))) =
      attrs.topkGroup * (attrs.numExperts / attrs.nGroup) := by
    have hpool : (range attrs.numExperts).countP (fun j => decide (InPool arith attrs choice j)) = _ := countP_inPool h
    rw [← hpool]
    refine countP_congr fun x hx => ?_
    rw [decide_eq_true_iff, decide_eq_true_iff]
    refine ⟨And.left, fun hin => ⟨hin, .inl ?_⟩⟩
    have hx := hfinite x (mem_range.mp hx)
    have hj := hfinite j hj
    cases hcx : choice x with
    | fin s =>
      cases hcj : choice j with
      | fin t => exact Fp.negInf_lt_fin s
      | _ => simp [hcj, Fp.isFinite] at hj
    | _ => simp [hcx, Fp.isFinite] at hx
  constructor
  · intro hsuffices
    by_cases hout : ∃ j < attrs.numExperts, ¬InPool arith attrs choice j
    · obtain ⟨j, hj, hjout⟩ := hout
      have := hsuffices j hj hjout
      rwa [hcount hj] at this
    · -- the pool is everything
      push Not at hout
      have hpool : (range attrs.numExperts).countP (fun j => decide (InPool arith attrs choice j)) = _ :=
        countP_inPool h
      rw [← hpool, countP_eq_length.mpr, length_range]
      · exact h.k_le
      · exact fun j hj => decide_eq_true (hout j (mem_range.mp hj))
  · intro hk j hj _
    rwa [hcount hj]

/-- **Group-limited routing is right** for what the capture accepts when and only when enough experts of the pool
come before every other one; of finite biased scores, when and only when `k` is at most the pool. -/
theorem group_route_exact_iff {req : Route.Request} (h : Route.captureMoeRoute req = .ok attrs)
    (hmode : attrs.mode = .learned) (hfn : attrs.scoreFn = .sigmoidNoauxTc) (arith : Fp.Arith R) (tiny scale : Fp R)
    (scores bias : ℕ → Fp R) :
    (Routes arith tiny scale attrs scores bias ↔ PoolSuffices arith attrs (choiceOf arith attrs scores bias)) ∧
    ((∀ j < attrs.numExperts, (choiceOf arith attrs scores bias j).isFinite = true) →
      (Routes arith tiny scale attrs scores bias ↔
        attrs.topK ≤ attrs.topkGroup * (attrs.numExperts / attrs.nGroup))) := by
  have hgrouped := Route.captureMoeRoute_grouped h hmode hfn
  refine ⟨routes_iff hgrouped, fun hfinite => ?_⟩
  rw [routes_iff hgrouped, poolSuffices_finite hgrouped hfinite]

end

/-! ## Four experts in two groups -/

/-- Four experts in two groups, one of them used. -/
def fourExperts (k : ℕ) : Route.Request where
  b := 1
  h := 8
  e := 4
  hW := 8
  ids := ⟨[1, k], .i32⟩
  weights := ⟨[1, k], .f32⟩
  scoreFn := .sigmoidNoauxTc
  bias := some ⟨[4], .f32⟩
  nGroup := 2

def fourExpertsAttrs (k : ℕ) : Route.Attrs where
  mode := .learned
  scoreFn := .sigmoidNoauxTc
  topK := k
  numExperts := 4
  nGroup := 2
  normTopkProb := true
  routedBias := true

/-- Two of the four, whatever the scores: the pool has two. -/
theorem group_route_exact_two : Routes Fp.Arith.exact (.fin (1 / 10 ^ 20)) (.fin 1) (fourExpertsAttrs 2)
    (fun j => Fp.fin ((j : ℚ) / 4)) fun _ => .fin 0 :=
  ((group_route_exact_iff (show Route.captureMoeRoute (fourExperts 2) = _ from rfl) rfl rfl Fp.Arith.exact (.fin (1 / 10 ^ 20)) (.fin 1)
    (fun j => Fp.fin ((j : ℚ) / 4)) fun _ => .fin 0).2 fun _ _ => rfl).mpr (by decide)

/-- Three of the four: the third comes from the other group. -/
theorem group_route_outside : Route.captureMoeRoute (fourExperts 3) = .ok (fourExpertsAttrs 3) ∧
    ¬Routes Fp.Arith.exact (.fin (1 / 10 ^ 20)) (.fin 1) (fourExpertsAttrs 3) (fun _ => Fp.fin (1 / 2 : ℚ))
      fun _ => .fin 0 := by
  refine ⟨rfl, fun h => ?_⟩
  have hgrouped : Route.Grouped (fourExpertsAttrs 3) :=
    Route.captureMoeRoute_grouped (show Route.captureMoeRoute (fourExperts 3) = _ from rfl) rfl rfl
  have hsuffices := (routes_iff hgrouped).mp h
  rw [poolSuffices_finite hgrouped fun _ _ => rfl] at hsuffices
  revert hsuffices
  decide

end VKernels.Compiler
