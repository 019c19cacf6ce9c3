import VKernels.Lib.FloatValues
import VKernels.Lib.LaneLaunch
import VKernels.Lib.TopK

/-!
# The fused router

One row of the kernels `_router` and `_router_shared` of `torch_ops/glm_router.py`, against
`fused_router_reference`.

* `routerRound` — one turn of the selection loop; `router`, `routerShared` — the row that each stores.
* `Selects` — distinct experts, the first of the stable descending order, with the reference's weights.

## Results

* `firstOfMax_eq` — the lowest lane that attains the maximum.
* `routerLoop_eq` — the loop is that of rounds with `-inf` as the sentinel.
* `fused_router_iff` — both kernels select exactly when no expert but the first is chosen with `-inf`.
* `fused_router_repeats` — a row where one is.
-/

namespace VKernels.FusedRouter

open TopK LaneLaunch
open List

/-- The operations of the two: the sum over lanes of a program, and torch's sum of a row. -/
structure Machine (R : Type) [Zero R] extends Fp.Arith R where
  laneSum : ℕ → (ℕ → Fp R) → Fp R
  laneSum_single : ∀ (n i : ℕ) (f : ℕ → Fp R), i < n → (∀ j, j ≠ i → f j = .fin 0) → laneSum n f = f i
  sum_eq : ∀ l, sum l = l.foldl add (.fin 0)

variable {R : Type} [LinearOrder R]

section

variable [Zero R]

/-- What a row's program reads; `tiny` is `1.0e-20`. -/
structure Row (R : Type) where
  E : ℕ
  K : ℕ
  logits : ℕ → Fp R
  bias : ℕ → Fp R
  scaling : Fp R
  tiny : Fp R
  one : Fp R
  norm : Bool

/-- The vectors of the loop, and what it has stored. -/
structure Loop (R : Type) where
  used : ℕ → Bool
  weights : ℕ → Fp R
  total : Fp R
  ids : List ℕ

variable (ar : Machine R) (sigmoid : Fp R → Fp R) (r : Row R)

def laneLogits (e : ℕ) : Fp R := if e < r.E then r.logits e else .fin 0

def laneChoice (e : ℕ) : Fp R :=
  if e < r.E then ar.add (sigmoid (laneLogits r e)) (r.bias e) else .negInf

/-- `tl.min(tl.where(cand == tl.max(cand), e, BLOCK_E))`. -/
def firstOfMax (lanes : ℕ) (cand : ℕ → Fp R) : ℕ :=
  let best := (List.range lanes).foldl (fun m e => max m (cand e)) .nan
  (List.range lanes).foldl (fun m e => min m (if (cand e).eq best then e else lanes)) lanes

def routerRound (i : ℕ) (s : Loop R) : Loop R :=
  let lanes := nextPowerOf2 r.E
  let cand := fun e => if s.used e then .negInf else laneChoice ar sigmoid r e
  let first := firstOfMax lanes cand
  let value := ar.laneSum lanes fun e => if e = first then sigmoid (laneLogits r e) else .fin 0
  { used := fun e => s.used e || e == first
    weights := fun k => if k = i then value else s.weights k
    total := ar.add s.total value
    ids := s.ids ++ [first] }

def routerLoop : ℕ → Loop R
  | 0 => ⟨fun _ => false, fun _ => .fin 0, .fin 0, []⟩
  | i + 1 => routerRound ar sigmoid r i (routerLoop i)

/-- The weights that the masked store leaves. -/
def storedWeights (s : Loop R) : List (Fp R) :=
  let weights := fun k => if r.norm then ar.div (s.weights k) (ar.add s.total r.tiny) else s.weights k
  ((List.range (nextPowerOf2 r.K)).filter (· < r.K)).map fun k => ar.mul (weights k) r.scaling

/-- `_router`: the ids and weights of a row. -/
def router : List ℕ × List (Fp R) :=
  let s := routerLoop ar sigmoid r r.K
  (s.ids, storedWeights ar r s)

/-- `_router_shared`: one column more. -/
def routerShared : List ℕ × List (Fp R) :=
  let s := routerLoop ar sigmoid r r.K
  (s.ids ++ [r.E], storedWeights ar r s ++ [r.one])

/-! ## The reference -/

def scores (e : ℕ) : Fp R := sigmoid (r.logits e)

def choice (e : ℕ) : Fp R := ar.add (scores sigmoid r e) (r.bias e)

def fusedRouterReference : List ℕ × List (Fp R) :=
  let indices := (descending r.E (choice ar sigmoid r)).take r.K
  let weights := indices.map (scores sigmoid r)
  let weights := if r.norm then weights.map fun w => ar.div w (ar.add (ar.sum weights) r.tiny) else weights
  (indices, weights.map fun w => ar.mul w r.scaling)

structure Selects (out : List ℕ × List (Fp R)) : Prop where
  distinct : out.1.Nodup
  range : ∀ e ∈ out.1, e < r.E
  ids : out.1 = (fusedRouterReference ar sigmoid r).1
  weights : out.2 = (fusedRouterReference ar sigmoid r).2

/-- No expert but the first is among the chosen with `-inf`. -/
def OnlyFirstLowest : Prop :=
  ∀ e < r.E, Chosen r.E (choice ar sigmoid r) r.K e → choice ar sigmoid r e = .negInf → e = 0

end

/-! ## The lowest lane of the maximum -/

lemma foldl_max_eq (f : ℕ → Fp R) (n : ℕ) :
    (range (n + 1)).foldl (fun m e => max m (f e)) .nan = f (argmax (n + 1) f) := by
  induction n with
  | zero =>
    have hzero : argmax 1 f = 0 := by
      exact if_neg (lt_irrefl _)
    rw [hzero]
    exact max_eq_right (Fp.nan_le _)
  | succ n ih =>
    rw [range_succ, foldl_concat, ih, argmax_succ (n + 1)]
    split
    · exact max_eq_right (le_of_lt ‹_›)
    · exact max_eq_left (not_lt.mp ‹_›)

lemma foldl_min_spec (p : ℕ → Bool) {lanes : ℕ} (n : ℕ) (hn : n ≤ lanes) :
    let m := (range n).foldl (fun m e => min m (if p e then e else lanes)) lanes
    (m = lanes ∧ ∀ e < n, p e = false) ∨ (m < n ∧ p m = true ∧ ∀ e < m, p e = false) := by
  induction n with
  | zero => exact .inl ⟨rfl, fun e he => absurd he (Nat.not_lt_zero e)⟩
  | succ n ih =>
    rw [range_succ, foldl_concat]
    obtain ⟨hm, hnone⟩ | ⟨hm, hp, hnone⟩ := ih (by omega)
    · rw [hm]
      cases hn' : p n with
      | true =>
        refine .inr ⟨?_, ?_, ?_⟩ <;> rw [if_pos rfl, min_eq_right (by omega)]
        · exact Nat.lt_succ_self n
        · exact hn'
        · exact hnone
      | false =>
        refine .inl ⟨by simp, fun e he => ?_⟩
        obtain he | rfl := Nat.lt_succ_iff_lt_or_eq.mp he
        · exact hnone e he
        · exact hn'
    · right
      rw [min_eq_left (by split <;> omega)]
      exact ⟨by omega, hp, hnone⟩

lemma firstOfMax_eq {lanes : ℕ} (hlanes : 0 < lanes) {cand : ℕ → Fp R} (hcand : ∀ e < lanes, cand e ≠ .nan) :
    firstOfMax lanes cand = argmax lanes cand := by
  obtain ⟨hlt, hbest⟩ := argmax_spec cand hlanes
  obtain ⟨n, rfl⟩ := Nat.exists_eq_add_of_lt hlanes
  rw [zero_add] at *
  unfold firstOfMax
  rw [foldl_max_eq]
  have hnan (e : ℕ) (he : e < n + 1) : (cand e).isNaN = false := by
    cases h : cand e <;> simp_all [Fp.isNaN]
  have heq (e : ℕ) (he : e < n + 1) : (cand e).eq (cand (argmax (n + 1) cand)) = true ↔
      cand e = cand (argmax (n + 1) cand) := by
    simp [Fp.eq, hnan e he, hnan _ hlt]
  obtain ⟨-, hnone⟩ | ⟨hm, hp, hnone⟩ :=
    foldl_min_spec (fun e => (cand e).eq (cand (argmax (n + 1) cand))) (n + 1) le_rfl
  · have hself := (heq _ hlt).mpr rfl
    rw [hnone _ hlt] at hself
    cases hself
  · symm
    rw [argmax_eq_iff hm]
    intro j hj hne
    have hvalue := (heq _ hm).mp hp
    by_cases hjbest : cand j = cand (argmax (n + 1) cand)
    · refine .inr ⟨hvalue.trans hjbest.symm, ?_⟩
      by_contra hle
      have hbefore := hnone j (by omega)
      rw [(heq j hj).mpr hjbest] at hbefore
      cases hbefore
    · left
      rw [hvalue]
      rcases hbest j hj (fun h => hjbest (by rw [h])) with h | ⟨h, -⟩
      · exact h
      · exact absurd h.symm hjbest

/-! ## The loop -/

lemma stored_columns (K : ℕ) : (range (nextPowerOf2 K)).filter (· < K) = range K := by
  obtain ⟨_, hrest⟩ := Nat.exists_eq_add_of_le (le_nextPowerOf2 K)
  rw [hrest, range_add, filter_append, filter_eq_self.mpr (by simp), filter_eq_nil_iff.mpr (by simp), append_nil]

section

variable [Zero R] {ar : Machine R} {sigmoid : Fp R → Fp R} {r : Row R}

omit [LinearOrder R] in
lemma laneChoice_eq : laneChoice ar sigmoid r = padded .negInf r.E (choice ar sigmoid r) := by
  funext e
  unfold laneChoice padded
  split
  · rw [laneLogits, if_pos ‹_›]
    rfl
  · rfl

variable (ar sigmoid r) in
/-- The lane of round `k`. -/
def best (k : ℕ) : ℕ := pick (nextPowerOf2 r.E) .negInf (padded .negInf r.E (choice ar sigmoid r)) k

omit [LinearOrder R] in
lemma padded_ne_nan (hchoice : ∀ e < r.E, choice ar sigmoid r e ≠ .nan) (e : ℕ) :
    padded .negInf r.E (choice ar sigmoid r) e ≠ .nan := by
  unfold padded
  split
  · exact hchoice e ‹_›
  · simp

lemma routerLoop_eq (hchoice : ∀ e < r.E, choice ar sigmoid r e ≠ .nan) (hE : 0 < r.E) (i : ℕ) :
    routerLoop ar sigmoid r i =
      { used := fun e => decide (∃ j < i, best ar sigmoid r j = e)
        weights := fun k => if k < i then sigmoid (laneLogits r (best ar sigmoid r k)) else .fin 0
        total := ((range i).map fun k => sigmoid (laneLogits r (best ar sigmoid r k))).foldl ar.add (.fin 0)
        ids := (range i).map (best ar sigmoid r) } := by
  have hlanes : 0 < nextPowerOf2 r.E := hE.trans_le (le_nextPowerOf2 _)
  induction i with
  | zero => simp [routerLoop]
  | succ i ih =>
    rw [routerLoop, ih]
    unfold routerRound
    dsimp only
    have hcand : (fun e => if decide (∃ j < i, best ar sigmoid r j = e) = true then .negInf
        else laneChoice ar sigmoid r e) =
        masked (nextPowerOf2 r.E) .negInf (padded .negInf r.E (choice ar sigmoid r)) i := by
      funext e
      rw [masked_eq, laneChoice_eq]
      simp only [decide_eq_true_eq]
      rfl
    have hfirst : firstOfMax (nextPowerOf2 r.E)
        (masked (nextPowerOf2 r.E) .negInf (padded .negInf r.E (choice ar sigmoid r)) i) = best ar sigmoid r i := by
      refine firstOfMax_eq hlanes fun e _ => ?_
      rw [masked_eq]
      split
      · simp
      · exact padded_ne_nan hchoice e
    have hlt : best ar sigmoid r i < nextPowerOf2 r.E := (argmax_spec _ hlanes).1
    rw [hcand, hfirst]
    have hvalue : (ar.laneSum (nextPowerOf2 r.E) fun e =>
        if e = best ar sigmoid r i then sigmoid (laneLogits r e) else .fin 0) =
        sigmoid (laneLogits r (best ar sigmoid r i)) := by
      rw [ar.laneSum_single _ _ _ hlt fun j hj => if_neg hj, if_pos rfl]
    rw [hvalue, range_succ, map_append, map_append, foldl_append]
    congr 1
    · funext e
      rw [Bool.eq_iff_iff]
      simp only [Bool.or_eq_true, decide_eq_true_eq, beq_iff_eq, Nat.lt_succ_iff_lt_or_eq, or_and_right, exists_or,
        exists_eq_left, eq_comm (a := e)]
    · funext k
      by_cases hk : k = i
      · subst hk
        simp
      · rw [if_neg hk]
        exact if_congr (by omega) rfl rfl

lemma visible_iff (hchoice : ∀ e < r.E, choice ar sigmoid r e ≠ .nan) :
    (∀ e < r.E, Chosen r.E (choice ar sigmoid r) r.K e →
      Visible (nextPowerOf2 r.E) .negInf r.E (choice ar sigmoid r) e) ↔ OnlyFirstLowest ar sigmoid r := by
  refine forall₃_congr fun e he _ => ?_
  have hlowest (u : ℕ) (hu : u < r.E) : .negInf < choice ar sigmoid r u ∨ choice ar sigmoid r u = .negInf := by
    cases h : choice ar sigmoid r u <;> simp_all
  constructor
  · intro hvisible hinf
    by_contra hne
    have hbeats : Beats (choice ar sigmoid r) 0 e := by
      rcases hlowest 0 (by omega) with h | h
      · exact .inl (hinf ▸ h)
      · exact .inr ⟨h.trans hinf.symm, by omega⟩
    rcases hvisible 0 (by have := le_nextPowerOf2 r.E; omega) (.inr hbeats) with h | ⟨-, h⟩
    · exact absurd (hinf ▸ h) (lt_irrefl _)
    · omega
  · intro hfirst u _ hhides
    rcases hlowest e he with h | h
    · exact .inl h
    · obtain rfl := hfirst h
      refine .inr ⟨h, pos_of_ne_zero ?_⟩
      rintro rfl
      rcases hhides with hhides | hhides
      · omega
      · exact hhides.ne rfl

lemma ids_iff (hK : r.K ≤ r.E) : (range r.K).map (best ar sigmoid r) = (fusedRouterReference ar sigmoid r).1 ↔
    ∀ k < r.K, best ar sigmoid r k = rank r.E (choice ar sigmoid r) k := by
  have hlen : (fusedRouterReference ar sigmoid r).1.length = r.K := by
    rw [fusedRouterReference, length_take, descending_length, min_eq_left hK]
  have hrank (k : ℕ) (hk : k < (fusedRouterReference ar sigmoid r).1.length) :
      (fusedRouterReference ar sigmoid r).1[k] = rank r.E (choice ar sigmoid r) k := by
    rw [rank_eq]
    exact getElem_take
  constructor
  · intro h k hk
    have hget := getElem_of_eq h (i := k) (by simpa using hk)
    rw [getElem_map, getElem_range, hrank] at hget
    exact hget
  · intro h
    refine ext_getElem (by rw [length_map, length_range, hlen]) fun k hk hk' => ?_
    rw [getElem_map, getElem_range, hrank, h k (by omega)]

lemma weights_eq (hids : (range r.K).map (best ar sigmoid r) = (fusedRouterReference ar sigmoid r).1)
    (hchoice : ∀ e < r.E, choice ar sigmoid r e ≠ .nan) (hE : 0 < r.E) :
    storedWeights ar r (routerLoop ar sigmoid r r.K) = (fusedRouterReference ar sigmoid r).2 := by
  have hscore (k : ℕ) (hk : k < r.K) : sigmoid (laneLogits r (best ar sigmoid r k)) =
      scores sigmoid r (best ar sigmoid r k) := by
    have hmem : best ar sigmoid r k ∈ (fusedRouterReference ar sigmoid r).1 := hids ▸ mem_map_of_mem (mem_range.mpr hk)
    have hlt := mem_descending.mp (mem_of_mem_take hmem)
    rw [laneLogits, if_pos hlt, scores]
  have hvalues : (range r.K).map (fun k => sigmoid (laneLogits r (best ar sigmoid r k))) =
      (fusedRouterReference ar sigmoid r).1.map (scores sigmoid r) := by
    rw [← hids, map_map]
    exact map_congr_left fun k hk => hscore k (mem_range.mp hk)
  have hsum : ((range r.K).map fun k => sigmoid (laneLogits r (best ar sigmoid r k))).foldl ar.add (.fin 0) =
      ar.sum ((fusedRouterReference ar sigmoid r).1.map (scores sigmoid r)) := by
    rw [hvalues, ar.sum_eq]
  have hreference : (fusedRouterReference ar sigmoid r).2 = (range r.K).map fun k =>
      ar.mul (if r.norm then ar.div (sigmoid (laneLogits r (best ar sigmoid r k)))
        (ar.add (ar.sum ((fusedRouterReference ar sigmoid r).1.map (scores sigmoid r))) r.tiny)
        else sigmoid (laneLogits r (best ar sigmoid r k))) r.scaling := by
    show (let weights := (fusedRouterReference ar sigmoid r).1.map (scores sigmoid r)
      (if r.norm then weights.map fun w => ar.div w (ar.add (ar.sum weights) r.tiny) else weights).map
        fun w => ar.mul w r.scaling) = _
    generalize (fusedRouterReference ar sigmoid r).1.map _ = weights at hvalues ⊢
    dsimp only
    rw [← hvalues]
    cases r.norm <;> simp
  rw [hreference, storedWeights, stored_columns, routerLoop_eq hchoice hE]
  refine map_congr_left fun k hk => ?_
  simp [mem_range.mp hk, hsum]

/-- **The loop selects** exactly when no expert but the first is chosen with `-inf`. -/
theorem selects_iff (hchoice : ∀ e < r.E, choice ar sigmoid r e ≠ .nan) (hK : 1 ≤ r.K) (hE : r.K ≤ r.E) :
    Selects ar sigmoid r (router ar sigmoid r) ↔ OnlyFirstLowest ar sigmoid r := by
  have hids : (router ar sigmoid r).1 = (range r.K).map (best ar sigmoid r) := by
    rw [router, routerLoop_eq hchoice (by omega)]
  rw [← visible_iff hchoice, ← picks_eq_iff (le_nextPowerOf2 _) hE]
  change _ ↔ ∀ k < r.K, best ar sigmoid r k = rank r.E (choice ar sigmoid r) k
  rw [← ids_iff hE]
  constructor
  · exact fun h => hids.symm.trans h.ids
  · intro h
    have hsame := hids.trans h
    refine ⟨?_, ?_, hsame, weights_eq h hchoice (by omega)⟩
    · rw [hsame]
      exact descending_nodup.sublist (take_sublist _ _)
    · rw [hsame]
      exact fun e he => mem_descending.mp (mem_of_mem_take he)

lemma routerShared_routed (hchoice : ∀ e < r.E, choice ar sigmoid r e ≠ .nan) (hE : 0 < r.E) :
    ((routerShared ar sigmoid r).1.take r.K, (routerShared ar sigmoid r).2.take r.K) = router ar sigmoid r := by
  have hids : (routerLoop ar sigmoid r r.K).ids.length = r.K := by
    rw [routerLoop_eq hchoice hE, length_map, length_range]
  have hweights : (storedWeights ar r (routerLoop ar sigmoid r r.K)).length = r.K := by
    rw [storedWeights, stored_columns, length_map, length_range]
  exact Prod.ext (take_left' hids) (take_left' hweights)

end

/-- **When the fused routers select**: for every number of experts, every `k` and every row without NaN. -/
theorem fused_router_iff {R : Type} [LinearOrder R] [Zero R] (ar : Machine R) (sigmoid : Fp R → Fp R) (r : Row R)
    (hchoice : ∀ e < r.E, choice ar sigmoid r e ≠ .nan) (hK : 1 ≤ r.K) (hE : r.K ≤ r.E) :
    (Selects ar sigmoid r (router ar sigmoid r) ↔ OnlyFirstLowest ar sigmoid r) ∧
    (Selects ar sigmoid r ((routerShared ar sigmoid r).1.take r.K, (routerShared ar sigmoid r).2.take r.K) ↔
      OnlyFirstLowest ar sigmoid r) := by
  rw [routerShared_routed hchoice (by omega)]
  exact ⟨selects_iff hchoice hK hE, selects_iff hchoice hK hE⟩

/-! ## Exact arithmetic -/

lemma foldl_add_single {R : Type} [Field R] (f : ℕ → Fp R) {i : ℕ} (hf : ∀ j, j ≠ i → f j = .fin 0) (n : ℕ) :
    (range n).foldl (fun s e => Fp.add s (f e)) (.fin 0) = if i < n then f i else .fin 0 := by
  induction n with
  | zero => rfl
  | succ n ih =>
    rw [range_succ, foldl_concat, ih]
    by_cases hi : i = n
    · subst hi
      cases f i <;> simp [Fp.add]
    · rw [hf n (Ne.symm hi), if_congr (show i < n ↔ i < n + 1 by omega) rfl rfl]
      cases (if i < n + 1 then f i else .fin 0) <;> simp [Fp.add]

/-- Operations without rounding. -/
def Machine.exact {R : Type} [Field R] : Machine R where
  toArith := Fp.Arith.exact
  laneSum n f := (List.range n).foldl (fun s e => Fp.add s (f e)) (.fin 0)
  laneSum_single n i f hi hf := by
    rw [foldl_add_single f hf, if_pos hi]
  sum_eq _ := rfl

open Machine (exact)

/-- Three experts of which some have the bias `-inf`, and a constant score. -/
def threeExperts (bias : ℕ → Fp ℚ) : Row ℚ := ⟨3, 2, fun _ => .fin 0, bias, .fin 1, .fin (1 / 10 ^ 20), .fin 1, false⟩

lemma threeExperts_choice {bias : ℕ → Fp ℚ} {e : ℕ} (hbias : bias e ≠ .posInf ∧ bias e ≠ .nan) :
    choice exact (fun _ => .fin (1 / 2)) (threeExperts bias) e ≠ .nan := by
  show Fp.add (.fin (1 / 2)) (bias e) ≠ .nan
  cases h : bias e <;> simp_all [Fp.add]

theorem fused_router_finite : Selects exact (fun _ => .fin (1 / 2)) (threeExperts fun _ => .fin 0)
    (router exact (fun _ => .fin (1 / 2)) (threeExperts fun _ => .fin 0)) := by
  refine (fused_router_iff exact (fun _ => .fin (1 / 2)) (threeExperts fun _ => .fin 0)
    (fun e _ => threeExperts_choice (by simp)) (by decide) (by decide)).1.mpr fun _ _ _ h => ?_
  cases h

/-- With `-inf` on the last two experts the first one is returned twice. -/
theorem fused_router_repeats :
    (∀ e < 3, choice exact (fun _ => .fin (1 / 2)) (threeExperts fun e => if e = 0 then .fin 0 else .negInf) e ≠ .nan) ∧
    ¬Selects exact (fun _ => .fin (1 / 2)) (threeExperts fun e => if e = 0 then .fin 0 else .negInf)
      (router exact (fun _ => .fin (1 / 2)) (threeExperts fun e => if e = 0 then .fin 0 else .negInf)) := by
  have hchoice : ∀ e < 3, choice exact (fun _ => .fin (1 / 2))
      (threeExperts fun e => if e = 0 then .fin 0 else .negInf) e ≠ .nan :=
    fun e _ => threeExperts_choice (by split <;> simp)
  refine ⟨hchoice, fun h => ?_⟩
  have hfirst := (selects_iff hchoice (by decide) (by decide)).mp h
  exact absurd (hfirst 1 (by decide) (by decide +kernel) rfl) (by decide)

end VKernels.FusedRouter
