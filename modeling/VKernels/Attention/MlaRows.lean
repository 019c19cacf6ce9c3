import VKernels.Attention.Mla

/-!
# Latent attention: the rows

Every kernel's row, and the oracle's, as the attention of the row over the keys that it sees.

* `score`, `visible` — the score of a key under some query, and the keys that are not masked.
* `stridedRow_eq`, `wideRow_eq` — the running softmax over all keys, with lanes strided or in pieces.
-/

namespace VKernels.Mla

open SplitSoftmax Wavefront LocalActions Finset
open OnlineSoftmax (expFrom)

/-! ## Keys and scores -/

/-- The keys `lo`, ..., `hi - 1` that row `i` sees. -/
def visibleIn (s : Shape) (i lo hi : ℕ) : Finset ℕ := (Ico lo hi).filter (s.Visible i)

def visible (s : Shape) (i : ℕ) : Finset ℕ := visibleIn s i 0 s.Skv

section

variable {V : Type} [Field V] (s : Shape) (x : Data V)

def score (query : ℕ → V) (b j : ℕ) : V :=
  (∑ d ∈ range s.lr, query d * kcAt s x b j d +
    ∑ d ∈ range s.rhd, query (s.lr + d) * kpeAt s x b j d) * x.scale

/-- The attention of a query over the keys that row `i` sees. -/
def attentionOf (exp : V → V) (query : ℕ → V) (b i d : ℕ) : V :=
  attention exp (score s x query b) (vcAt s x b) (visible s i) d

variable {s x}

lemma score_congr {query query' : ℕ → V} (h : ∀ c < s.Dq, query c = query' c) (b j : ℕ) :
    score s x query b j = score s x query' b j := by
  have hDq : s.Dq = s.lr + s.rhd := rfl
  unfold score
  congr 2
  · refine sum_congr rfl fun d hd => ?_
    have hd := mem_range.mp hd
    rw [h d (by omega)]
  · refine sum_congr rfl fun d hd => ?_
    have hd := mem_range.mp hd
    rw [h _ (by omega)]

lemma attentionOf_congr {exp : V → V} {query query' : ℕ → V} (h : ∀ c < s.Dq, query c = query' c) (b i d : ℕ) :
    attentionOf s x exp query b i d = attentionOf s x exp query' b i d :=
  attention_congr (fun j _ => score_congr h b j) fun _ _ => rfl

end

lemma mem_visible {s : Shape} {i j : ℕ} : j ∈ visible s i ↔ j < s.Skv ∧ s.Visible i j := by
  simp [visible, visibleIn]

lemma visibleIn_succ (s : Shape) (i lo n : ℕ) : visibleIn s i lo (lo + (n + 1)) =
    if s.Visible i (lo + n) then visibleIn s i lo (lo + n) ∪ {lo + n} else visibleIn s i lo (lo + n) := by
  unfold visibleIn
  rw [← add_assoc, ← insert_Ico_right_eq_Ico_add_one (by omega), filter_insert]
  split
  · rw [insert_eq, union_comm]
  · rfl

lemma notMem_visibleIn (s : Shape) (i lo n : ℕ) : lo + n ∉ visibleIn s i lo (lo + n) := by
  simp [visibleIn]

/-! ## One key -/

section

variable {V : Type} [Field V] [LinearOrder V]

section

variable {exp : V → V} (hE : Exponential exp) {keyScore : ℕ → V} {value : ℕ → ℕ → V} {g : Gathered ℕ V} {S : Finset ℕ}
  (h : g.Holds exp keyScore value S)
include hE h

variable {j : ℕ}

/-- A key more, by any step that rescales to a new reference point. -/
lemma holds_insert (hj : j ∉ S) (m : V) {denom : V} {acc : ℕ → V}
    (hdenom : denom = g.denom * expFrom exp g.max m + exp (keyScore j - m))
    (hacc : ∀ t, acc t = g.acc t * expFrom exp g.max m + exp (keyScore j - m) * value j t) :
    (⟨some m, denom, acc⟩ : Gathered ℕ V).Holds exp keyScore value (S ∪ {j}) := by
  refine h.advance hE (disjoint_singleton_right.mpr hj) m ?_ fun t => ?_
  · simp [hdenom, mass]
  · simp [hacc, moment]

lemma onlineStep_holds (hj : j ∉ S) {v : ℕ → V} (hv : ∀ t, v t = value j t) :
    (onlineStep exp g (some (keyScore j)) v).Holds exp keyScore value (S ∪ {j}) := by
  obtain ⟨m, hm⟩ := Option.isSome_iff_exists.mp (maximum_isSome rfl : (maximum g.max (some (keyScore j))).isSome = true)
  have hold : expGap exp g.max (some m) = expFrom exp g.max m := by
    cases g.max <;> rfl
  have hstep : onlineStep exp g (some (keyScore j)) v = ⟨some m, g.denom * expFrom exp g.max m + exp (keyScore j - m),
        fun t => g.acc t * expFrom exp g.max m + exp (keyScore j - m) * v t⟩ := by
    rw [onlineStep, hm, hold]
    rfl
  rw [hstep]
  exact holds_insert hE h hj m rfl fun t => by rw [hv]

lemma onlineStep_masked (v : ℕ → V) : (onlineStep exp g none v).Holds exp keyScore value S := by
  obtain ⟨max, denom, acc⟩ := g
  cases max with
  | none =>
    obtain ⟨hS, hdenom, hacc⟩ := h
    have hstep : onlineStep exp ⟨none, denom, acc⟩ none v = ⟨none, 0, fun _ => 0⟩ := by
      simp [onlineStep, maximum, expGap]
    rw [hstep]
    exact ⟨hS, rfl, fun _ => rfl⟩
  | some m =>
    have hstep : onlineStep exp ⟨some m, denom, acc⟩ none v = ⟨some m, denom, acc⟩ := by
      simp [onlineStep, maximum, expGap, hE.zero]
    rwa [hstep]

lemma wideStep_holds (hj : j ∉ S) {v : ℕ → V} (hv : ∀ t, v t = value j t) :
    (wideStep exp g (some (keyScore j)) v).Holds exp keyScore value (S ∪ {j}) := by
  unfold wideStep
  simp only
  split
  · refine holds_insert hE h hj _ ?_ fun t => ?_
    · rw [sub_self, hE.zero]
    · rw [sub_self, hE.zero, one_mul, hv]
  · rename_i hbelow
    obtain ⟨max, _, _⟩ := g
    cases max with
    | none => exact absurd trivial hbelow
    | some m =>
      have hone : expFrom exp (some m) m = 1 := by
        show exp (m - m) = 1
        rw [sub_self, hE.zero]
      refine holds_insert hE h hj m ?_ fun t => ?_
      · rw [hone, mul_one]
        rfl
      · rw [hone, mul_one, hv]
        rfl

omit hE in
lemma wideStep_masked (v : ℕ → V) : (wideStep exp g none v).Holds exp keyScore value S := by
  have hsame : wideStep exp g none v = g := by
    obtain ⟨_, _, _⟩ := g
    simp [wideStep]
  rwa [hsame]

end

/-! ## The oracle -/

section

variable [IsStrictOrderedRing V] {exp : V → V} (hE : Exponential exp) (s : Shape) (x : Data V) (r : ℕ × ℕ × ℕ)

omit [LinearOrder V] [IsStrictOrderedRing V] in
lemma cpuScore_eq (j : ℕ) :
    cpuScore s x r j = if s.Visible r.2.2 j then some (score s x (qAt s x r) r.1 j) else none := by
  unfold cpuScore score
  rw [ite_not, mul_comm]

omit [IsStrictOrderedRing V] in
lemma cpuWeight_eq (j : ℕ) : cpuWeight exp s x r j =
    if s.Visible r.2.2 j then some (exp (score s x (qAt s x r) r.1 j - (cpuMax s x r).getD 0)) else none := by
  rw [cpuWeight, cpuScore_eq]
  split <;> rfl

lemma sum_visible {M : Type} [AddCommMonoid M] (s : Shape) (i : ℕ) (f : ℕ → M) :
    ∑ j ∈ range s.Skv, (if s.Visible i j then f j else 0) = ∑ j ∈ visible s i, f j := by
  rw [visible, visibleIn, sum_filter, range_eq_Ico]

include hE in
lemma cpuRow_eq (d : ℕ) : cpuRow exp s x r d = attentionOf s x exp (qAt s x r) r.1 r.2.2 d := by
  generalize hm : (cpuMax s x r).getD 0 = m
  have hsum : cpuSum exp s x r = mass exp (score s x (qAt s x r) r.1) (visible s r.2.2) m := by
    rw [mass, ← sum_visible, cpuSum]
    refine sum_congr rfl fun j _ => ?_
    rw [cpuWeight_eq, hm]
    split <;> rfl
  have hweighted : ∑ j ∈ range s.Skv, cpuTerm exp s x r j d =
      moment exp (score s x (qAt s x r) r.1) (vcAt s x r.1) (visible s r.2.2) m d * (1 / cpuSum exp s x r) := by
    rw [moment, sum_mul, ← sum_visible]
    refine sum_congr rfl fun j _ => ?_
    rw [cpuTerm, cpuWeight_eq, hm]
    by_cases hvisible : s.Visible r.2.2 j
    · rw [if_pos hvisible, if_pos hvisible]
      exact mul_right_comm _ _ _
    · rw [if_neg hvisible, if_neg hvisible]
  unfold cpuRow
  rw [hweighted]
  rcases (visible s r.2.2).eq_empty_or_nonempty with hempty | hne
  · rw [attentionOf, hempty, attention_empty, if_pos]
    rw [hsum, hempty, mass_empty]
  · have hpos : mass exp (score s x (qAt s x r) r.1) (visible s r.2.2) m ≠ 0 := ne_of_gt (mass_pos hE hne m)
    rw [hsum, if_neg hpos, mul_one_div]
    exact moment_div_mass hE _ m d

end

/-! ## Strided lanes -/

section

variable {exp : V → V} (hE : Exponential exp) (s : Shape) (x : Data V) (query : ℕ → V) (b i lane : ℕ)

lemma lr_le_tiles (s : Shape) : s.lr ≤ s.nopeTiles * 64 := by
  unfold Shape.nopeTiles
  omega

omit [LinearOrder V] in
lemma laneScore_eq (hlane : lane < 64) (j : ℕ) :
    laneScore s x query b i lane j = if s.Visible i j then some (score s x query b j) else none := by
  unfold laneScore
  split
  · rename_i hvisible
    congr 1
    rw [warpReduce_eq _ hlane, score]
    congr 1
    simp only [lanePartial, if_pos hvisible]
    rw [sum_add_distrib, sum_strided (lr_le_tiles s) fun d => query d * kcAt s x b j d,
      sum_bounded s.rhd_le]
  · rfl

include hE in
/-- **A lane over a slice of the keys.** -/
theorem laneLoop_holds (hlane : lane < 64) (lo hi : ℕ) :
    (laneLoop exp s x query b i lane lo hi).Holds exp (score s x query b) (laneValue s x b i lane)
      (visibleIn s i lo hi) := by
  have hloop (n : ℕ) : ((List.range n).foldl
      (fun g k => onlineStep exp g (laneScore s x query b i lane (lo + k)) (laneValue s x b i lane (lo + k)))
      Gathered.start).Holds exp (score s x query b) (laneValue s x b i lane) (visibleIn s i lo (lo + n)) := by
    induction n with
    | zero =>
      have hempty : visibleIn s i lo (lo + 0) = ∅ := by simp [visibleIn]
      rw [hempty]
      exact Gathered.holds_start
    | succ n ih =>
      rw [List.range_succ, List.foldl_concat, laneScore_eq s x query b i lane hlane, visibleIn_succ]
      split
      · exact onlineStep_holds hE ih (notMem_visibleIn s i lo n) fun t => rfl
      · exact onlineStep_masked hE ih _
  have hslice : visibleIn s i lo hi = visibleIn s i lo (lo + (hi - lo)) := by
    unfold visibleIn
    congr 1
    ext j
    simp only [mem_Ico]
    omega
  rw [hslice]
  exact hloop _

omit [LinearOrder V] in
lemma attention_laneValue {t : ℕ} (ht : lane + t * 64 < s.lr) (lo hi : ℕ) (keyScore : ℕ → V) :
    attention exp keyScore (laneValue s x b i lane) (visibleIn s i lo hi) t =
      attention exp keyScore (vcAt s x b) (visibleIn s i lo hi) (lane + t * 64) := by
  unfold attention
  congr 1
  refine sum_congr rfl fun j hj => ?_
  rw [laneValue, if_pos ⟨(mem_filter.mp hj).2, ht⟩]

include hE in
lemma stridedRow_eq [IsStrictOrderedRing V] (r : ℕ × ℕ × ℕ) {c : ℕ × ℕ} (hc : c ∈ stridedCells s.lr s.nopeTiles) :
    stridedRow exp s x query r c = attentionOf s x exp query r.1 r.2.2 (c.1 + c.2 * 64) := by
  obtain ⟨lane, t⟩ := c
  simp only [stridedCells, List.mem_filter, List.mem_product, List.mem_range, decide_eq_true_eq] at hc
  have hholds := laneLoop_holds hE s x query r.1 r.2.2 lane hc.1.1 0 s.Skv
  have hnormal := hholds.normalise hE t
  rw [attention_laneValue s x r.1 r.2.2 lane hc.2] at hnormal
  exact hnormal

end

/-! ## Lanes in pieces -/

section

variable {exp : V → V} (hE : Exponential exp) (s : Shape) (x : Data V) {LP : ℕ} (hLP : s.lr = LP * 64) (query : ℕ → V)
  (b i lane : ℕ)
include hLP

omit [LinearOrder V] in
lemma wideScore_eq (hlane : lane < 64) (j : ℕ) :
    wideScore s x LP query b i lane j = if s.Visible i j then some (score s x query b j) else none := by
  unfold wideScore
  split
  · congr 1
    rw [warpReduce_eq _ hlane, score]
    congr 1
    have hrope (l : ℕ) : (if l < s.rhd then query (s.lr + l) else 0) * (if l < s.rhd then kpeAt s x b j l else 0) =
        if l < s.rhd then query (s.lr + l) * kpeAt s x b j l else 0 := by
      split
      · rfl
      · exact zero_mul _
    simp only [widePartial, hrope]
    rw [sum_add_distrib, sum_consecutive_lanes LP fun d => query d * kcAt s x b j d,
      sum_bounded s.rhd_le, hLP, add_comm]
  · rfl

include hE

lemma wideLoop_holds (hlane : lane < 64) : (wideLoop exp s x LP query b i lane).Holds exp (score s x query b)
    (fun j t => vcAt s x b j (lane * LP + t)) (visible s i) := by
  have hloop (n : ℕ) : ((List.range n).foldl
      (fun g j => wideStep exp g (wideScore s x LP query b i lane j) fun t => vcAt s x b j (lane * LP + t))
      Gathered.start).Holds exp (score s x query b) (fun j t => vcAt s x b j (lane * LP + t)) (visibleIn s i 0 n) := by
    induction n with
    | zero =>
      have hempty : visibleIn s i 0 0 = ∅ := by simp [visibleIn]
      exact Gathered.holds_start
    | succ n ih =>
      have hsucc := visibleIn_succ s i 0 n
      have hnew := notMem_visibleIn s i 0 n
      simp only [zero_add] at hsucc hnew
      rw [List.range_succ, List.foldl_concat, wideScore_eq s x hLP query b i lane hlane, hsucc]
      split
      · exact wideStep_holds hE ih hnew fun t => rfl
      · exact wideStep_masked ih _
  have htiles := TileLoops.foldl_tiles
    (fun g j => wideStep exp g (wideScore s x LP query b i lane j) fun t => vcAt s x b j (lane * LP + t)) s.Skv
    (by omega : s.Skv ≤ (s.Skv + 1) / 2 * 2) Gathered.start
  unfold wideLoop
  rw [htiles]
  exact hloop s.Skv

lemma wideRow_eq [IsStrictOrderedRing V] (hlane : lane < 64) (t : ℕ) :
    (wideLoop exp s x LP query b i lane).acc t * inverse (wideLoop exp s x LP query b i lane) =
      attentionOf s x exp query b i (lane * LP + t) :=
  (wideLoop_holds hE s x hLP query b i lane hlane).normalise hE t

end

end

/-! ## Staged queries -/

section

variable {V : Type} [Field V] (s : Shape) (x : Data V) {BQ : ℕ} (takesPart : ℕ → Bool) (b h tile : ℕ)
  (held : ℕ → V)

lemma Dq_pos (s : Shape) : 0 < s.Dq := Nat.add_pos_left s.lr_pos _

lemma mem_stagedIndices (hBQ : 0 < BQ) {idx : ℕ} :
    idx ∈ stagedIndices s BQ takesPart ↔ idx < BQ * s.Dq ∧ takesPart (idx % (BQ * 64) / 64) = true := by
  unfold stagedIndices
  simp only [List.mem_flatMap, List.mem_range, List.mem_ite_nil_right]
  constructor
  · rintro ⟨_, htid, hpart, hmem⟩
    obtain ⟨hlt, hmod⟩ := (mem_threadLoop htid).mp hmem
    rw [hmod]
    exact ⟨hlt, hpart⟩
  · rintro ⟨hlt, hpart⟩
    have htid : idx % (BQ * 64) < BQ * 64 := Nat.mod_lt _ (by omega)
    exact ⟨idx % (BQ * 64), htid, hpart, (mem_threadLoop htid).mpr ⟨hlt, rfl⟩⟩

/-- **An element of a query** behind the barrier: staged by a wavefront that takes part, or what was there. -/
theorem sharedQ_eq {warp c : ℕ} (hwarp : warp < BQ) (hc : c < s.Dq) :
    sharedQ s x BQ takesPart b h tile held (warp * s.Dq + c) =
      if takesPart ((warp * s.Dq + c) % (BQ * 64) / 64) = true then
        if tile * BQ + warp < s.Sq then qAt s x (b, h, tile * BQ + warp) c else 0 else held (warp * s.Dq + c) := by
  have hlt : warp * s.Dq + c < BQ * s.Dq := Blocks.block_lt hwarp hc
  unfold sharedQ
  rw [MaskedStores.assign_values]
  simp [mem_stagedIndices s takesPart (Nat.zero_lt_of_lt hwarp), hlt, Blocks.block_div warp hc, Blocks.block_mod warp hc]

end

end VKernels.Mla
