import VKernels.Attention.MlaSplits

/-!
# Latent attention: the calls

* `activeWarps_perm` — a grid of tiles and head groups takes every row once.
* `fused_perm`, `wide_perm`, `plain_perm`, `combine_perm` — the stores of each kernel, against those of the oracle.
* `fused_case`, `wide_case` — the dispatch finds a case.

## Results

* `mlaFwd_oracle` — a call stores what the oracle does, whatever the data and the memory it finds, exactly where the device
  takes its launches and the wavefronts that take part stage what is read.
* `short_tile_differs` — a tile of two rows with one query.
-/

namespace VKernels.Mla

open SplitSoftmax Wavefront LocalActions Finset
open OnlineSoftmax (expFrom)
open Real (exp log)

/-! ## Grids -/

section

variable (s : Shape) {BQ BH : ℕ}

lemma mem_activeWarps {w : ℕ × ℕ × ℕ × ℕ} : w ∈ activeWarps s BQ BH ↔
    (w.1 < s.B ∧ w.2.1 < (s.H + BH - 1) / BH ∧ w.2.2.1 < (s.Sq + BQ - 1) / BQ ∧ w.2.2.2 < BQ * BH) ∧
      (rowOf BQ BH w).2.2 < s.Sq ∧ (rowOf BQ BH w).2.1 < s.H := by
  obtain ⟨b, hgroup, _, _⟩ := w
  simp [activeWarps, warps]

lemma activeWarps_perm (hBQ : 0 < BQ) (hBH : 0 < BH) : ((activeWarps s BQ BH).map (rowOf BQ BH)).Perm s.allRows := by
  have hnodup : ((activeWarps s BQ BH).map (rowOf BQ BH)).Nodup := by
    refine List.Nodup.map_on ?_ ((List.nodup_range.product (List.nodup_range.product
      (List.nodup_range.product List.nodup_range))).filter _)
    rintro ⟨b, hgroup, _, warp⟩ hw ⟨_, hgroup', _, warp'⟩ hw' heq
    have hwarp : warp / BH < BQ := Nat.div_lt_of_lt_mul (by rw [mul_comm]; exact ((mem_activeWarps s).mp hw).1.2.2.2)
    have hwarp' : warp' / BH < BQ := Nat.div_lt_of_lt_mul (by rw [mul_comm]; exact ((mem_activeWarps s).mp hw').1.2.2.2)
    simp only [rowOf, Prod.mk.injEq] at heq
    obtain ⟨rfl, hhead, hrow⟩ := heq
    obtain rfl := LaneLaunch.rows_apart (Nat.mod_lt _ hBH) (Nat.mod_lt _ hBH) hhead
    obtain rfl := LaneLaunch.rows_apart hwarp hwarp' hrow
    have hmod := add_left_cancel hhead
    have hdiv := add_left_cancel hrow
    have hsame : warp = warp' := by
      rw [← Nat.div_add_mod' warp BH, ← Nat.div_add_mod' warp' BH, hmod, hdiv]
    rw [hsame]
  refine (List.perm_ext_iff_of_nodup hnodup (allRows_nodup s)).mpr ?_
  rintro ⟨b, h, i⟩
  rw [mem_allRows, List.mem_map]
  constructor
  · rintro ⟨w, hw, heq⟩
    obtain ⟨⟨hb, -⟩, hrow, hhead⟩ := (mem_activeWarps s).mp hw
    rw [heq] at hrow hhead
    have hfirst : w.1 = b := congrArg Prod.fst heq
    exact ⟨hfirst ▸ hb, hhead, hrow⟩
  · rintro ⟨hb, hh, hi⟩
    have hmod := Nat.mod_lt h hBH
    have hwarp : (i % BQ * BH + h % BH) / BH = i % BQ := Blocks.block_div _ hmod
    have hlane : (i % BQ * BH + h % BH) % BH = h % BH := Blocks.block_mod _ hmod
    have hof : rowOf BQ BH (b, h / BH, i / BQ, i % BQ * BH + h % BH) = (b, h, i) := by
      simp [rowOf, hwarp, hlane, Nat.div_add_mod']
    refine ⟨(b, h / BH, i / BQ, i % BQ * BH + h % BH), (mem_activeWarps s).mpr ?_, hof⟩
    rw [hof]
    refine ⟨⟨hb, Blocks.div_lt_blocks hBH hh, Blocks.div_lt_blocks hBQ hi, ?_⟩, hi, hh⟩
    have hlast := Blocks.block_le (Nat.mod_lt i hBQ) BH
    show i % BQ * BH + h % BH < BQ * BH
    omega

end

/-! ## Kernels -/

section

variable {V : Type} [Field V] [LinearOrder V] {exp log : V → V} (s : Shape) (x : Data V)

omit [LinearOrder V] in
lemma cells_mem {c : ℕ × ℕ} (hc : c ∈ stridedCells s.lr s.nopeTiles) : c.1 + c.2 * 64 < s.lr := by
  have hd := List.mem_range.mp ((stridedCells_perm (lr_le_tiles s)).mem_iff.mp
    (List.mem_map_of_mem (f := fun c : ℕ × ℕ => c.1 + c.2 * 64) hc))
  exact hd

lemma mlaFwdCpu_keys : (mlaFwdCpu exp s x).map Prod.fst = List.range (s.rows * s.lr) :=
  element_keys (rows_numbers s) s.lr _

section

variable [IsStrictOrderedRing V] (hE : Exponential exp)
include hE

lemma fused_perm {BQ BH : ℕ} (hBQ : 0 < BQ) (hBH : 0 < BH) :
    (fusedStores exp s x BQ BH).Perm (mlaFwdCpu exp s x) := by
  refine rows_stores (activeWarps_perm s hBQ hBH) (stridedCells_perm (lr_le_tiles s)) (fun r => s.row r * s.lr)
    (fun w c => stridedRow exp s x _ _ c) _ ?_
  intro w _ c hc
  rw [stridedRow_eq hE s x _ _ hc, cpuRow_eq hE]

lemma wide_perm (hlr : s.lr = 512) {BQ BH : ℕ} (hBQ : 0 < BQ) (hBH : 0 < BH) :
    (wideStores exp s x BQ BH 8).Perm (mlaFwdCpu exp s x) := by
  have hcells : ((pieceCells 8).map fun c => c.1 * 8 + c.2).Perm (List.range s.lr) := by
    rw [hlr]
    exact pieceCells_perm 8
  refine rows_stores (activeWarps_perm s hBQ hBH) hcells (fun r => s.row r * s.lr)
    (fun w c => (wideLoop exp s x 8 _ (rowOf BQ BH w).1 (rowOf BQ BH w).2.2 c.1).acc c.2 *
      inverse _)
    (cpuRow exp s x) ?_
  rintro w - ⟨lane, t⟩ hc
  have hlane : lane < 64 := List.mem_range.mp (List.mem_product.mp hc).1
  rw [cpuRow_eq hE]
  exact wideRow_eq hE s x hlr _ (rowOf BQ BH w).1 (rowOf BQ BH w).2.2 lane hlane t

lemma combine_perm (hlog : ∀ y, 0 < y → exp (log y) = y) {split BQ : ℕ} (hsplit : 0 < split) (hBQ : 0 < BQ)
    (env : Env V) :
    (combineStores exp log s split (assign (env.arrangeOut (splitOutStores exp s x split BQ env.held)) env.partialOut)
      (assign (env.arrangeLse (splitLseStores exp log s x split BQ env.held)) env.partialLse)).Perm
      (mlaFwdCpu exp s x) := by
  have hrows : (s.allRows.map id).Perm s.allRows := by simp
  refine rows_stores hrows (stridedCells_perm (lr_le_tiles s)) (fun r => s.row r * s.lr)
    (fun r c => combined exp log s split
      (assign _ env.partialOut)
      (assign _ env.partialLse) r _)
    (cpuRow exp s x) ?_
  intro r hr c hc
  rw [cpuRow_eq hE]
  refine combined_eq hE hlog hsplit (fun sp hsp => ?_) fun sp hsp => ?_
  · exact splitOut_at s x split BQ hE hsplit hBQ (env.arrangeOut_perm _) _ hr hsp (cells_mem s hc)
  · exact splitLse_at s x split BQ hE hlog hsplit hBQ (env.arrangeLse_perm _) _ hr hsp

end

lemma value_of_perm {stores : List (ℕ × V)} (h : stores.Perm (mlaFwdCpu exp s x)) {r : ℕ × ℕ × ℕ} (hr : r ∈ s.allRows)
    {d : ℕ} (hd : d < s.lr) {v : V} (hv : (s.row r * s.lr + d, v) ∈ stores) : v = cpuRow exp s x r d := by
  have hnodup : ((mlaFwdCpu exp s x).map Prod.fst).Nodup := by
    rw [mlaFwdCpu_keys]
    exact List.nodup_range
  have hmem : (s.row r * s.lr + d, cpuRow exp s x r d) ∈ mlaFwdCpu exp s x :=
    List.mem_flatMap.mpr ⟨r, hr, List.mem_map.mpr ⟨d, List.mem_range.mpr hd, rfl⟩⟩
  exact congrArg Prod.snd (List.inj_on_of_nodup_map hnodup (h.mem_iff.mp hv) hmem rfl)

end

variable {V : Type} [Field V] (s : Shape)

/-! ## The plain kernel -/

section

variable (x : Data V)

/-- The row whose wavefront stages an element of the query of row `i`. -/
def stagedBy (s : Shape) (BQ i c : ℕ) : ℕ := i / BQ * BQ + (i % BQ * s.Dq + c) % (BQ * 64) / 64

/-- Of the rows that have a choice between keys, every element of the query is staged. -/
def QueriesStaged (s : Shape) (BQ : ℕ) : Prop :=
  ∀ i < s.Sq, (visible s i).card ≤ 1 ∨ ∀ c < s.Dq, stagedBy s BQ i c < s.Sq

/-- What the wavefront of row `i` reads of its query. -/
def plainQuery (BQ : ℕ) (held : ℕ × ℕ × ℕ → ℕ → V) (r : ℕ × ℕ × ℕ) (c : ℕ) : V :=
  sharedQ s x BQ (fun v => r.2.2 / BQ * BQ + v < s.Sq) r.1 r.2.1 (r.2.2 / BQ) (held (r.1, r.2.1, r.2.2 / BQ))
    (r.2.2 % BQ * s.Dq + c)

lemma plainQuery_eq {BQ : ℕ} (hBQ : 0 < BQ) (held : ℕ × ℕ × ℕ → ℕ → V) {r : ℕ × ℕ × ℕ} (hr : r.2.2 < s.Sq) {c : ℕ}
    (hc : c < s.Dq) : plainQuery s x BQ held r c = if stagedBy s BQ r.2.2 c < s.Sq then qAt s x r c
      else held (r.1, r.2.1, r.2.2 / BQ) (r.2.2 % BQ * s.Dq + c) := by
  have hrow : r.2.2 / BQ * BQ + r.2.2 % BQ < s.Sq := by
    rw [Nat.div_add_mod']
    exact hr
  rw [plainQuery, sharedQ_eq s x _ _ _ _ _ (Nat.mod_lt _ hBQ) hc, if_pos hrow, Nat.div_add_mod']
  simp only [decide_eq_true_eq, stagedBy]
  rfl

lemma attentionOf_single [LinearOrder V] {exp : V → V} (hE : Exponential exp) {i : ℕ} (h : (visible s i).card ≤ 1)
    (query query' : ℕ → V) (b d : ℕ) : attentionOf s x exp query b i d = attentionOf s x exp query' b i d := by
  have hsingle (j : ℕ) (query : ℕ → V) : attention exp (score s x query b) (vcAt s x b) {j} d = vcAt s x b j d := by
    rw [attention, sum_singleton, sum_singleton]
    exact mul_div_cancel_left₀ _ (ne_of_gt (hE.pos _))
  unfold attentionOf
  rcases (visible s i).eq_empty_or_nonempty with hempty | ⟨j, hj⟩
  · rw [hempty, attention_empty, attention_empty]
  · have hkeys : visible s i = {j} := eq_singleton_iff_unique_mem.mpr ⟨hj, fun k hk => card_le_one.mp h k hk j hj⟩
    rw [hkeys, hsingle, hsingle]

variable [LinearOrder V] {exp : V → V}

lemma plainStores_eq (BQ : ℕ) (held : ℕ × ℕ × ℕ → ℕ → V) :
    plainStores exp s x BQ held = (activeWarps s BQ 1).flatMap fun w => (stridedCells s.lr s.nopeTiles).map fun c =>
      (s.row (rowOf BQ 1 w) * s.lr + (c.1 + c.2 * 64),
        stridedRow exp s x (plainQuery s x BQ held (rowOf BQ 1 w)) (rowOf BQ 1 w) c) := by
  refine List.flatMap_congr fun w hw => ?_
  obtain ⟨b, h, tile, warp⟩ := w
  have hwarp : warp < BQ := by
    have hlt := ((mem_activeWarps s).mp hw).1.2.2.2
    rwa [mul_one] at hlt
  have hof : rowOf BQ 1 (b, h, tile, warp) = (b, h, tile * BQ + warp) := by
    simp [rowOf, Nat.mod_one]
  have hquery : plainQuery s x BQ held (b, h, tile * BQ + warp) = fun idx =>
      sharedQ s x BQ (fun v => tile * BQ + v < s.Sq) b h tile (held (b, h, tile)) (warp * s.Dq + idx) := by
    funext idx
    simp [plainQuery, Blocks.block_div tile hwarp, Blocks.block_mod tile hwarp]
  refine List.map_congr_left fun c _ => ?_
  simp [hof, hquery]

variable [IsStrictOrderedRing V]

lemma plain_perm (hE : Exponential exp) {BQ : ℕ} (hBQ : 0 < BQ) (hstaged : QueriesStaged s BQ)
    (held : ℕ × ℕ × ℕ → ℕ → V) : (plainStores exp s x BQ held).Perm (mlaFwdCpu exp s x) := by
  rw [plainStores_eq]
  refine rows_stores (activeWarps_perm s hBQ one_pos) (stridedCells_perm (lr_le_tiles s)) (fun r => s.row r * s.lr)
    (fun w c => stridedRow exp s x _ _ c) _ ?_
  intro w hw c hc
  have hrow := ((mem_activeWarps s).mp hw).2.1
  generalize rowOf BQ 1 w = r at hrow
  rw [stridedRow_eq hE s x _ _ hc, cpuRow_eq hE]
  rcases hstaged r.2.2 hrow with hsingle | hall
  · exact attentionOf_single s x hE hsingle _ _ _ _
  · refine attentionOf_congr (fun d hd => ?_) _ _ _
    rw [plainQuery_eq s x hBQ held hrow hd, if_pos (hall d hd)]

end

/-! ### Rows that are not staged -/

section

/-- Rows of `len` elements, `v` in those of key `j` and zero elsewhere. -/
def markedRows (len j : ℕ) (v : V) (a : ℕ) : V := if a / len % s.Skv = j then v else 0

/-- Queries of zero; key `j` has the elements `w` and the values one. -/
def probe (j : ℕ) (w : V) : Data V where
  q _ := 0
  kc := markedRows s s.lr j w
  kpe := markedRows s s.rhd j w
  vc := markedRows s s.lr j 1
  scale := 1

/-- Shared memory with a one at one index. -/
def markedShared (idx : ℕ) (_ : ℕ × ℕ × ℕ) (a : ℕ) : V := if a = idx then 1 else 0

lemma markedRows_at {len j b k d : ℕ} (hd : d < len) (hk : k < s.Skv) (v : V) :
    markedRows s len j v ((b * s.Skv + k) * len + d) = if k = j then v else 0 := by
  rw [markedRows, Blocks.block_div _ hd, Blocks.block_mod _ hk]

lemma score_probe {j k : ℕ} (hk : k < s.Skv) (w : V) (query : ℕ → V) (b : ℕ) :
    score s (probe s j w) query b k = (∑ c ∈ range s.Dq, query c) * if k = j then w else 0 := by
  have hlatent : ∑ d ∈ range s.lr, query d * kcAt s (probe s j w) b k d =
      (∑ d ∈ range s.lr, query d) * if k = j then w else 0 := by
    rw [sum_mul]
    refine sum_congr rfl fun d hd => ?_
    rw [← markedRows_at s (mem_range.mp hd) hk w]
    rfl
  have hrope : ∑ d ∈ range s.rhd, query (s.lr + d) * kpeAt s (probe s j w) b k d =
      (∑ d ∈ range s.rhd, query (s.lr + d)) * if k = j then w else 0 := by
    rw [sum_mul]
    refine sum_congr rfl fun d hd => ?_
    rw [← markedRows_at s (mem_range.mp hd) hk w]
    rfl
  rw [score, hlatent, hrope, ← add_mul, Shape.Dq, sum_range_add]
  exact mul_one _

variable [LinearOrder V] {exp : V → V} (hE : Exponential exp)
include hE

lemma attentionOf_probe {i j : ℕ} (hj : j ∈ visible s i) (w : V) (query : ℕ → V) (b : ℕ) :
    attentionOf s (probe s j w) exp query b i 0 = exp ((∑ c ∈ range s.Dq, query c) * w) /
      (exp ((∑ c ∈ range s.Dq, query c) * w) + ((visible s i).card - 1 : ℕ)) := by
  generalize hsum : ∑ c ∈ range s.Dq, query c = u
  have hscore (k : ℕ) (hk : k ∈ visible s i) :
      exp (score s (probe s j w) query b k) = if k = j then exp (u * w) else 1 := by
    rw [score_probe s (mem_visible.mp hk).1, hsum]
    split
    · rfl
    · rw [mul_zero, hE.zero]
  have hvalue (k : ℕ) (hk : k ∈ visible s i) : vcAt s (probe s j w) b k 0 = if k = j then 1 else 0 := by
    rw [← markedRows_at s s.lr_pos (mem_visible.mp hk).1]
    rfl
  have hnumerator : ∑ k ∈ visible s i, exp (score s (probe s j w) query b k) * vcAt s (probe s j w) b k 0 =
      exp (u * w) := by
    rw [sum_eq_single_of_mem j hj, hscore j hj, hvalue j hj, if_pos rfl, if_pos rfl, mul_one]
    intro k hk hne
    rw [hvalue k hk, if_neg hne, mul_zero]
  have hothers : ∑ k ∈ (visible s i).erase j, exp (score s (probe s j w) query b k) = ((visible s i).card - 1 : ℕ) := by
    rw [← card_erase_of_mem hj, card_eq_sum_ones, Nat.cast_sum, Nat.cast_one]
    refine sum_congr rfl fun k hk => ?_
    rw [hscore k (mem_of_mem_erase hk), if_neg (ne_of_mem_erase hk)]
  rw [attentionOf, attention, hnumerator, ← add_sum_erase _ _ hj, hothers, hscore j hj, if_pos rfl]

variable [IsStrictOrderedRing V]

/-- **A row with an element that nobody stages** is not the oracle's. -/
theorem plain_differs {w : V} (hw : exp w ≠ 1) {BQ : ℕ} (hBQ : 0 < BQ) {i c j : ℕ} (hi : i < s.Sq) (hc : c < s.Dq)
    (hunstaged : ¬stagedBy s BQ i c < s.Sq) (hcard : 1 < (visible s i).card) (hj : j ∈ visible s i) :
    ¬(plainStores exp s (probe s j w) BQ (markedShared (i % BQ * s.Dq + c))).Perm (mlaFwdCpu exp s (probe s j w)) := by
  intro hperm
  -- element 0 of row `i` of the first head
  have hr : ((0, 0, i) : ℕ × ℕ × ℕ) ∈ s.allRows := mem_allRows.mpr ⟨s.B_pos, s.H_pos, hi⟩
  obtain ⟨warp, hwarp, hof⟩ : ∃ warp ∈ activeWarps s BQ 1, rowOf BQ 1 warp = (0, 0, i) := by
    have hmem := (activeWarps_perm s hBQ one_pos).mem_iff.mpr hr
    rwa [List.mem_map] at hmem
  obtain ⟨cell, hcell, hidx⟩ : ∃ cell ∈ stridedCells s.lr s.nopeTiles, cell.1 + cell.2 * 64 = 0 := by
    have hmem := (stridedCells_perm (lr_le_tiles s)).mem_iff.mpr (List.mem_range.mpr s.lr_pos)
    rwa [List.mem_map] at hmem
  have hstore : (s.row (0, 0, i) * s.lr + 0, attentionOf s (probe s j w) exp
      (plainQuery s (probe s j w) BQ (markedShared (i % BQ * s.Dq + c)) (0, 0, i)) 0 i 0) ∈
      plainStores exp s (probe s j w) BQ (markedShared (i % BQ * s.Dq + c)) := by
    rw [plainStores_eq]
    refine List.mem_flatMap.mpr ⟨warp, hwarp, List.mem_map.mpr ⟨cell, hcell, ?_⟩⟩
    rw [hof, stridedRow_eq hE s _ _ _ hcell, hidx]
  have hvalue := value_of_perm s _ hperm hr s.lr_pos hstore
  -- its query is one at the element that was not staged
  have hquery : ∑ d ∈ range s.Dq, plainQuery s (probe s j w) BQ (markedShared (i % BQ * s.Dq + c)) (0, 0, i) d = 1 := by
    rw [sum_eq_single_of_mem c (mem_range.mpr hc), plainQuery_eq s _ hBQ _ hi hc, if_neg hunstaged]
    · exact if_pos rfl
    · intro d hd hne
      rw [plainQuery_eq s _ hBQ _ hi (mem_range.mp hd)]
      split
      · rfl
      · exact if_neg fun heq => hne (add_left_cancel heq)
  have hzero : ∑ d ∈ range s.Dq, qAt s (probe s j w) (0, 0, i) d = 0 := sum_eq_zero fun _ _ => rfl
  rw [cpuRow_eq hE, attentionOf_probe s hE hj, attentionOf_probe s hE hj, hquery, hzero, one_mul, zero_mul, hE.zero]
    at hvalue
  -- so the weight of the marked key is that of the others
  have hpos : (0 : V) < ((visible s i).card - 1 : ℕ) := Nat.cast_pos.mpr (by omega)
  have hweight := hE.pos w
  rw [div_eq_div_iff (by positivity) (by positivity)] at hvalue
  have hproduct : (exp w - 1) * ((visible s i).card - 1 : ℕ) = 0 := by linear_combination hvalue
  rcases mul_eq_zero.mp hproduct with hone | hothers
  · exact hw (sub_eq_zero.mp hone)
  · exact ne_of_gt hpos hothers

end

/-! ## Dispatch -/

section

lemma fusedBQ_pos (bq : ℕ) : 0 < fusedBQ bq := by
  unfold fusedBQ
  split_ifs <;> decide

lemma plainBQ_pos (bq : ℕ) : 0 < plainBQ bq := by
  unfold plainBQ
  split_ifs <;> decide

lemma headsPerBlock_eq (bq H : ℕ) :
    ∃ n, 1 ≤ n ∧ n ≤ 16 ∧ (n = 1 ∨ n * bq ≤ 16) ∧ headsPerBlock bq H = dropToPowerOfTwo n := by
  unfold headsPerBlock
  split
  · exact ⟨1, le_rfl, by decide, .inl rfl, rfl⟩
  · have hbq : max 1 bq = bq := by omega
    have hcap : 16 / bq * bq ≤ 16 := Nat.div_mul_le_self 16 bq
    have hcap16 : 16 / bq ≤ 16 := Nat.div_le_self 16 bq
    have hmin : (if 16 / bq < H then 16 / bq else H) ≤ 16 / bq := by
      split <;> omega
    rw [hbq]
    generalize (if 16 / bq < H then 16 / bq else H) = bh at hmin
    by_cases hzero : bh < 1
    · exact ⟨1, le_rfl, by decide, .inl rfl, by simp only [if_pos hzero]⟩
    · refine ⟨bh, by omega, hmin.trans hcap16, .inr ((Nat.mul_le_mul_right bq hmin).trans hcap), ?_⟩
      simp only [if_neg hzero]

lemma fused_small : ∀ bq < 9, ∀ n < 17, 1 ≤ n ∧ (n = 1 ∨ n * bq ≤ 16) → 0 < dropToPowerOfTwo n ∧
      switchCase fusedCases (fusedBQ bq) (dropToPowerOfTwo n) = some (fusedBQ bq, dropToPowerOfTwo n) := by
  have hcases : ∀ bq < 9, ∀ n < 17, (1 ≤ n ∧ (n = 1 ∨ n * bq ≤ 16)) →
      switchCase fusedCases (fusedBQ bq) (dropToPowerOfTwo n) = some (fusedBQ bq, dropToPowerOfTwo n) := by
    decide +kernel
  have hpos : ∀ n < 17, 1 ≤ n → 0 < dropToPowerOfTwo n := by decide +kernel
  exact fun bq hbq n hn hwidth => ⟨hpos n hn hwidth.1, hcases bq hbq n hn hwidth⟩

lemma wide_small : ∀ bq < 9, ∀ n < 17, 1 ≤ n ∧ (n = 1 ∨ n * bq ≤ 16) → 0 < wideBH (fusedBQ bq) (dropToPowerOfTwo n) ∧
      switchCase wideCases (fusedBQ bq) (wideBH (fusedBQ bq) (dropToPowerOfTwo n)) =
        some (fusedBQ bq, wideBH (fusedBQ bq) (dropToPowerOfTwo n)) := by
  decide +kernel

lemma heads_small (bq H : ℕ) : ∃ bq' < 9, ∃ n < 17, (1 ≤ n ∧ (n = 1 ∨ n * bq' ≤ 16)) ∧ fusedBQ bq = fusedBQ bq' ∧
    headsPerBlock bq H = dropToPowerOfTwo n := by
  obtain ⟨n, hn, hn16, hwidth, heq⟩ := headsPerBlock_eq bq H
  by_cases hbq : bq < 9
  · exact ⟨bq, hbq, n, by omega, ⟨hn, hwidth⟩, rfl, heq⟩
  · -- from 9 rows on a block has one head
    have hone : n = 1 := by
      rcases hwidth with h | h
      · exact h
      · by_contra hne
        have h2 : 2 * bq ≤ n * bq := Nat.mul_le_mul_right bq (by omega)
        omega
    have hBQ : fusedBQ bq = fusedBQ 8 := by
      unfold fusedBQ
      split_ifs <;> omega
    exact ⟨8, by decide, n, by omega, ⟨hn, .inl hone⟩, hBQ, heq⟩

lemma fused_case (bq H : ℕ) : 0 < headsPerBlock bq H ∧
    switchCase fusedCases (fusedBQ bq) (headsPerBlock bq H) = some (fusedBQ bq, headsPerBlock bq H) := by
  obtain ⟨bq', hbq', n, hn, hwidth, hBQ, hheads⟩ := heads_small bq H
  rw [hBQ, hheads]
  exact fused_small bq' hbq' n hn hwidth

lemma wide_case (bq H : ℕ) : 0 < wideBH (fusedBQ bq) (headsPerBlock bq H) ∧
    switchCase wideCases (fusedBQ bq) (wideBH (fusedBQ bq) (headsPerBlock bq H)) =
      some (fusedBQ bq, wideBH (fusedBQ bq) (headsPerBlock bq H)) := by
  obtain ⟨bq', hbq', n, hn, hwidth, hBQ, hheads⟩ := heads_small bq H
  rw [hBQ, hheads]
  exact wide_small bq' hbq' n hn hwidth

/-- The launch of `launch_fused`. -/
def fusedLaunch (s : Shape) (bq : ℕ) : Launch :=
  blockLaunch s (fusedBQ bq)
    (if s.lr = 512 then wideBH (fusedBQ bq) (headsPerBlock bq s.H) else headsPerBlock bq s.H) 0

/-- The launch of `launch`. -/
def plainLaunch (s : Shape) (BQ : ℕ) : Launch := blockLaunch s BQ 1 (BQ * s.Dq * 4)

variable {V : Type} [Field V] [LinearOrder V] [IsStrictOrderedRing V] {exp log : V → V} (accepts : Launch → Bool)
  (env : Env V) (s : Shape) (x : Data V)

omit [IsStrictOrderedRing V] in
lemma launched_perm {l : Launch} {stores : List (ℕ × V)} : (launched accepts l stores).Perm (mlaFwdCpu exp s x) ↔
      accepts l = true ∧ stores.Perm (mlaFwdCpu exp s x) := by
  unfold launched
  split
  · rename_i h
    simp [h]
  · rename_i h
    have hrows : 0 < s.rows * s.lr := mul_pos (mul_pos (mul_pos s.B_pos s.H_pos) s.Sq_pos) s.lr_pos
    have hne : mlaFwdCpu exp s x ≠ [] := by
      intro hnil
      have hkeys : ((mlaFwdCpu exp s x).map Prod.fst).length = (List.range (s.rows * s.lr)).length :=
        congrArg List.length (mlaFwdCpu_keys s x)
      rw [hnil, List.map_nil, List.length_nil, List.length_range] at hkeys
      omega
    simp [h, hne]

lemma launchFused_perm (hE : Exponential exp) (bq : ℕ) :
    (launchFused exp accepts s x bq (headsPerBlock bq s.H)).Perm (mlaFwdCpu exp s x) ↔
      accepts (fusedLaunch s bq) = true := by
  obtain ⟨hheads, hfused⟩ := fused_case bq s.H
  obtain ⟨hwideHeads, hwide⟩ := wide_case bq s.H
  unfold launchFused wideCase fusedLaunch
  by_cases hlr : s.lr = 512
  · rw [if_pos ⟨hlr, s.rhd_le⟩, hwide, if_pos hlr]
    rw [launched_perm]
    exact and_iff_left (wide_perm s x hE hlr (fusedBQ_pos bq) hwideHeads)
  · rw [if_neg fun h => hlr h.1, hfused, if_neg hlr]
    rw [launched_perm]
    exact and_iff_left (fused_perm s x hE (fusedBQ_pos bq) hheads)

/-! ## Calls -/

/-- The device takes the launch of a query tile, and what its blocks read is staged. -/
def TileServed (bq : ℕ) : Prop :=
  if 8 < s.Sq then accepts (fusedLaunch s bq) = true
  else accepts (plainLaunch s (plainBQ bq)) = true ∧ QueriesStaged s (plainBQ bq)

lemma same_perm {α : Type} (stores : List α) : (id stores).Perm stores := List.Perm.refl stores

/-- A call that finds shared memory `held`, and stores in order. -/
def envOf (held : ℕ × ℕ × ℕ → ℕ → V) : Env V where
  held := held
  partialOut _ := 0
  partialLse _ := none
  arrangeOut := id
  arrangeLse := id
  arrangeOut_perm := same_perm
  arrangeLse_perm := same_perm

lemma mlaFwdWithTile_perm (hE : Exponential exp) {w : V} (hw : exp w ≠ 1) (bq : ℕ) :
    (∀ (x : Data V) (env : Env V), (mlaFwdWithTile exp accepts env s x bq).Perm (mlaFwdCpu exp s x)) ↔
      TileServed accepts s bq := by
  unfold mlaFwdWithTile TileServed
  by_cases hprefill : 8 < s.Sq
  · simp only [if_pos hprefill, launchFused_perm accepts s _ hE]
    exact ⟨fun h => h (probe s 0 0) (envOf fun _ _ => 0), fun h _ _ => h⟩
  · simp only [if_neg hprefill, launched_perm]
    constructor
    · intro h
      refine ⟨(h (probe s 0 0) (envOf fun _ _ => 0)).1, ?_⟩
      by_contra hunstaged
      simp only [QueriesStaged, not_forall, not_or, not_le] at hunstaged
      obtain ⟨i, hi, hcard, c, hc, hrow⟩ := hunstaged
      obtain ⟨j, hj⟩ : (visible s i).Nonempty := card_pos.mp (by omega)
      exact plain_differs s hE hw (plainBQ_pos bq) hi hc hrow hcard hj (h _ (envOf (markedShared _))).2
    · rintro ⟨haccepts, hstaged⟩ x env
      exact ⟨haccepts, plain_perm s x hE (plainBQ_pos bq) hstaged env.held⟩

inductive Entry
  | fwd (tuned : Option ℤ)
  | withSplit (split : ℕ)
  | withTile (bq : ℕ)

namespace Entry

/-- What a call stores to `out`. -/
def run (exp log : V → V) (accepts : Launch → Bool) (env : Env V) (s : Shape) (x : Data V) : Entry → List (ℕ × V)
  | fwd tuned => mlaFwd exp log accepts env s x tuned
  | withSplit split => mlaFwdWithSplit exp log accepts env s x split
  | withTile bq => mlaFwdWithTile exp accepts env s x bq

/-- The splits that a call asks for. -/
def split (s : Shape) : Entry → ℕ
  | fwd tuned => splitFor s tuned
  | withSplit split => split
  | withTile _ => 1

/-- The query tile without a split. -/
def bq (s : Shape) : Entry → ℕ
  | fwd _ => configBq s.Sq
  | withSplit _ => configBq s.Sq
  | withTile bq => bq

/-- Behind a split launch the combine launch is taken; without one, the query tile is served. -/
def Served (accepts : Launch → Bool) (s : Shape) (e : Entry) : Prop :=
  if 1 < e.split s ∧ accepts (splitLaunch s (e.split s)) = true then accepts (combineLaunch s (e.split s)) = true
  else TileServed accepts s (e.bq s)

end Entry

omit [IsStrictOrderedRing V] in
lemma run_eq (e : Entry) : e.run exp log accepts env s x =
    if 1 < e.split s ∧ accepts (splitLaunch s (e.split s)) = true then
      launched accepts (combineLaunch s (e.split s)) (combineStores exp log s (e.split s)
        (assign (env.arrangeOut (splitOutStores exp s x (e.split s) (splitBQ s) env.held)) env.partialOut)
        (assign (env.arrangeLse (splitLseStores exp log s x (e.split s) (splitBQ s) env.held)) env.partialLse))
    else mlaFwdWithTile exp accepts env s x (e.bq s) := by
  have hsplit (split : ℕ) : mlaFwdWithSplit exp log accepts env s x split =
      if 1 < split ∧ accepts (splitLaunch s split) = true then
        launched accepts (combineLaunch s split) (combineStores exp log s split
          (assign (env.arrangeOut (splitOutStores exp s x split (splitBQ s) env.held)) env.partialOut)
          (assign (env.arrangeLse (splitLseStores exp log s x split (splitBQ s) env.held)) env.partialLse))
      else mlaFwdWithTile exp accepts env s x (configBq s.Sq) := by
    unfold mlaFwdWithSplit launchSplit
    by_cases hmany : 1 < split
    · by_cases htaken : accepts (splitLaunch s split) = true
      · simp [hmany, htaken, and_self]
      · simp [hmany, htaken]
    · simp [hmany, false_and]
  cases e with
  | fwd tuned => exact hsplit _
  | withSplit split => exact hsplit split
  | withTile bq => simp [Entry.run, Entry.split, Entry.bq]

lemma run_perm (hE : Exponential exp) (hlog : ∀ y, 0 < y → exp (log y) = y) {w : V} (hw : exp w ≠ 1) (e : Entry) :
    (∀ (x : Data V) (env : Env V), (e.run exp log accepts env s x).Perm (mlaFwdCpu exp s x)) ↔ e.Served accepts s := by
  have hBQ : 0 < splitBQ s := by
    unfold splitBQ
    split <;> decide
  simp only [run_eq, Entry.Served]
  split
  · simp only [launched_perm]
    exact ⟨fun h => (h (probe s 0 0) (envOf fun _ _ => 0)).1,
      fun h x env => ⟨h, combine_perm s x hE hlog (by omega) hBQ env⟩⟩
  · exact mlaFwdWithTile_perm accepts s hE hw _

end

/-! ## Results -/

lemma real_exponential : Exponential exp := ⟨Real.exp_add, Real.exp_pos⟩

/-- **`mla_fwd`, `mla_fwd_with_split` and `mla_fwd_with_tile`** store what the oracle does, each element once, whatever the
data and the memory they find, exactly where they are served. -/
theorem mlaFwd_oracle (accepts : Launch → Bool) (s : Shape) (e : Entry) :
    (∀ x, (mlaFwdCpu exp s x).map Prod.fst = List.range (s.rows * s.lr)) ∧
      ((∀ (x : Data ℝ) (env : Env ℝ), (e.run exp log accepts env s x).Perm (mlaFwdCpu exp s x)) ↔
        e.Served accepts s) := by
  have hone : exp 1 ≠ 1 := by
    rw [ne_eq, Real.exp_eq_one_iff]
    exact one_ne_zero
  exact ⟨fun x => mlaFwdCpu_keys s x, run_perm accepts s real_exponential (fun _ => Real.exp_log) hone e⟩

lemma shortShape_lr_pos : 0 < 64 := by decide

lemma shortShape_lr_le : 64 ≤ 1024 := by decide

lemma shortShape_rhd_le : 1 ≤ 64 := by decide

/-- One query of 65 elements, and two keys that it sees. -/
def shortShape : Shape where
  B := 1
  H := 1
  Sq := 1
  Skv := 2
  qStart := 1
  kvStart := 0
  lr := 64
  rhd := 1
  B_pos := Nat.one_pos
  H_pos := Nat.one_pos
  Sq_pos := Nat.one_pos
  Skv_pos := Nat.two_pos
  lr_pos := shortShape_lr_pos
  lr_le := shortShape_lr_le
  rhd_pos := Nat.one_pos
  rhd_le := shortShape_rhd_le

/-- **A tile of two rows with one query**: the wavefront of the second row returns before it has staged elements of the
first. -/
theorem short_tile_differs :
    ¬((Entry.withTile 2).run exp log (fun _ => true) (envOf (markedShared 64)) shortShape (probe shortShape 0 1)).Perm
      (mlaFwdCpu exp shortShape (probe shortShape 0 1)) := by
  have hone : exp 1 ≠ 1 := by
    rw [ne_eq, Real.exp_eq_one_iff]
    exact one_ne_zero
  have hcard : 1 < (visible shortShape 0).card := by decide
  have hkey : 0 ∈ visible shortShape 0 := by decide
  exact plain_differs (i := 0) (c := 64) shortShape real_exponential hone (by decide : 0 < 2) (by decide) (by decide)
    (by decide) hcard hkey

end VKernels.Mla
