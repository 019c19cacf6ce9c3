import VKernels.Attention.MlaRows

/-!
# Latent attention: split keys

The split kernel's partial rows and log-sum-exps, and the rows that the combine kernel makes of them.

* `rows_numbers` — the rows of a call are numbered in order.
* `slice` — the keys of one split that a row sees; `splitLane_holds`.
* `splitOut_perm` — the partial rows, each once; `splitLse_at` — the log-sum-exps.
* `combined_eq` — the combined row is the attention of the row.
-/

namespace VKernels.Mla

open SplitSoftmax Wavefront LocalActions Finset
open OnlineSoftmax (expFrom)
open List hiding disjoint_left mem_filter mem_range min range

/-! ## Row numbers -/

lemma map_product {α β γ : Type} (l : List α) (l' : List β) (f : α × β → γ) :
    (l ×ˢ l').map f = l.flatMap fun a => l'.map fun b => f (a, b) := by
  show (l.flatMap fun a => l'.map (Prod.mk a)).map f = _
  rw [map_flatMap]
  simp [List.map_map, Function.comp_def]

lemma product_numbers (m n : ℕ) : (List.range m ×ˢ List.range n).map (fun p => p.1 * n + p.2) = List.range (m * n) := by
  rw [map_product]
  exact Blocks.range_blocks n m

lemma rows_numbers (s : Shape) : s.allRows.map s.row = List.range s.rows := by
  have hrow (b : ℕ) (p : ℕ × ℕ) : s.row (b, p) = b * (s.H * s.Sq) + (p.1 * s.Sq + p.2) := by
    simp only [Shape.row]
    ring
  rw [Shape.allRows, map_product, Shape.rows, mul_assoc, ← Blocks.range_blocks]
  refine flatMap_congr fun b _ => ?_
  rw [← product_numbers, List.map_map]
  exact map_congr_left fun p _ => hrow b p

lemma mem_allRows {s : Shape} {r : ℕ × ℕ × ℕ} : r ∈ s.allRows ↔ r.1 < s.B ∧ r.2.1 < s.H ∧ r.2.2 < s.Sq := by
  obtain ⟨b, h, i⟩ := r
  simp [Shape.allRows]

lemma allRows_nodup (s : Shape) : s.allRows.Nodup :=
  nodup_range.product (nodup_range.product nodup_range)

lemma split_numbers (s : Shape) (split : ℕ) :
    (s.allRows ×ˢ List.range split).map (fun rs => s.row rs.1 * split + rs.2) = List.range (s.rows * split) := by
  rw [map_product, ← Blocks.range_blocks, ← rows_numbers, flatMap_map]

lemma element_keys {W V : Type} {rows : List W} {number : W → ℕ} {N : ℕ} (hrows : rows.map number = List.range N)
    (n : ℕ) (value : W → ℕ → V) :
    ((rows.flatMap fun r => (List.range n).map fun d => (number r * n + d, value r d)).map Prod.fst) =
      List.range (N * n) := by
  rw [map_flatMap, ← Blocks.range_blocks, ← hrows, flatMap_map]
  refine flatMap_congr fun r _ => ?_
  rw [List.map_map]
  rfl

/-! ## Slices -/

section

variable (s : Shape) (split : ℕ)

/-- The keys of a split that row `i` sees. -/
def slice (sp i : ℕ) : Finset ℕ := visibleIn s i (sp * kvs s split) (min (sp * kvs s split + kvs s split) s.Skv)

variable {s split}

lemma kvs_pos (hsplit : 0 < split) : 0 < kvs s split := by
  apply Nat.div_pos _ hsplit
  have := s.Skv_pos
  omega

lemma mem_slice (hsplit : 0 < split) {sp i j : ℕ} :
    j ∈ slice s split sp i ↔ j / kvs s split = sp ∧ j ∈ visible s i := by
  have hpos : 0 < kvs s split := kvs_pos hsplit
  have hiff : j / kvs s split = sp ↔ sp * kvs s split ≤ j ∧ j < sp * kvs s split + kvs s split := by
    rw [Nat.div_eq_iff hpos]
    omega
  rw [mem_visible, hiff, slice, visibleIn, mem_filter, mem_Ico, lt_min_iff]
  constructor
  · rintro ⟨⟨hlo, hhi, hkey⟩, hvisible⟩
    exact ⟨⟨hlo, hhi⟩, hkey, hvisible⟩
  · rintro ⟨⟨hlo, hhi⟩, hkey, hvisible⟩
    exact ⟨⟨hlo, hhi, hkey⟩, hvisible⟩

lemma slices_disjoint (hsplit : 0 < split) (i : ℕ) :
    (range split : Set ℕ).PairwiseDisjoint fun sp => slice s split sp i := by
  intro _ _ _ _ hne
  refine disjoint_left.mpr fun j hj hj' => hne ?_
  exact ((mem_slice hsplit).mp hj).1.symm.trans ((mem_slice hsplit).mp hj').1

lemma slices_union (hsplit : 0 < split) (i : ℕ) :
    ((range split).biUnion fun sp => slice s split sp i) = visible s i := by
  ext j
  simp only [mem_biUnion, mem_range, mem_slice hsplit]
  constructor
  · rintro ⟨-, -, -, hj⟩
    exact hj
  · intro hj
    refine ⟨j / kvs s split, ?_, rfl, hj⟩
    have hlt := (mem_visible.mp hj).1
    have hcover : s.Skv ≤ split * kvs s split := by
      have hdiv := Nat.div_add_mod (s.Skv + split - 1) split
      have hmod := Nat.mod_lt (s.Skv + split - 1) hsplit
      unfold kvs
      omega
    apply Nat.div_lt_of_lt_mul
    rw [mul_comm]
    omega

end

/-! ## The split kernel -/

section

variable {V : Type} [Field V] [LinearOrder V] {exp log : V → V} (s : Shape) (x : Data V) (split BQ : ℕ)
  (held : ℕ × ℕ × ℕ → ℕ → V)

def sliceAttention (exp : V → V) (rs : (ℕ × ℕ × ℕ) × ℕ) (d : ℕ) : V :=
  attention exp (score s x (qAt s x rs.1) rs.1.1) (vcAt s x rs.1.1) (slice s split rs.2 rs.1.2.2) d

lemma mem_splitWarps {w : ℕ × ℕ × ℕ × ℕ} : w ∈ splitWarps s split BQ ↔
    (w.1 < s.B * split ∧ w.2.1 < s.H ∧ w.2.2.1 < (s.Sq + BQ - 1) / BQ ∧ w.2.2.2 < BQ) ∧
      w.2.2.1 * BQ + w.2.2.2 < s.Sq := by
  obtain ⟨z, h, _, _⟩ := w
  simp [splitWarps]

lemma splitWarps_perm (hsplit : 0 < split) (hBQ : 0 < BQ) :
    ((splitWarps s split BQ).map (splitOf split BQ)).Perm (s.allRows ×ˢ List.range split) := by
  have hnodup : ((splitWarps s split BQ).map (splitOf split BQ)).Nodup := by
    refine Nodup.map_on ?_ ((nodup_range.product (nodup_range.product (nodup_range.product nodup_range))).filter _)
    rintro ⟨z, h, tile, warp⟩ hw ⟨z', h', _, _⟩ hw' heq
    have hwarp := ((mem_splitWarps s split BQ).mp hw).1.2.2.2
    have hwarp' := ((mem_splitWarps s split BQ).mp hw').1.2.2.2
    simp only [splitOf, Prod.mk.injEq] at heq
    obtain ⟨⟨hb, rfl, hrow⟩, hsp⟩ := heq
    obtain rfl := LaneLaunch.rows_apart hwarp hwarp' hrow
    have hz := Nat.div_mul_le_self z split
    have hz' := Nat.div_mul_le_self z' split
    rw [hb] at hz hsp
    rw [Prod.mk.injEq, Prod.mk.injEq, Prod.mk.injEq]
    exact ⟨by omega, rfl, rfl, by omega⟩
  refine (perm_ext_iff_of_nodup hnodup ((allRows_nodup s).product nodup_range)).mpr ?_
  rintro ⟨⟨b, h, i⟩, sp⟩
  rw [List.mem_product, mem_allRows, List.mem_range, List.mem_map]
  constructor
  · rintro ⟨⟨z, h', _, _⟩, hw, heq⟩
    obtain ⟨⟨hz, hh, -, -⟩, hrow⟩ := (mem_splitWarps s split BQ).mp hw
    obtain ⟨⟨rfl, rfl, rfl⟩, rfl⟩ := heq
    refine ⟨⟨Nat.div_lt_of_lt_mul (by rw [mul_comm]; exact hz), hh, hrow⟩, ?_⟩
    have hmod := Nat.mod_lt z hsplit
    have hdiv := Nat.div_add_mod' z split
    omega
  · rintro ⟨⟨hb, hh, hi⟩, hsp⟩
    simp only at hb hh hi hsp
    have hz : (b * split + sp) / split = b := Blocks.block_div _ hsp
    have hi' : i / BQ * BQ + i % BQ = i := Nat.div_add_mod' i BQ
    refine ⟨(b * split + sp, h, i / BQ, i % BQ), (mem_splitWarps s split BQ).mpr ⟨⟨?_, hh, ?_, Nat.mod_lt _ hBQ⟩, ?_⟩, ?_⟩
    · have hlast := Blocks.block_le hb split
      exact lt_of_lt_of_le (by omega : b * split + sp < b * split + split) hlast
    · rw [Nat.lt_iff_add_one_le, Nat.le_div_iff_mul_le hBQ, Nat.add_one_mul]
      show i / BQ * BQ + BQ ≤ s.Sq + BQ - 1
      omega
    · show i / BQ * BQ + i % BQ < s.Sq
      omega
    · simp only [splitOf, hz, hi', Prod.mk.injEq, true_and]
      omega

lemma splitLane_holds (hE : Exponential exp) {w : ℕ × ℕ × ℕ × ℕ} (hw : w ∈ splitWarps s split BQ) {lane : ℕ}
    (hlane : lane < 64) : (splitLane exp s x split BQ held w lane).Holds exp
      (score s x (qAt s x (splitOf split BQ w).1) (splitOf split BQ w).1.1)
      (laneValue s x (splitOf split BQ w).1.1 (splitOf split BQ w).1.2.2 lane)
      (slice s split (splitOf split BQ w).2 (splitOf split BQ w).1.2.2) := by
  obtain ⟨⟨-, -, -, hwarp⟩, hrow⟩ := (mem_splitWarps s split BQ).mp hw
  obtain ⟨z, h, tile, warp⟩ := w
  have hquery (c : ℕ) (hc : c < s.Dq) : sharedQ s x BQ (fun _ => true) (z / split) h tile (held (z, h, tile))
      (warp * s.Dq + c) = qAt s x (z / split, h, tile * BQ + warp) c := by
    have hrow : tile * BQ + warp < s.Sq := hrow
    rw [sharedQ_eq s x _ _ _ _ _ hwarp hc, if_pos rfl, if_pos hrow]
  exact (laneLoop_holds hE s x _ _ _ lane hlane _ _).congr
    (fun j _ => score_congr hquery _ j) fun _ _ _ => rfl

variable [IsStrictOrderedRing V]

lemma splitOut_perm (hE : Exponential exp) (hsplit : 0 < split) (hBQ : 0 < BQ) :
    (splitOutStores exp s x split BQ held).Perm
      ((s.allRows ×ˢ List.range split).flatMap fun rs => (List.range s.lr).map fun d =>
        ((s.row rs.1 * split + rs.2) * s.lr + d, sliceAttention s x split exp rs d)) := by
  refine rows_stores (splitWarps_perm s split BQ hsplit hBQ) (stridedCells_perm (lr_le_tiles s))
    (fun rs => (s.row rs.1 * split + rs.2) * s.lr)
    (fun w c => (splitLane exp s x split BQ held w c.1).acc c.2 * inverse _)
    (sliceAttention s x split exp) ?_
  rintro w hw ⟨_, t⟩ hc
  simp only [stridedCells, List.mem_filter, List.mem_product, List.mem_range, decide_eq_true_eq] at hc
  have hnormal := (splitLane_holds s x split BQ held hE hw hc.1.1).normalise hE t
  rw [slice, attention_laneValue s x _ _ _ hc.2] at hnormal
  exact hnormal

variable {held}

lemma splitOut_at (hE : Exponential exp) (hsplit : 0 < split) (hBQ : 0 < BQ) {stores : List (ℕ × V)}
    (hperm : stores.Perm (splitOutStores exp s x split BQ held)) (m : ℕ → V) {r : ℕ × ℕ × ℕ} (hr : r ∈ s.allRows)
    {sp : ℕ} (hsp : sp < split) {d : ℕ} (hd : d < s.lr) :
    assign stores m ((s.row r * split + sp) * s.lr + d) = sliceAttention s x split exp (r, sp) d := by
  have hkeys := element_keys (split_numbers s split) s.lr (sliceAttention s x split exp)
  refine MaskedStores.assign_nodup (hperm.trans (splitOut_perm s x split BQ held hE hsplit hBQ)) ?_ ?_ m
  · rw [hkeys]
    exact nodup_range
  · refine mem_flatMap.mpr ⟨(r, sp), mem_product.mpr ⟨hr, mem_range.mpr hsp⟩, ?_⟩
    exact mem_map.mpr ⟨d, mem_range.mpr hd, rfl⟩

lemma splitLse_at (hE : Exponential exp) (hlog : ∀ y, 0 < y → exp (log y) = y) (hsplit : 0 < split) (hBQ : 0 < BQ)
    {stores : List (ℕ × Option V)} (hperm : stores.Perm (splitLseStores exp log s x split BQ held)) (m : ℕ → Option V)
    {r : ℕ × ℕ × ℕ} (hr : r ∈ s.allRows) {sp : ℕ} (hsp : sp < split) :
    LogMass exp (score s x (qAt s x r) r.1) (slice s split sp r.2.2) (assign stores m (s.row r * split + sp)) := by
  have hwarps := splitWarps_perm s split BQ hsplit hBQ
  have hmem : (r, sp) ∈ (splitWarps s split BQ).map (splitOf split BQ) :=
    hwarps.mem_iff.mpr (mem_product.mpr ⟨hr, mem_range.mpr hsp⟩)
  obtain ⟨w, hw, hof⟩ := mem_map.mp hmem
  have hkeys : ((splitLseStores exp log s x split BQ held).map Prod.fst).Nodup := by
    have hnumbers : (splitLseStores exp log s x split BQ held).map Prod.fst =
        ((splitWarps s split BQ).map (splitOf split BQ)).map fun rs => s.row rs.1 * split + rs.2 := by
      simp [splitLseStores, List.map_map, Function.comp_def]
    rw [hnumbers, (hwarps.map _).nodup_iff, split_numbers]
    exact nodup_range
  have hstore : (s.row r * split + sp, lse log (splitLane exp s x split BQ held w 0)) ∈
      splitLseStores exp log s x split BQ held := by
    refine mem_map.mpr ⟨w, hw, ?_⟩
    rw [hof]
  have hholds := splitLane_holds s x split BQ held hE hw (by decide : 0 < 64)
  rw [hof] at hholds
  rw [MaskedStores.assign_nodup hperm hkeys hstore m]
  exact hholds.logMass hE hlog

end

/-! ## The combine kernel -/

lemma combined_eq {V : Type} [Field V] [LinearOrder V] [IsStrictOrderedRing V] {exp log : V → V}
    (hE : Exponential exp) (hlog : ∀ y, 0 < y → exp (log y) = y) {s : Shape} {x : Data V} {split : ℕ}
    (hsplit : 0 < split) {partialOut : ℕ → V} {partialLse : ℕ → Option V} {r : ℕ × ℕ × ℕ} {d : ℕ}
    (hout : ∀ sp < split, partialOut ((s.row r * split + sp) * s.lr + d) = sliceAttention s x split exp (r, sp) d)
    (hlse : ∀ sp < split, LogMass exp (score s x (qAt s x r) r.1) (slice s split sp r.2.2)
      (partialLse (s.row r * split + sp))) :
    combined exp log s split partialOut partialLse r d = attentionOf s x exp (qAt s x r) r.1 r.2.2 d := by
  have hparts : ∀ sp ∈ range split, LogMass exp (score s x (qAt s x r) r.1) (slice s split sp r.2.2)
      (sLse s split partialLse r sp) := fun sp hsp => hlse sp (mem_range.mp hsp)
  unfold combined
  cases hmax : maxOver split (sLse s split partialLse r) with
  | none =>
    -- every slice is empty
    have hempty : visible s r.2.2 = ∅ := by
      rw [← slices_union hsplit, ← not_nonempty_iff_eq_empty, biUnion_nonempty]
      rintro ⟨sp, hsp, hslice⟩
      apply hslice.ne_empty
      have hpart := hparts sp hsp
      cases hl : sLse s split partialLse r sp with
      | none =>
        rw [hl] at hpart
        exact hpart
      | some y =>
        have hsome := maxOver_isSome (mem_range.mp hsp) (by rw [hl]; rfl : (sLse s split partialLse r sp).isSome = true)
        rw [hmax] at hsome
        cases hsome
    rw [attentionOf, hempty, attention_empty]
  | some mG =>
    have hne : ((range split).biUnion fun sp => slice s split sp r.2.2).Nonempty := by
      rw [biUnion_nonempty]
      by_contra hempty
      have hnone : maxOver split (sLse s split partialLse r) = none := by
        refine maxOver_none fun sp hsp => ?_
        have hpart := hparts sp (mem_range.mpr hsp)
        have hslice : slice s split sp r.2.2 = ∅ :=
          not_nonempty_iff_eq_empty.mp fun hne => hempty ⟨sp, mem_range.mpr hsp, hne⟩
        rw [hslice] at hpart
        cases hl : sLse s split partialLse r sp with
        | none => rfl
        | some y =>
          rw [hl] at hpart
          exact absurd hpart (ne_of_gt (hE.pos y))
      rw [hmax] at hnone
      cases hnone
    have hattention := @attention_parts ℕ ℕ ℕ V _ _ exp log _ (vcAt s x r.1) _ _ hE hlog _ _
      (slices_disjoint hsplit r.2.2) _ hparts hne mG d
    rw [slices_union hsplit] at hattention
    rw [attentionOf, ← hattention]
    refine sum_congr rfl fun sp hsp => ?_
    rw [hout sp (mem_range.mp hsp)]
    rfl

end VKernels.Mla
