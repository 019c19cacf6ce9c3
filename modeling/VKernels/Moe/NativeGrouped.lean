import VKernels.Lib.Grouping
import VKernels.Lib.MaskedStores
import VKernels.Lib.Segments
import VKernels.Tuning.TileConfigs

/-!
# The native grouped MoE dispatch

`glm_moe_grouped_gemm_native` of `torch_ops/glm_fp8_blockwise_gemm.py` with its routing, its tile map and its two
launches, in exact arithmetic.  The shapes are those that pass its checks; the combine is the default one.

* `routeCounts`, `tileMapStatic` — the sorted slots of the experts, and the row tiles of a launch.
* `native` — the whole call; `Dispatched` — every row once, and the weighted sum of the experts.
* `TilesFit` — no row tile of the map is higher than the tile of the launches.

## Results

* `tile_of_position`, `tile_unique` — the one tile of the map that has a sorted slot.
* `launch_once`, `launch_never` — what a launch stores to a row.
* `native_iff` — every live row is computed once, for its token and expert, exactly when the tiles fit.
-/

namespace VKernels.GroupedFp8

open Grouping Segments MaskedStores TileConfigs
open LocalActions (assign)
open List

variable {R : Type}

/-! ## The call -/

/-- `topk_index` and `topk_weights`, `[T, K]` row by row. -/
structure Routing (R : Type) where
  t : ℕ
  k : ℕ
  index : ℕ → ℤ
  weight : ℕ → R

namespace Routing

variable (rt : Routing R)

def slots : ℕ := rt.t * rt.k

/-- `torch.arange(t).repeat_interleave(k)`. -/
def token (s : ℕ) : ℕ := s / rt.k

end Routing

/-- The shapes of the expert stacks, in blocks of 128. -/
structure Dims where
  experts : ℕ
  hidden : ℕ
  inter : ℕ
  hidden_blocks : 128 ∣ hidden
  inter_blocks : 128 ∣ inter

/-- A quantizer: the payload of a row of `k` elements and its block scales. -/
structure Quantizer (R : Type) where
  payload : ℕ → (ℕ → R) → ℕ → R
  scale : ℕ → (ℕ → R) → ℕ → R
  payload_congr : ∀ k row row', (∀ c < k, row c = row' c) → ∀ c < k, payload k row c = payload k row' c
  scale_congr : ∀ k row row', (∀ c < k, row c = row' c) → ∀ kb < k / 128, scale k row kb = scale k row' kb

/-- The activation between the GEMMs: `i` elements of the `2 * i` of a row. -/
structure Activation (R : Type) where
  run : ℕ → (ℕ → R) → ℕ → R
  congr : ∀ i row row', (∀ c < 2 * i, row c = row' c) → ∀ c < i, run i row c = run i row' c

/-- The arguments of `glm_moe_grouped_gemm_native`, with its quantizer, activation and BF16 rounding. -/
structure Call (R : Type) where
  dims : Dims
  routing : Routing R
  x : ℕ → ℕ → R
  gateUp : ℕ → ℕ → ℕ → R
  gateUpScales : ℕ → ℕ → ℕ → R
  down : ℕ → ℕ → ℕ → R
  downScales : ℕ → ℕ → ℕ → R
  skipZeroWeights : Bool
  quantize : Quantizer R
  act : Activation R
  bf16 : R → R

/-- A store of a launch: row, column, value. -/
abbrev Store (R : Type) := (ℕ × ℕ) × R

/-- What the call finds: the tiles, what Triton compiles, fresh memory, the order in which a launch stores. -/
structure Host (R : Type) where
  override : Option Tiles
  table : List (ℤ × Tiles)
  compiles : Tiles → Bool
  freshGateUp : ℕ × ℕ → R
  freshDown : ℕ × ℕ → R
  arrange : List (Store R) → List (Store R)
  arrange_perm : ∀ stores, (arrange stores).Perm stores

lemma stages_pos : 0 < 3 := Nat.succ_pos 2

/-- `(64, 128, 4, 3)`. -/
def defaultTiles : Tiles := ⟨64, 128, 4, 3, by decide, by decide, by decide, stages_pos⟩

/-- `_tiles("glm_fp8_grouped", m, (64, 128, 4, 3))`. -/
def Host.tiles (host : Host R) (m : ℕ) : Tiles := TileConfigs.tiles host.override host.table m defaultTiles

inductive Failure where
  | badIndex
  | noExperts
  | notCompiled
  deriving DecidableEq

/-! ## Routing -/

structure RouteCounts where
  order : List ℕ
  counts : List ℕ
  seg : List ℕ

section

variable [Zero R] [DecidableEq R] (rt : Routing R) (experts : ℕ) (skip : Bool)

/-- The slots that are not dropped. -/
def Live (s : ℕ) : Prop := skip = true → 0 ≤ rt.index s ∧ rt.weight s ≠ 0

instance (s : ℕ) : Decidable (Live rt skip s) := inferInstanceAs (Decidable (_ → _))

/-- `flat`, with the dropped slots behind all experts. -/
def flat (s : ℕ) : ℤ := if Live rt skip s then rt.index s else experts

def routeCounts : Except Failure RouteCounts :=
  let buckets := experts + skip.toNat
  -- `scatter_add_` takes indices of its buckets only
  if ∀ s < rt.slots, 0 ≤ flat rt experts skip s ∧ flat rt experts skip s < buckets then
    let counts := (List.range experts).map fun e : ℕ =>
      (List.range rt.slots).countP fun s => decide (flat rt experts skip s = e)
    .ok ⟨argsort (flat rt experts skip) rt.slots, counts, (List.range experts).map (start counts)⟩
  else .error .badIndex

end

/-! ## The tile map -/

/-- The entries of `tile_exp`, `tile_r0` and `tile_m`. -/
structure Tile where
  exp : ℕ
  r0 : ℕ
  m : ℕ

def tileAt (counts seg : List ℕ) (bm tid : ℕ) : Tile :=
  let tiles := counts.map (blocksFor bm)
  -- `searchsorted(ends, tid, right=True).clamp(max=n_e - 1)`
  let e := min (segmentOf tiles tid) (counts.length - 1)
  let inner := tid - start tiles e
  if tid < tiles.sum then ⟨e, seg.getD e 0 + inner * bm, min (counts.getD e 0 - inner * bm) bm⟩
  else ⟨e, 0, 0⟩

/-- `ends[-1]` needs an expert. -/
def tileMapStatic (counts seg : List ℕ) (bm : ℕ) : Except Failure (ℕ → Tile) :=
  if counts = [] then .error .noExperts else .ok (tileAt counts seg bm)

/-! ## One launch -/

/-- What a launch reads: rows with their scales, expert panels with theirs. -/
structure Operands (R : Type) where
  a : ℕ → ℕ → R
  sa : ℕ → ℕ → R
  w : ℕ → ℕ → ℕ → R
  sw : ℕ → ℕ → ℕ → R

section

variable [CommSemiring R]

/-- `acc` of one row and column after all blocks. -/
def dotBlocks (k : ℕ) (a sa w sw : ℕ → R) : R :=
  ∑ kb ∈ Finset.range (k / 128),
    (∑ r ∈ Finset.range 128, a (kb * 128 + r) * w (kb * 128 + r)) * (sa kb * sw kb)

variable (bf16 : R → R) (op : Operands R) (row : ℕ → ℕ) (n k : ℕ)

/-- The program of one row tile and column tile. -/
def groupedGemm (bm bn : ℕ) (tile : Tile) (pidN : ℕ) : List (Store R) :=
  -- a padding tile returns at once
  if tile.m = 0 then []
  else (List.range bm).flatMap fun i => (List.range bn).flatMap fun j =>
    let ri := tile.r0 + i
    let rn := pidN * bn + j
    storeIf (i < tile.m ∧ rn < n) (ri, rn)
      (bf16 (dotBlocks k (op.a (row ri)) (op.sa (row ri)) (op.w tile.exp rn) (op.sw tile.exp (rn / 128))))

/-- The grid of `cdiv(n, bn)` by `cap` programs. -/
def launchStores (cfg : Tiles) (tile : ℕ → Tile) (cap : ℕ) : List (Store R) :=
  (List.range (blocksFor cfg.bn n)).flatMap fun pidN => (List.range cap).flatMap fun pidM =>
    groupedGemm bf16 op row n k cfg.bm cfg.bn (tile pidM) pidN

/-- `_grouped_backend`: the tiles are looked up for the number of row tiles. -/
def groupedBackend (host : Host R) (tile : ℕ → Tile) (cap : ℕ) : Except Failure (List (Store R)) :=
  let cfg := host.tiles cap
  if host.compiles cfg then .ok (launchStores bf16 op row n k cfg tile cap) else .error .notCompiled

end

/-! ## The call in full -/

/-- The sorted slots, the stores of the two launches, the rows of the second and the output. -/
structure Forward (R : Type) where
  order : List ℕ
  gateUpStores : List (Store R)
  downStores : List (Store R)
  dn : ℕ × ℕ → R
  y : ℕ → ℕ → R

section

variable [CommSemiring R] [DecidableEq R] (host : Host R) (c : Call R)

def gateUpOperands : Operands R where
  a t := c.quantize.payload c.dims.hidden (c.x t)
  sa t := c.quantize.scale c.dims.hidden (c.x t)
  w := c.gateUp
  sw := c.gateUpScales

/-- The second quantization and its operands, from the rows of the first launch. -/
def downOperands (gu : ℕ × ℕ → R) : Operands R where
  a p := c.quantize.payload c.dims.inter (c.act.run c.dims.inter fun n => gu (p, n))
  sa p := c.quantize.scale c.dims.inter (c.act.run c.dims.inter fun n => gu (p, n))
  w := c.down
  sw := c.downScales

/-- `allocate`: zeros when zero weights are skipped, whatever is there otherwise. -/
def allocate (fresh : ℕ × ℕ → R) : ℕ × ℕ → R := if c.skipZeroWeights then fun _ => 0 else fresh

/-- `index_add_` of the weighted rows. -/
def indexAdd (order : List ℕ) (dn : ℕ × ℕ → R) (t n : ℕ) : R :=
  ∑ p ∈ Finset.range c.routing.slots,
    if c.routing.token (order.getD p 0) = t then dn (p, n) * c.routing.weight (order.getD p 0) else 0

def mapHeight : ℕ := (host.tiles c.routing.slots).bm

/-- `cap`. -/
def capacity : ℕ := min c.routing.slots (c.routing.slots / mapHeight host c + c.dims.experts + 1)

def native : Except Failure (Forward R) := do
  let rc ← routeCounts c.routing c.dims.experts c.skipZeroWeights
  let cap := capacity host c
  let tile ← tileMapStatic rc.counts rc.seg (mapHeight host c)
  let gateUpStores ← groupedBackend c.bf16 (gateUpOperands c) (fun ri => c.routing.token (rc.order.getD ri 0))
    (2 * c.dims.inter) c.dims.hidden host tile cap
  let gu := assign (host.arrange gateUpStores) (allocate c host.freshGateUp)
  let downStores ← groupedBackend c.bf16 (downOperands c gu) id c.dims.hidden c.dims.inter host tile cap
  let dn := assign (host.arrange downStores) (allocate c host.freshDown)
  return ⟨rc.order, gateUpStores, downStores, dn, fun t n => c.bf16 (indexAdd c rc.order dn t n)⟩

end

/-! ## The tile map covers the sorted slots -/

section

variable {counts : List ℕ} {bm : ℕ}

/-- The row tiles of the experts. -/
def tileCounts (counts : List ℕ) (bm : ℕ) : List ℕ := counts.map (blocksFor bm)

/-- `seg`, the exclusive cumsum. -/
def segments (counts : List ℕ) : List ℕ := (List.range counts.length).map (start counts)

lemma tileCounts_getD {e : ℕ} (he : e < counts.length) :
    (tileCounts counts bm).getD e 0 = blocksFor bm (counts.getD e 0) := by
  rw [tileCounts, getD_eq_getElem?_getD, getElem?_map, getD_eq_getElem?_getD, getElem?_eq_getElem he]
  rfl

lemma segments_getD {e : ℕ} (he : e < counts.length) : (segments counts).getD e 0 = start counts e := by
  rw [segments, getD_eq_getElem?_getD, getElem?_map, getElem?_range he]
  rfl

lemma tileAt_block {e b : ℕ} (he : e < counts.length) (hb : b < blocksFor bm (counts.getD e 0)) :
    tileAt counts (segments counts) bm (start (tileCounts counts bm) e + b) =
      ⟨e, start counts e + b * bm, min (counts.getD e 0 - b * bm) bm⟩ := by
  have hlength : (tileCounts counts bm).length = counts.length := length_map _
  have hnext : start (tileCounts counts bm) e + b < start (tileCounts counts bm) (e + 1) := by
    rw [start_succ, tileCounts_getD he]
    omega
  have hseg : segmentOf (tileCounts counts bm) (start (tileCounts counts bm) e + b) = e :=
    segmentOf_eq (by rwa [hlength]) (Nat.le_add_right _ _) hnext
  have htotal : start (tileCounts counts bm) e + b < (tileCounts counts bm).sum :=
    lt_of_lt_of_le hnext (start_le_sum _ _)
  have hclamp : min e (counts.length - 1) = e := by omega
  unfold tileAt
  simp only
  rw [← tileCounts, hseg, hclamp, if_pos htotal, Nat.add_sub_cancel_left, segments_getD he]

lemma exists_block {tid i : ℕ} (hi : i < (tileAt counts (segments counts) bm tid).m) :
    ∃ e < counts.length, ∃ b < blocksFor bm (counts.getD e 0), tid = start (tileCounts counts bm) e + b := by
  have htotal : tid < (tileCounts counts bm).sum := by
    by_contra h
    unfold tileAt at hi
    rw [← tileCounts, if_neg h] at hi
    exact Nat.not_lt_zero i hi
  obtain ⟨he, hlo, hhi⟩ := segmentOf_spec htotal
  have he' : segmentOf (tileCounts counts bm) tid < counts.length := by rwa [tileCounts, length_map] at he
  rw [start_succ, tileCounts_getD he'] at hhi
  exact ⟨_, he', tid - start (tileCounts counts bm) (segmentOf (tileCounts counts bm) tid), by omega, by omega⟩

variable (hbm : 0 < bm)
include hbm

/-- The tile with sorted slot `p`. -/
def tileOf (counts : List ℕ) (bm p : ℕ) : ℕ :=
  start (tileCounts counts bm) (segmentOf counts p) + (p - start counts (segmentOf counts p)) / bm

variable {p : ℕ}

lemma tile_of_position (hp : p < counts.sum) : tileOf counts bm p < (tileCounts counts bm).sum ∧
      tileAt counts (segments counts) bm (tileOf counts bm p) =
        ⟨segmentOf counts p, p - (p - start counts (segmentOf counts p)) % bm,
          min (counts.getD (segmentOf counts p) 0 - (p - start counts (segmentOf counts p)) / bm * bm) bm⟩ := by
  obtain ⟨he, hlo, hhi⟩ := segmentOf_spec hp
  obtain ⟨e, hedef⟩ : ∃ e, e = segmentOf counts p := ⟨_, rfl⟩
  unfold tileOf
  rw [← hedef] at he hlo hhi ⊢
  rw [start_succ] at hhi
  have hdiv := Nat.div_add_mod (p - start counts e) bm
  have hb : (p - start counts e) / bm < blocksFor bm (counts.getD e 0) := by
    by_contra h
    have hge := Nat.mul_le_mul_left bm (Nat.le_of_not_lt h)
    have hle := le_blocksFor hbm (counts.getD e 0)
    rw [mul_comm] at hle
    omega
  constructor
  · refine lt_of_lt_of_le ?_ (start_le_sum (tileCounts counts bm) (e + 1))
    rw [start_succ, tileCounts_getD he]
    omega
  · rw [tileAt_block he hb]
    have hrow : start counts e + (p - start counts e) / bm * bm = p - (p - start counts e) % bm := by
      rw [mul_comm] at hdiv
      omega
    rw [hrow]

lemma tile_row (hp : p < counts.sum) : (tileAt counts (segments counts) bm (tileOf counts bm p)).r0 ≤ p ∧
      p - (tileAt counts (segments counts) bm (tileOf counts bm p)).r0 = (p - start counts (segmentOf counts p)) % bm ∧
      (p - start counts (segmentOf counts p)) % bm < (tileAt counts (segments counts) bm (tileOf counts bm p)).m := by
  obtain ⟨he, hlo, hhi⟩ := segmentOf_spec hp
  rw [start_succ] at hhi
  have hdiv := Nat.div_add_mod (p - start counts (segmentOf counts p)) bm
  have hmod := Nat.mod_lt (p - start counts (segmentOf counts p)) hbm
  rw [mul_comm] at hdiv
  rw [(tile_of_position hbm hp).2]
  simp only
  omega

lemma tile_unique {tid : ℕ} (hr0 : (tileAt counts (segments counts) bm tid).r0 ≤ p)
    (hm : p - (tileAt counts (segments counts) bm tid).r0 < (tileAt counts (segments counts) bm tid).m) :
    p < counts.sum ∧ tid = tileOf counts bm p := by
  obtain ⟨e, he, b, hb, rfl⟩ := exists_block hm
  rw [tileAt_block he hb] at hr0 hm
  simp only at hr0 hm
  have hhi : p < start counts (e + 1) := by
    rw [start_succ]
    omega
  have hseg : segmentOf counts p = e := segmentOf_eq he (by omega) hhi
  have hdiv : (p - start counts e) / bm = b := by
    rw [Nat.div_eq_iff hbm]
    omega
  refine ⟨lt_of_lt_of_le hhi (start_le_sum counts (e + 1)), ?_⟩
  rw [tileOf, hseg, hdiv]

/-- **The capacity** is enough for any routing. -/
theorem tileCounts_sum_le (counts : List ℕ) : (tileCounts counts bm).sum ≤ min counts.sum (counts.sum / bm + counts.length) := by
  induction counts with
  | nil => simp [tileCounts]
  | cons n counts ih =>
    have hblocks : blocksFor bm n ≤ n ∧ blocksFor bm n ≤ n / bm + 1 := by
      rcases eq_zero_or_pos n with rfl | hn
      · simp [blocksFor_zero hbm]
      · rw [blocksFor_of_pos hbm hn]
        have hself := Nat.div_le_self (n - 1) bm
        have hmono := Nat.div_le_div_right (c := bm) (Nat.sub_le n 1)
        omega
    have hsum : n / bm + counts.sum / bm ≤ (n + counts.sum) / bm := Nat.div_add_div_le_add_div
    simp only [tileCounts, map_cons, sum_cons, length_cons] at ih ⊢
    omega

end

/-! ## What a launch stores -/

section

variable [CommSemiring R] (bf16 : R → R) (op : Operands R) (row : ℕ → ℕ) (n k : ℕ)

/-- The value of one row and column of a launch. -/
def rowValue (e p c : ℕ) : R :=
  bf16 (dotBlocks k (op.a (row p)) (op.sa (row p)) (op.w e c) (op.sw e (c / 128)))

lemma groupedGemm_stores {bm bn : ℕ} (hbn : 0 < bn) (tile : Tile) (pidN p c : ℕ) :
    storesTo (groupedGemm bf16 op row n k bm bn tile pidN) (p, c) =
      if (tile.r0 ≤ p ∧ p - tile.r0 < min bm tile.m) ∧ c / bn = pidN ∧ c < n then
        [((p, c), rowValue bf16 op row k tile.exp p c)] else [] := by
  have hlane : ∀ i j, storesTo (storeIf (i < tile.m ∧ pidN * bn + j < n) (tile.r0 + i, pidN * bn + j)
      (rowValue bf16 op row k tile.exp (tile.r0 + i) (pidN * bn + j))) (p, c) =
      if (i < tile.m ∧ pidN * bn + j < n) ∧ tile.r0 + i = p ∧ pidN * bn + j = c then
        [((p, c), rowValue bf16 op row k tile.exp p c)] else [] := by
    intro i j
    rw [storesTo_storeIf]
    by_cases h : (i < tile.m ∧ pidN * bn + j < n) ∧ tile.r0 + i = p ∧ pidN * bn + j = c
    · obtain ⟨hmask, rfl, rfl⟩ := h
      rw [if_pos ⟨hmask, rfl⟩, if_pos ⟨hmask, rfl, rfl⟩]
    · rw [if_neg h, if_neg fun h' => h ⟨h'.1, Prod.mk.inj h'.2⟩]
  unfold groupedGemm
  by_cases hm : tile.m = 0
  · rw [if_pos hm, if_neg (by omega)]
    rfl
  rw [if_neg hm, storesTo_flatMap]
  simp only [storesTo_flatMap]
  by_cases h : (tile.r0 ≤ p ∧ p - tile.r0 < min bm tile.m) ∧ c / bn = pidN ∧ c < n
  · obtain ⟨⟨hr0, hrow⟩, hcol, hc⟩ := h
    rw [Nat.lt_min] at hrow
    have hdiv := Nat.div_add_mod c bn
    have hmod := Nat.mod_lt c hbn
    rw [hcol, Nat.mul_comm] at hdiv
    rw [if_pos ⟨⟨hr0, Nat.lt_min.mpr hrow⟩, hcol, hc⟩, flatMap_once nodup_range (mem_range.mpr hrow.1) fun i _ hi => ?_,
      flatMap_once nodup_range (mem_range.mpr hmod) fun j _ hj => ?_]
    · exact (hlane _ _).trans (if_pos ⟨⟨hrow.2, by omega⟩, by omega, hdiv⟩)
    · exact (hlane _ _).trans (if_neg fun h => hj (by omega))
    · rw [flatMap_eq_nil_iff]
      intro j _
      exact (hlane _ _).trans (if_neg fun h => hi (by omega))
  · rw [if_neg h, flatMap_eq_nil_iff]
    intro i hi
    rw [flatMap_eq_nil_iff]
    intro j hj
    refine (hlane i j).trans (if_neg fun h' => h ?_)
    have hj := mem_range.mp hj
    obtain ⟨⟨hmask, hcol⟩, rfl, rfl⟩ := h'
    have hi := mem_range.mp hi
    refine ⟨⟨Nat.le_add_right _ _, by rw [Nat.add_sub_cancel_left]; exact Nat.lt_min.mpr ⟨hi, hmask⟩⟩, ?_, hcol⟩
    rw [Nat.mul_comm, Nat.mul_add_div hbn, Nat.div_eq_of_lt hj, Nat.add_zero]

variable {bf16 op row n k} {counts : List ℕ} {bm cap : ℕ} (hbm : 0 < bm) (cfg : Tiles)
include hbm

lemma launch_once (hcap : (tileCounts counts bm).sum ≤ cap) {p c : ℕ} (hp : p < counts.sum) (hc : c < n)
    (hfit : (p - start counts (segmentOf counts p)) % bm < cfg.bm) :
    storesTo (launchStores bf16 op row n k cfg (tileAt counts (segments counts) bm) cap) (p, c) =
      [((p, c), rowValue bf16 op row k (segmentOf counts p) p c)] := by
  obtain ⟨hr0, hrow, hm⟩ := tile_row hbm hp
  obtain ⟨htid, htile⟩ := tile_of_position hbm hp
  have hcol : c / cfg.bn < blocksFor cfg.bn n := by
    have hle := le_blocksFor cfg.bn_pos n
    exact (Nat.div_lt_iff_lt_mul cfg.bn_pos).mpr (by omega)
  unfold launchStores
  rw [storesTo_flatMap, flatMap_once nodup_range (mem_range.mpr hcol) fun pidN _ hpid => ?_, storesTo_flatMap,
    flatMap_once nodup_range (mem_range.mpr (lt_of_lt_of_le htid hcap)) fun tid _ hne => ?_,
    groupedGemm_stores _ _ _ _ _ cfg.bn_pos, if_pos ⟨⟨hr0, by rw [hrow]; exact Nat.lt_min.mpr ⟨hfit, hm⟩⟩, rfl, hc⟩, htile]
  · rw [groupedGemm_stores _ _ _ _ _ cfg.bn_pos, if_neg]
    rintro ⟨⟨hr0', hrow'⟩, -⟩
    exact hne (tile_unique hbm hr0' (Nat.lt_min.mp hrow').2).2
  · rw [storesTo_flatMap, flatMap_eq_nil_iff]
    intro _ _
    rw [groupedGemm_stores _ _ _ _ _ cfg.bn_pos, if_neg fun h => hpid h.2.1.symm]

lemma launch_never {p : ℕ} (hp : p < counts.sum → cfg.bm ≤ (p - start counts (segmentOf counts p)) % bm) (c : ℕ) :
    storesTo (launchStores bf16 op row n k cfg (tileAt counts (segments counts) bm) cap) (p, c) = [] := by
  unfold launchStores
  rw [storesTo_flatMap, flatMap_eq_nil_iff]
  intro _ _
  rw [storesTo_flatMap, flatMap_eq_nil_iff]
  intro _ _
  rw [groupedGemm_stores _ _ _ _ _ cfg.bn_pos, if_neg]
  rintro ⟨⟨hr0, hrow⟩, -⟩
  obtain ⟨hlt, rfl⟩ := tile_unique hbm hr0 (Nat.lt_min.mp hrow).2
  have := (tile_row hbm hlt).2.1
  omega

end

/-! ## Sorted slots -/

section

variable [Zero R] [DecidableEq R] {rt : Routing R} {experts : ℕ} {skip : Bool}

/-- Expert ids in range, and negative ones only where they are skipped. -/
def ValidRouting (rt : Routing R) (experts : ℕ) (skip : Bool) : Prop :=
  ∀ s < rt.slots, rt.index s < experts ∧ (skip = false → 0 ≤ rt.index s)

def countsOf (rt : Routing R) (experts : ℕ) (skip : Bool) : List ℕ :=
  (List.range experts).map fun e : ℕ => (List.range rt.slots).countP fun s => decide (flat rt experts skip s = e)

@[simp] lemma countsOf_length : (countsOf rt experts skip).length = experts := by rw [countsOf, length_map, length_range]

lemma countsOf_getD {e : ℕ} (he : e < experts) : (countsOf rt experts skip).getD e 0 =
    (range rt.slots).countP fun s => decide (flat rt experts skip s = e) := by
  rw [countsOf, getD_eq_getElem?_getD, getElem?_map, getElem?_range he]
  rfl

lemma sorted_lt {p : ℕ} (hp : p < rt.slots) : (argsort (flat rt experts skip) rt.slots).getD p 0 < rt.slots := by
  rw [getD_eq_getElem?_getD, getElem?_eq_getElem (by rwa [argsort_length]), Option.getD_some]
  exact (mem_argsort _ _).mp (getElem_mem _)

variable (hvalid : ValidRouting rt experts skip)
include hvalid

lemma flat_nonneg {s : ℕ} (hs : s < rt.slots) : 0 ≤ flat rt experts skip s := by
  unfold flat
  split
  · rename_i hlive
    by_cases hskip : skip = true
    · exact (hlive hskip).1
    · exact (hvalid s hs).2 (by simpa using hskip)
  · exact Int.natCast_nonneg experts

/-- A dropped slot comes behind all experts. -/
lemma flat_lt_iff {s : ℕ} (hs : s < rt.slots) : flat rt experts skip s < experts ↔ Live rt skip s := by
  unfold flat
  split
  · rename_i hlive
    exact iff_of_true (hvalid s hs).1 hlive
  · rename_i hlive
    exact iff_of_false (lt_irrefl _) hlive

lemma routeCounts_eq : routeCounts rt experts skip =
    .ok ⟨argsort (flat rt experts skip) rt.slots, countsOf rt experts skip, segments (countsOf rt experts skip)⟩ := by
  have hbuckets : ∀ s < rt.slots, 0 ≤ flat rt experts skip s ∧ flat rt experts skip s < (experts + skip.toNat : ℕ) := by
    intro s hs
    refine ⟨flat_nonneg hvalid hs, ?_⟩
    by_cases hlive : Live rt skip s
    · have := (flat_lt_iff hvalid hs).mpr hlive
      omega
    · have hskip : skip = true := by
        by_contra h
        exact hlive fun hskip => absurd hskip h
      rw [flat, if_neg hlive, hskip]
      exact Int.ofNat_lt.mpr (Nat.lt_succ_self experts)
  unfold routeCounts
  rw [if_pos hbuckets]
  simp only [segments, countsOf_length]
  rfl

lemma start_countsOf {e : ℕ} (he : e ≤ experts) : start (countsOf rt experts skip) e =
    (range rt.slots).countP fun s => decide (flat rt experts skip s < e) := by
  induction e with
  | zero =>
    rw [start_zero, eq_comm, countP_eq_zero]
    intro s hs hlt
    have := flat_nonneg hvalid (mem_range.mp hs)
    rw [decide_eq_true_eq, Nat.cast_zero] at hlt
    omega
  | succ e ih =>
    rw [start_succ, ih (by omega), countsOf_getD he]
    have hsplit : ∀ l : List ℕ, (l.countP fun s => decide (flat rt experts skip s < e)) +
        (l.countP fun s => decide (flat rt experts skip s = e)) =
        l.countP fun s => decide (flat rt experts skip s < (e + 1 : ℕ)) := by
      intro l
      induction l with
      | nil => rfl
      | cons s l ih =>
        simp only [countP_cons, decide_eq_true_eq]
        split <;> split <;> split <;> omega
    exact hsplit _

variable {p : ℕ} (hp : p < rt.slots)
include hp

lemma sorted_lt_iff {e : ℕ} (he : e ≤ experts) :
    flat rt experts skip ((argsort (flat rt experts skip) rt.slots).getD p 0) < e ↔ p < start (countsOf rt experts skip) e := by
  have hlength : p < (argsort (flat rt experts skip) rt.slots).length := by rwa [argsort_length]
  rw [getD_eq_getElem?_getD, getElem?_eq_getElem hlength, Option.getD_some,
    getElem_lt_iff (argsort_sorted _ _), (argsort_perm _ _).countP_eq, start_countsOf hvalid he]

/-- **The live slots** come first. -/
theorem sorted_live_iff :
    Live rt skip ((argsort (flat rt experts skip) rt.slots).getD p 0) ↔ p < (countsOf rt experts skip).sum := by
  rw [← flat_lt_iff hvalid (sorted_lt hp), sorted_lt_iff hvalid hp le_rfl, ← start_length, countsOf_length]

lemma sorted_expert (hlive : p < (countsOf rt experts skip).sum) :
    (rt.index ((argsort (flat rt experts skip) rt.slots).getD p 0)).toNat = segmentOf (countsOf rt experts skip) p := by
  obtain ⟨he, hlo, hhi⟩ := segmentOf_spec hlive
  rw [countsOf_length] at he
  have hflat := (sorted_live_iff hvalid hp).mpr hlive
  have hlow := mt (sorted_lt_iff hvalid hp (le_of_lt he)).mp (Nat.not_lt_of_le hlo)
  have hhigh := (sorted_lt_iff hvalid hp he).mpr hhi
  rw [flat, if_pos hflat] at hlow hhigh
  omega

end

lemma mapHeight_pos [CommSemiring R] (host : Host R) (c : Call R) : 0 < mapHeight host c :=
  (host.tiles c.routing.slots).bm_pos

lemma capacity_enough [CommSemiring R] [DecidableEq R] (host : Host R) (c : Call R)
    (hvalid : ValidRouting c.routing c.dims.experts c.skipZeroWeights) :
    (tileCounts (countsOf c.routing c.dims.experts c.skipZeroWeights) (mapHeight host c)).sum ≤ capacity host c := by
  have hle := tileCounts_sum_le (mapHeight_pos host c) (countsOf c.routing c.dims.experts c.skipZeroWeights)
  have hsum : (countsOf c.routing c.dims.experts c.skipZeroWeights).sum ≤ c.routing.slots := by
    rw [← start_length, countsOf_length, start_countsOf hvalid le_rfl]
    exact countP_le_length.trans_eq length_range
  have hdiv : (countsOf c.routing c.dims.experts c.skipZeroWeights).sum / mapHeight host c ≤
      c.routing.slots / mapHeight host c := Nat.div_le_div_right hsum
  rw [countsOf_length] at hle
  unfold capacity
  omega

/-! ## The whole call -/

section

variable [CommSemiring R] [DecidableEq R] (host : Host R) (c : Call R)

/-- The expert of a live slot. -/
def expertOf (s : ℕ) : ℕ := (c.routing.index s).toNat

/-- The gate/up row of a slot: its token through its expert. -/
def gateUpRow (s n : ℕ) : R :=
  rowValue c.bf16 (gateUpOperands c) c.routing.token c.dims.hidden (expertOf c s) s n

/-- The down row of a slot, from its own gate/up row. -/
def downRow (s n : ℕ) : R :=
  rowValue c.bf16 (downOperands c fun cell => gateUpRow c cell.1 cell.2) id c.dims.inter (expertOf c s) s n

/-- What a slot adds to a token. -/
def routeTerm (t n s : ℕ) : R :=
  if c.routing.token s = t ∧ Live c.routing c.skipZeroWeights s then downRow c s n * c.routing.weight s else 0

/-- The weighted sum over the live routes of a token. -/
def moeRow (t n : ℕ) : R := c.bf16 (∑ s ∈ Finset.range c.routing.slots, routeTerm c t n s)

/-- **Every row once**, for its own token and expert, in both launches; nothing from a dropped slot; the weighted sum. -/
structure Dispatched (f : Forward R) : Prop where
  gateUp_once : ∀ p < c.routing.slots, Live c.routing c.skipZeroWeights (f.order.getD p 0) → ∀ n < 2 * c.dims.inter,
    storesTo f.gateUpStores (p, n) = [((p, n), gateUpRow c (f.order.getD p 0) n)]
  down_once : ∀ p < c.routing.slots, Live c.routing c.skipZeroWeights (f.order.getD p 0) → ∀ n < c.dims.hidden,
    storesTo f.downStores (p, n) = [((p, n), downRow c (f.order.getD p 0) n)]
  dropped_zero : ∀ p < c.routing.slots, ¬ Live c.routing c.skipZeroWeights (f.order.getD p 0) →
    ∀ n < c.dims.hidden, f.dn (p, n) = 0
  output : ∀ t < c.routing.t, ∀ n < c.dims.hidden, f.y t n = moeRow c t n

def launchTiles : Tiles := host.tiles (capacity host c)

def TilesFit : Prop :=
  mapHeight host c ≤ (launchTiles host c).bm ∨
    ∀ e < c.dims.experts, (countsOf c.routing c.dims.experts c.skipZeroWeights).getD e 0 ≤ (launchTiles host c).bm

def orderOf : List ℕ := argsort (flat c.routing c.dims.experts c.skipZeroWeights) c.routing.slots

/-- The stores of the two launches, and what they leave. -/
def gateUpLaunch : List (Store R) :=
  launchStores c.bf16 (gateUpOperands c) (fun ri => c.routing.token ((orderOf c).getD ri 0)) (2 * c.dims.inter) c.dims.hidden
    (launchTiles host c) (tileAt (countsOf c.routing c.dims.experts c.skipZeroWeights)
      (segments (countsOf c.routing c.dims.experts c.skipZeroWeights)) (mapHeight host c)) (capacity host c)

def gateUpAfter : ℕ × ℕ → R := assign (host.arrange (gateUpLaunch host c)) (allocate c host.freshGateUp)

def downLaunch : List (Store R) :=
  launchStores c.bf16 (downOperands c (gateUpAfter host c)) id c.dims.hidden c.dims.inter (launchTiles host c)
    (tileAt (countsOf c.routing c.dims.experts c.skipZeroWeights)
      (segments (countsOf c.routing c.dims.experts c.skipZeroWeights)) (mapHeight host c)) (capacity host c)

def downAfter : ℕ × ℕ → R := assign (host.arrange (downLaunch host c)) (allocate c host.freshDown)

def forward : Forward R where
  order := orderOf c
  gateUpStores := gateUpLaunch host c
  downStores := downLaunch host c
  dn := downAfter host c
  y t n := c.bf16 (indexAdd c (orderOf c) (downAfter host c) t n)

variable {host c}

/-- The launch's tile reaches the position. -/
def Covered (host : Host R) (c : Call R) (p : ℕ) : Prop :=
  (p - start (countsOf c.routing c.dims.experts c.skipZeroWeights)
    (segmentOf (countsOf c.routing c.dims.experts c.skipZeroWeights) p)) % mapHeight host c < (launchTiles host c).bm

lemma TilesFit.covered (hfit : TilesFit host c) {p : ℕ}
    (hp : p < (countsOf c.routing c.dims.experts c.skipZeroWeights).sum) : Covered host c p := by
  obtain ⟨he, hlo, hhi⟩ := segmentOf_spec hp
  rw [countsOf_length] at he
  rw [start_succ] at hhi
  rcases hfit with hheight | hcounts
  · exact lt_of_lt_of_le (Nat.mod_lt _ (mapHeight_pos host c)) hheight
  · have hcount := hcounts _ he
    exact lt_of_le_of_lt (Nat.mod_le _ _) (by omega)

lemma exists_lost (hfit : ¬ TilesFit host c) : ∃ p < (countsOf c.routing c.dims.experts c.skipZeroWeights).sum,
    ¬ Covered host c p := by
  obtain ⟨hheight, hcounts⟩ := not_or.mp hfit
  obtain ⟨e, hcounts⟩ := not_forall.mp hcounts
  obtain ⟨he, hcount⟩ := Classical.not_imp.mp hcounts
  have hnext : start (countsOf c.routing c.dims.experts c.skipZeroWeights) e + (launchTiles host c).bm <
      start (countsOf c.routing c.dims.experts c.skipZeroWeights) (e + 1) := by
    rw [start_succ]
    omega
  refine ⟨start _ e + (launchTiles host c).bm,
    lt_of_lt_of_le hnext (start_le_sum _ _), ?_⟩
  rw [Covered, segmentOf_eq (by rwa [countsOf_length]) (Nat.le_add_right _ _) hnext, Nat.add_sub_cancel_left,
    Nat.mod_eq_of_lt (Nat.lt_of_not_le hheight)]
  exact Nat.lt_irrefl _

variable (hvalid : ValidRouting c.routing c.dims.experts c.skipZeroWeights)
include hvalid

/-- **A call returns** when there is an expert and its tile compiles. -/
theorem native_eq : native host c = if c.dims.experts = 0 then .error .noExperts
    else if host.compiles (launchTiles host c) then .ok (forward host c) else .error .notCompiled := by
  have hcounts : countsOf c.routing c.dims.experts c.skipZeroWeights = [] ↔ c.dims.experts = 0 := by
    rw [← length_eq_zero_iff, countsOf_length]
  unfold native
  rw [routeCounts_eq hvalid]
  simp only [bind, Except.bind]
  unfold tileMapStatic groupedBackend
  by_cases hexperts : c.dims.experts = 0
  · rw [if_pos hexperts, if_pos (hcounts.mpr hexperts)]
  · rw [if_neg hexperts, if_neg (mt hcounts.mp hexperts)]
    unfold launchTiles
    by_cases hcompiles : host.compiles (host.tiles (capacity host c))
    · simp only [hcompiles, if_true]
      rfl
    · simp only [hcompiles]
      rfl

section

variable {p : ℕ} (hrow : Covered host c p) (hp : p < c.routing.slots)
  (hlive : p < (countsOf c.routing c.dims.experts c.skipZeroWeights).sum)
include hrow hp hlive

variable {n : ℕ}

lemma gateUp_stores (hn : n < 2 * c.dims.inter) :
    storesTo (gateUpLaunch host c) (p, n) = [((p, n), gateUpRow c ((orderOf c).getD p 0) n)] := by
  unfold gateUpLaunch
  rw [launch_once (mapHeight_pos host c) _ (capacity_enough host c hvalid) hlive hn hrow,
    ← sorted_expert hvalid hp hlive]
  rfl

lemma gateUpAfter_row (hn : n < 2 * c.dims.inter) :
    gateUpAfter host c (p, n) = gateUpRow c ((orderOf c).getD p 0) n :=
  assign_once (host.arrange_perm _) (gateUp_stores hvalid hrow hp hlive hn) _

lemma down_stores (hn : n < c.dims.hidden) :
    storesTo (downLaunch host c) (p, n) = [((p, n), downRow c ((orderOf c).getD p 0) n)] := by
  have hact : ∀ i < c.dims.inter, c.act.run c.dims.inter (fun n => gateUpAfter host c (p, n)) i =
      c.act.run c.dims.inter (gateUpRow c ((orderOf c).getD p 0)) i :=
    c.act.congr _ _ _ fun n hn => gateUpAfter_row hvalid hrow hp hlive hn
  unfold downLaunch
  rw [launch_once (mapHeight_pos host c) _ (capacity_enough host c hvalid) hlive hn hrow,
    ← sorted_expert hvalid hp hlive]
  have hdot : dotBlocks c.dims.inter ((downOperands c (gateUpAfter host c)).a p) ((downOperands c (gateUpAfter host c)).sa p)
        (c.down (expertOf c ((orderOf c).getD p 0)) n) (c.downScales (expertOf c ((orderOf c).getD p 0)) (n / 128)) =
      dotBlocks c.dims.inter (c.quantize.payload c.dims.inter (c.act.run c.dims.inter (gateUpRow c ((orderOf c).getD p 0))))
        (c.quantize.scale c.dims.inter (c.act.run c.dims.inter (gateUpRow c ((orderOf c).getD p 0))))
        (c.down (expertOf c ((orderOf c).getD p 0)) n) (c.downScales (expertOf c ((orderOf c).getD p 0)) (n / 128)) := by
    refine Finset.sum_congr rfl fun kb hkb => ?_
    have hkb := Finset.mem_range.mp hkb
    congr 1
    · refine Finset.sum_congr rfl fun r hr => ?_
      have hr := Finset.mem_range.mp hr
      exact congrArg (· * _) (c.quantize.payload_congr _ _ _ hact _ (by omega))
    · exact congrArg (· * _) (c.quantize.scale_congr _ _ _ hact kb hkb)
  exact congrArg (fun v => [((p, n), c.bf16 v)]) hdot

end

lemma downAfter_row {p : ℕ} (hrow : p < (countsOf c.routing c.dims.experts c.skipZeroWeights).sum → Covered host c p)
    (hp : p < c.routing.slots) {n : ℕ} (hn : n < c.dims.hidden) : downAfter host c (p, n) =
      if Live c.routing c.skipZeroWeights ((orderOf c).getD p 0) then downRow c ((orderOf c).getD p 0) n else 0 := by
  by_cases hlive : Live c.routing c.skipZeroWeights ((orderOf c).getD p 0)
  · have hlt := (sorted_live_iff hvalid hp).mp hlive
    rw [if_pos hlive]
    exact assign_once (host.arrange_perm _) (down_stores hvalid (hrow hlt) hp hlt hn) _
  · have hskip : c.skipZeroWeights = true := by
      by_contra h
      exact hlive fun hskip => absurd hskip h
    have hdropped := mt (sorted_live_iff hvalid hp).mpr hlive
    rw [if_neg hlive, downAfter, downLaunch, assign_never (host.arrange_perm _)
      (launch_never (mapHeight_pos host c) _ (fun h => absurd h hdropped) n), allocate, if_pos hskip]

lemma dispatched_of_tilesFit (hfit : TilesFit host c) : Dispatched c (forward host c) where
  gateUp_once p hp hlive n hn :=
    have hlt := (sorted_live_iff hvalid hp).mp hlive
    gateUp_stores hvalid (hfit.covered hlt) hp hlt hn
  down_once p hp hlive n hn :=
    have hlt := (sorted_live_iff hvalid hp).mp hlive
    down_stores hvalid (hfit.covered hlt) hp hlt hn
  dropped_zero p hp hlive n hn := (downAfter_row hvalid hfit.covered hp hn).trans (if_neg hlive)
  output t ht n hn := by
    refine congrArg c.bf16 (Eq.trans (Finset.sum_congr rfl fun p hp => ?_)
      (sum_argsort (flat c.routing c.dims.experts c.skipZeroWeights) c.routing.slots _))
    change _ = routeTerm c t n ((orderOf c).getD p 0)
    rw [downAfter_row hvalid hfit.covered (Finset.mem_range.mp hp) hn, routeTerm]
    by_cases htok : c.routing.token ((orderOf c).getD p 0) = t
    · by_cases hlive : Live c.routing c.skipZeroWeights ((orderOf c).getD p 0)
      · rw [if_pos htok, if_pos hlive, if_pos ⟨htok, hlive⟩]
      · rw [if_pos htok, if_neg hlive, if_neg fun h => hlive h.2, zero_mul]
    · rw [if_neg htok, if_neg fun h => htok h.1]

lemma tilesFit_of_dispatched (hcolumn : 0 < c.dims.inter ∨ 0 < c.dims.hidden) (h : Dispatched c (forward host c)) :
    TilesFit host c := by
  by_contra hfit
  obtain ⟨p, hp, hlost⟩ := exists_lost hfit
  have hslots : p < c.routing.slots := by
    rw [← start_length, countsOf_length, start_countsOf hvalid le_rfl] at hp
    exact lt_of_lt_of_le hp (countP_le_length.trans_eq length_range)
  have hlive := (sorted_live_iff hvalid hslots).mpr hp
  rcases hcolumn with hpos | hpos
  · have honce := h.gateUp_once p hslots hlive 0 (by omega)
    rw [forward, gateUpLaunch, launch_never (mapHeight_pos host c) _ fun _ => Nat.le_of_not_lt hlost] at honce
    cases honce
  · have honce := h.down_once p hslots hlive 0 hpos
    rw [forward, downLaunch, launch_never (mapHeight_pos host c) _ fun _ => Nat.le_of_not_lt hlost] at honce
    cases honce

/-- **Every live row once**, exactly when there is an expert, the tile compiles and no row tile is higher than it. -/
theorem native_iff : (∃ f, native host c = .ok f ∧ Dispatched c f) ↔
    0 < c.dims.experts ∧ host.compiles (launchTiles host c) = true ∧
      (TilesFit host c ∨ c.dims.inter = 0 ∧ c.dims.hidden = 0) := by
  rw [native_eq hvalid]
  constructor
  · rintro ⟨f, hf, hdispatched⟩
    split at hf
    · cases hf
    · rename_i hexperts
      split at hf
      · rename_i hcompiles
        cases hf
        refine ⟨pos_of_ne_zero hexperts, hcompiles, ?_⟩
        by_cases hcolumn : c.dims.inter = 0 ∧ c.dims.hidden = 0
        · exact .inr hcolumn
        · exact .inl (tilesFit_of_dispatched hvalid (by omega) hdispatched)
      · cases hf
  · rintro ⟨hexperts, hcompiles, hfit⟩
    refine ⟨forward host c, by rw [if_neg (ne_of_gt hexperts), if_pos hcompiles], ?_⟩
    rcases hfit with hfit | ⟨hinter, hhidden⟩
    · exact dispatched_of_tilesFit hvalid hfit
    · -- there is no column
      constructor
      · intro p _ _ n hn
        omega
      · intro p _ _ n hn
        omega
      · intro p _ _ n hn
        omega
      · intro t _ n hn
        omega

end

/-! ## A table with a low tile for few row tiles -/

section

def hostWith (table : List (ℤ × Tiles)) : Host ℤ where
  override := none
  table := table
  compiles _ := true
  freshGateUp _ := 0
  freshDown _ := 0
  arrange stores := stores
  arrange_perm _ := List.Perm.refl _

def lowTiles : Tiles := ⟨16, 128, 4, 3, by decide, by decide, by decide, stages_pos⟩

/-- Buckets 1 and 64. -/
def tallTable : List (ℤ × Tiles) := [(1, lowTiles), (64, defaultTiles)]

lemma one_block : 128 ∣ 128 := dvd_refl 128

/-- 64 tokens for one expert, without quantization; the activation keeps the gate. -/
def tallCall : Call ℤ where
  dims := ⟨1, 128, 128, one_block, one_block⟩
  routing := ⟨64, 1, fun _ => 0, fun _ => 1⟩
  x _ _ := 1
  gateUp _ _ _ := 1
  gateUpScales _ _ _ := 1
  down _ _ _ := 1
  downScales _ _ _ := 1
  skipZeroWeights := false
  quantize := ⟨fun _ row => row, fun _ _ _ => 1, fun _ _ _ h => h, fun _ _ _ _ _ _ => rfl⟩
  act := ⟨fun _ row => row, fun _ _ _ h c hc => h c (by omega)⟩
  bf16 v := v

lemma tallCall_valid : ValidRouting tallCall.routing tallCall.dims.experts tallCall.skipZeroWeights :=
  fun _ _ => ⟨Int.one_pos, fun _ => Int.le_refl 0⟩

theorem native_iff_default : ∃ f, native (hostWith []) tallCall = .ok f ∧ Dispatched tallCall f :=
  (native_iff tallCall_valid).mpr ⟨by decide, rfl, .inl (.inl (by decide))⟩

/-- Row tiles of 64 rows, launched with 16: rows 16 to 63 are not computed. -/
theorem low_tile_loses_rows : ValidRouting tallCall.routing tallCall.dims.experts tallCall.skipZeroWeights ∧
    ¬ ∃ f, native (hostWith tallTable) tallCall = .ok f ∧ Dispatched tallCall f := by
  refine ⟨tallCall_valid, ?_⟩
  rintro ⟨f, hf, hdispatched⟩
  have hcompiles : (hostWith tallTable).compiles (launchTiles (hostWith tallTable) tallCall) = true := rfl
  cases hf
  have hfit := tilesFit_of_dispatched tallCall_valid (.inl (by decide)) hdispatched
  have hcount : (countsOf tallCall.routing tallCall.dims.experts tallCall.skipZeroWeights).getD 0 0 = 64 := by decide
  rcases hfit with hheight | hcounts
  · exact absurd hheight (by decide)
  · exact absurd (hcount ▸ hcounts 0 (by decide)) (by decide)

end

end VKernels.GroupedFp8
