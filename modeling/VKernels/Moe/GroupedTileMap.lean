import VKernels.Lib.LaneLaunch
import VKernels.Moe.NativeGrouped

/-!
# The tile map of a grouped launch

`_tile_map_static` with the capacity of its caller, and `grouped_tile_map` of `torch_ops/grouped_prefill_glue.py` with
its kernel, which finds the expert of a tile by a search of a fixed number of steps.

* `searchStep`, `search` — the halving of the kernel; `tileLane` — what it stores for a tile.

## Results

* `search_eq` — the steps are enough, and end where `searchsorted(right=True)` does.
* `tile_map_exact` — the static map partitions the rows within its capacity, and the single launch returns it.
-/

namespace VKernels.GroupedFp8

open Grouping Segments MaskedStores LaneLaunch
open LocalActions (assign)
open List

/-! ## The kernel -/

section

variable (counts seg : List ℕ) (bm : ℕ)

/-- `tl.load(C + experts * CS, experts < NC, 0)`. -/
def laneCount (e : ℕ) : ℕ := if e < counts.length then counts.getD e 0 else 0

def laneTiles (e : ℕ) : ℕ := (laneCount counts e + bm - 1) / bm

/-- `tl.cumsum`, inclusive. -/
def laneEnds (e : ℕ) : ℕ := ((range (e + 1)).map (laneTiles counts bm)).sum

/-- One turn of the search for `tid` between `lo` and `hi`. -/
def searchStep (tid : ℕ) (s : ℕ × ℕ) : ℕ × ℕ :=
  let (lo, hi) := s
  let mid := (lo + hi) / 2
  let right := mid < counts.length ∧ laneEnds counts bm (min mid (counts.length - 1)) ≤ tid
  let active := lo < hi
  (if active ∧ right then mid + 1 else lo, if active ∧ ¬right then mid else hi)

def search (steps tid : ℕ) : ℕ := ((searchStep counts bm tid)^[steps] (0, counts.length)).1

def tileLane (steps tid : ℕ) : Tile :=
  let total := ((range (nextPowerOf2 counts.length)).map (laneTiles counts bm)).sum
  let expert := min (search counts bm steps tid) (counts.length - 1)
  let inner := tid - (laneEnds counts bm expert - laneTiles counts bm expert)
  let start := seg.getD expert 0 + inner * bm
  let size := min (laneCount counts expert - inner * bm) bm
  ⟨expert, if tid < total then start else 0, if tid < total then size else 0⟩

/-- The stores of the launch: programs of 256 lanes. -/
def tileMapStores (steps cap : ℕ) : List (ℕ × Tile) :=
  (range ((cap + 255) / 256)).flatMap fun pid => (range 256).flatMap fun lane =>
    storeIf (pid * 256 + lane < cap) (pid * 256 + lane) (tileLane counts seg bm steps (pid * 256 + lane))

/-- `grouped_tile_map`: what the outputs hold, whatever `torch.empty` gave; `none` where it is not eligible. -/
def groupedTileMap (cap : ℕ) (fresh : ℕ → Tile) : Option (ℕ → Tile) :=
  if counts.length = seg.length ∧ (0 < counts.length ∧ counts.length ≤ 1024) ∧ (0 < bm ∧ bm ≤ 1024) ∧ cap ≤ 131072 then
    -- `bit_length() + 1` steps
    some (if cap = 0 then fresh else assign (tileMapStores counts seg bm (counts.length.size + 1) cap) fresh)
  else none

end

/-- `min(slots, slots // bm + n_experts + 1)`. -/
def tileCapacity (slots bm experts : ℕ) : ℕ := min slots (slots / bm + experts + 1)

/-- The tiles with rows are runs of at most `bm` rows of one expert, in order, below the capacity; every row is in one
of them, and the other tiles are zero. -/
structure Partitions (counts : List ℕ) (bm cap : ℕ) (tile : ℕ → Tile) : Prop where
  height : ∀ tid, (tile tid).m ≤ bm
  capacity : ∀ tid, 0 < (tile tid).m → tid < cap
  run : ∀ tid, 0 < (tile tid).m → (tile tid).exp < counts.length ∧ start counts (tile tid).exp ≤ (tile tid).r0 ∧
    (tile tid).r0 + (tile tid).m ≤ start counts ((tile tid).exp + 1)
  ordered : ∀ tid tid', tid < tid' → 0 < (tile tid').m → (tile tid).r0 + (tile tid).m ≤ (tile tid').r0
  rows : ∀ p < counts.sum, ∃! tid, (tile tid).r0 ≤ p ∧ p < (tile tid).r0 + (tile tid).m
  rest : ∀ tid, 0 < (tile tid).m ∨ (tile tid).m = 0 ∧ (tile tid).r0 = 0

variable {counts : List ℕ} {bm : ℕ}

/-! ## The search -/

lemma laneTiles_eq {e : ℕ} (he : e < counts.length) : laneTiles counts bm e = (tileCounts counts bm).getD e 0 := by
  rw [tileCounts_getD he, laneTiles, laneCount, if_pos he, blocksFor]

lemma laneTiles_padding (hbm : 0 < bm) {e : ℕ} (he : counts.length ≤ e) : laneTiles counts bm e = 0 := by
  rw [laneTiles, laneCount, if_neg (by omega)]
  exact Nat.div_eq_of_lt (by omega)

lemma sum_laneTiles {n : ℕ} (hn : n ≤ counts.length) :
    ((range n).map (laneTiles counts bm)).sum = start (tileCounts counts bm) n := by
  induction n with
  | zero => rfl
  | succ n ih =>
    rw [range_succ, map_append, sum_append, ih (by omega), start_succ, map_singleton,
      sum_singleton, laneTiles_eq (by omega)]

variable {tid steps : ℕ}

/-- **One step** keeps the bounds of the answer and halves their distance. -/
theorem searchStep_spec {answer lo hi : ℕ} (hlo : lo ≤ answer) (hhi : answer ≤ hi) (hlen : hi ≤ counts.length)
    (hanswer : ∀ e < counts.length, laneEnds counts bm e ≤ tid ↔ e < answer) :
    let s := searchStep counts bm tid (lo, hi)
    s.1 ≤ answer ∧ answer ≤ s.2 ∧ s.2 ≤ counts.length ∧ s.2 - s.1 ≤ (hi - lo) / 2 := by
  unfold searchStep
  dsimp only
  by_cases hactive : lo < hi
  · have hmid : (lo + hi) / 2 < counts.length := by omega
    have hclamp : min ((lo + hi) / 2) (counts.length - 1) = (lo + hi) / 2 := by omega
    have hiff := hanswer _ hmid
    rw [hclamp]
    by_cases hright : laneEnds counts bm ((lo + hi) / 2) ≤ tid
    · rw [if_pos ⟨hactive, hmid, hright⟩, if_neg fun h => h.2 ⟨hmid, hright⟩]
      omega
    · rw [if_neg fun h => hright h.2.2, if_pos ⟨hactive, fun h => hright h.2⟩]
      omega
  · rw [if_neg fun h => hactive h.1, if_neg fun h => hactive h.1]
    omega

lemma search_eq {answer : ℕ} (hle : answer ≤ counts.length) (hsteps : counts.length < 2 ^ steps)
    (hanswer : ∀ e < counts.length, laneEnds counts bm e ≤ tid ↔ e < answer) : search counts bm steps tid = answer := by
  have hrun (n : ℕ) : let s := (searchStep counts bm tid)^[n] (0, counts.length)
      s.1 ≤ answer ∧ answer ≤ s.2 ∧ s.2 ≤ counts.length ∧ s.2 - s.1 ≤ counts.length / 2 ^ n := by
    induction n with
    | zero => simpa using hle
    | succ n ih =>
      obtain ⟨hlo, hhi, hlen, hdist⟩ := ih
      rw [Function.iterate_succ_apply', pow_succ, ← Nat.div_div_eq_div_mul]
      obtain ⟨hlo', hhi', hlen', hdist'⟩ := searchStep_spec hlo hhi hlen hanswer
      exact ⟨hlo', hhi', hlen', hdist'.trans (Nat.div_le_div_right hdist)⟩
  obtain ⟨hlo, hhi, -, hdist⟩ := hrun steps
  rw [Nat.div_eq_of_lt hsteps] at hdist
  rw [search]
  omega

/-- **A lane** stores the tile of the static map. -/
theorem tileLane_eq (hbm : 0 < bm) (hcounts : counts ≠ []) {seg : List ℕ} (hsteps : counts.length < 2 ^ steps)
    (tid : ℕ) : tileLane counts seg bm steps tid = tileAt counts seg bm tid := by
  have hpos : 0 < counts.length := length_pos_of_ne_nil hcounts
  have hlength : (tileCounts counts bm).length = counts.length := length_map _
  have hends (e : ℕ) (he : e < counts.length) : laneEnds counts bm e = start (tileCounts counts bm) (e + 1) :=
    sum_laneTiles he
  have hsearch : search counts bm steps tid = segmentOf (tileCounts counts bm) tid := by
    refine search_eq ?_ hsteps fun e he => ?_
    · rw [← hlength]
      exact countP_le_length.trans (length_range).le
    · rw [hends e he, lt_segmentOf_iff (by rwa [hlength])]
  have htotal : ((range (nextPowerOf2 counts.length)).map (laneTiles counts bm)).sum = (tileCounts counts bm).sum := by
    obtain ⟨rest, hrest⟩ := Nat.exists_eq_add_of_le (le_nextPowerOf2 counts.length)
    have hpadding : ((range rest).map fun e => laneTiles counts bm (counts.length + e)).sum = 0 :=
      sum_eq_zero fun x hx => by
        obtain ⟨e, -, rfl⟩ := mem_map.mp hx
        exact laneTiles_padding hbm (Nat.le_add_right _ _)
    rw [hrest, range_add, map_append, sum_append, sum_laneTiles le_rfl, map_map]
    change _ + ((range rest).map fun e => laneTiles counts bm (counts.length + e)).sum = _
    rw [hpadding, add_zero, ← hlength, start_length]
  unfold tileLane tileAt
  dsimp only
  rw [hsearch, htotal, ← tileCounts]
  generalize he : min _ (counts.length - 1) = e
  have he : e < counts.length := by omega
  have hoffset : laneEnds counts bm e - laneTiles counts bm e = start (tileCounts counts bm) e := by
    rw [hends e he, start_succ, laneTiles_eq he, Nat.add_sub_cancel_right]
  rw [hoffset, laneCount, if_pos he]
  split <;> rfl

/-- **The launch** leaves every output below the capacity as its lane stored it. -/
theorem assign_tileMapStores {seg : List ℕ} {cap : ℕ} (htid : tid < cap) (fresh : ℕ → Tile) :
    assign (tileMapStores counts seg bm steps cap) fresh tid = tileLane counts seg bm steps tid := by
  have hmem {x : ℕ} {v : Tile} : (x, v) ∈ tileMapStores counts seg bm steps cap ↔ ∃ pid < (cap + 255) / 256,
      ∃ lane < 256, pid * 256 + lane < cap ∧ x = pid * 256 + lane ∧ v = tileLane counts seg bm steps (pid * 256 + lane) := by
    simp only [tileMapStores, mem_flatMap, mem_range, storeIf]
    refine exists_congr fun pid => and_congr_right fun _ => exists_congr fun lane => and_congr_right fun _ => ?_
    split <;> simp [*]
  refine assign_agree ?_ ?_ fresh
  · have hplace : tid / 256 * 256 + tid % 256 = tid := Nat.div_add_mod' tid 256
    exact hmem.mpr ⟨tid / 256, by omega, tid % 256, by omega, by omega, hplace.symm, by rw [hplace]⟩
  · intro v hv
    obtain ⟨_, -, _, -, -, rfl, rfl⟩ := hmem.mp hv
    rfl

/-! ## The partition -/

/-- A tile with rows is a block of an expert; the others are zero. -/
lemma tile_cases (hbm : 0 < bm) (tid : ℕ) :
    (∃ e < counts.length, ∃ b < blocksFor bm (counts.getD e 0), tid = start (tileCounts counts bm) e + b ∧
      tileAt counts (segments counts) bm tid = ⟨e, start counts e + b * bm, min (counts.getD e 0 - b * bm) bm⟩ ∧
      b * bm < counts.getD e 0) ∨
    ((tileAt counts (segments counts) bm tid).m = 0 ∧ (tileAt counts (segments counts) bm tid).r0 = 0) := by
  by_cases htotal : tid < (tileCounts counts bm).sum
  · obtain ⟨he, hlo, hhi⟩ := segmentOf_spec htotal
    have he' : segmentOf (tileCounts counts bm) tid < counts.length := by rwa [tileCounts, length_map] at he
    rw [start_succ, tileCounts_getD he'] at hhi
    obtain ⟨b, hb⟩ := Nat.exists_eq_add_of_le hlo
    have hlt : b < blocksFor bm (counts.getD (segmentOf (tileCounts counts bm) tid) 0) := by omega
    refine .inl ⟨_, he', b, hlt, hb, ?_, block_start_lt hbm hlt⟩
    conv_lhs => rw [hb]
    exact tileAt_block he' hlt
  · right
    unfold tileAt
    rw [← tileCounts, if_neg htotal]
    exact ⟨rfl, rfl⟩

lemma partitions_of_le (hbm : 0 < bm) {cap : ℕ} (hcap : (tileCounts counts bm).sum ≤ cap) :
    Partitions counts bm cap (tileAt counts (segments counts) bm) where
  height tid := by
    obtain ⟨e, -, b, -, -, htile, -⟩ | ⟨hm, -⟩ := tile_cases hbm tid
    · rw [htile]
      exact min_le_right _ _
    · omega
  capacity tid hm := by
    obtain ⟨e, he, b, hb, htid⟩ := exists_block (i := 0) hm
    have hnext := start_le_sum (tileCounts counts bm) (e + 1)
    rw [start_succ, tileCounts_getD he] at hnext
    omega
  run tid hm := by
    obtain ⟨e, he, b, -, -, htile, hlt⟩ | ⟨hzero, -⟩ := tile_cases hbm tid
    · rw [htile, start_succ]
      exact ⟨he, Nat.le_add_right _ _, by dsimp only; omega⟩
    · omega
  ordered tid tid' hlt hm := by
    obtain ⟨e', he', b', hb', htid', htile', -⟩ | ⟨hzero, -⟩ := @tile_cases counts _ hbm tid'
    · obtain ⟨e, he, b, hb, htid, htile, hrow⟩ | ⟨hzero, hr0⟩ := @tile_cases counts _ hbm tid
      · rw [htile, htile']
        dsimp only
        rcases lt_trichotomy e e' with hee | rfl | hee
        · have hnext := start_mono counts (show e + 1 ≤ e' from hee)
          rw [start_succ] at hnext
          omega
        · have hblocks := Blocks.block_le (show b < b' by omega) bm
          omega
        · have hnext := start_mono (tileCounts counts bm) (show e' + 1 ≤ e from hee)
          rw [start_succ, tileCounts_getD he'] at hnext
          omega
      · omega
    · omega
  rows p hp := by
    obtain ⟨hr0, hplace, hm⟩ := tile_row hbm hp
    refine ⟨tileOf counts bm p, ⟨hr0, by omega⟩, fun tid ⟨hle, hlt⟩ => ?_⟩
    exact (tile_unique hbm hle (by omega)).2
  rest tid := by
    obtain ⟨e, -, b, -, -, htile, hrow⟩ | hzero := tile_cases hbm tid
    · left
      rw [htile]
      exact lt_min (by omega) hbm
    · exact .inr hzero

/-- **The tile map**: for every vector of counts that the static map accepts, every block height and every number of
slots that holds the rows. -/
theorem tile_map_exact (counts : List ℕ) (bm slots : ℕ) (tile : ℕ → Tile) (hbm : 0 < bm) (hslots : counts.sum ≤ slots)
    (h : tileMapStatic counts (segments counts) bm = .ok tile) :
    Partitions counts bm (tileCapacity slots bm counts.length) tile ∧ ∀ (cap : ℕ) (fresh : ℕ → Tile),
      (counts.length ≤ 1024 ∧ bm ≤ 1024 ∧ cap ≤ 131072 →
        ∃ out, groupedTileMap counts (segments counts) bm cap fresh = some out) ∧
      ∀ out, groupedTileMap counts (segments counts) bm cap fresh = some out → ∀ tid < cap, out tid = tile tid := by
  unfold tileMapStatic at h
  split at h
  · cases h
  rename_i hcounts
  obtain rfl := Except.ok.inj h
  constructor
  · refine partitions_of_le hbm ((tileCounts_sum_le hbm counts).trans ?_)
    have hmono := Nat.div_le_div_right (c := bm) hslots
    unfold tileCapacity
    omega
  · refine fun cap fresh => ⟨fun ⟨hexperts, hheight, hcap⟩ => ?_, fun out hout tid htid => ?_⟩
    · have hlength : counts.length = (segments counts).length := by simp [segments]
      exact ⟨_, if_pos ⟨hlength, ⟨length_pos_of_ne_nil hcounts, hexperts⟩, ⟨hbm, hheight⟩, hcap⟩⟩
    unfold groupedTileMap at hout
    split at hout
    · obtain rfl := Option.some.inj hout
      have hsteps : counts.length < 2 ^ (counts.length.size + 1) :=
        (Nat.lt_size_self _).trans (Nat.pow_lt_pow_right (by norm_num) (Nat.lt_succ_self _))
      rw [if_neg (by omega), assign_tileMapStores htid, tileLane_eq hbm hcounts hsteps]
    · cases hout

/-- Three experts, of which the second is empty. -/
theorem tile_map_exact_threeExperts : Partitions [3, 0, 2] 2 (tileCapacity 5 2 3)
    (tileAt [3, 0, 2] (segments [3, 0, 2]) 2) :=
  (tile_map_exact [3, 0, 2] 2 5 _ (by decide) (by decide) rfl).1

end VKernels.GroupedFp8
