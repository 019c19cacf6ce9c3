import VKernels.Attention.PagedDecode

/-!
# Paged decode attention, over exact arithmetic

* `row_eq` — a lane's row is that of the pools with the fresh row in the last slot.
* `attend_holds`, `splits_merge` — the positions that a range of blocks gathers, and splits merged.

## Results

* `paged_decode_attention` — the three calls return the attention of the reference for any order of their programs, and
  store the fresh rows and nothing else.
* `wide_head_raises` — a head size that is not a power of two.
-/

namespace VKernels.PagedDecode

open Finset SplitSoftmax WorkerTasks
open Grouping (blocksFor le_blocksFor blocksFor_lt)
open LaneLaunch (arange arange_ok tile_ok dot_ok)
open MaskedStores (storeIf)
open List hiding Disjoint Ico disjoint_left mem_filter mem_range min range
open Real (exp sqrt)

structure WellFormed {V : Type} (c : Call V) : Prop where
  kvHeads : 0 < c.nKv
  heads : 0 < c.nQ
  group : c.nKv ∣ c.nQ
  newShape : ∀ kn ∈ c.kNew, kn.shape = [c.B, c.nKv, c.D]
  lens : ∀ b < c.B, 1 ≤ c.seqLens b
  slots : ∀ b < c.B, ∀ pos < c.seqLens b, 0 ≤ c.blockTable b pos ∧ c.blockTable b pos < c.maxTotal
  /-- A slot that receives a fresh row is nowhere else. -/
  notShared : ∀ b < c.B, c.Stores b → ∀ b' < c.B, ∀ pos < c.seqLens b', (b', pos) ≠ (b, c.seqLens b - 1) →
    c.blockTable b' pos ≠ c.slot b

section

variable {V : Type} [Field V] {exp sqrt : V → V} {c : Call V} {pool : Pool V} {b h : ℕ}

lemma reference_eq_attention (d : ℕ) : decodeAttentionReference exp sqrt c pool b h d =
    attention exp (referenceScore sqrt c pool b h) (fun pos d => pool (.v, c.blockTable b pos, h / c.G, d))
      (range (c.seqLens b)) d := by
  simp [decodeAttentionReference, referenceP, attention, sum_div, div_mul_eq_mul_div]

end

variable {V : Type} {c : Call V}

/-! ## Pool rows -/

section

lemma slot_of_stores {b : ℕ} (h : c.Stores b) : c.slot b = c.blockTable b (c.seqLens b - 1) := if_pos h.1

variable {p : Program}

lemma mem_storeRow {loc : PoolLoc} {v : V} (h : (loc, v) ∈ storeRow c p) :
    ∃ new, c.fresh = some new ∧ loc.2.1 = c.slot p.b ∧ loc.2.2.1 = p.hkv ∧ v = new loc.1 p.b loc.2.2.1 loc.2.2.2 := by
  unfold storeRow at h
  split at h
  · rename_i new hnew
    refine ⟨new, hnew, ?_⟩
    rcases mem_append.mp h with h | h
    all_goals
      obtain ⟨d, -, heq⟩ := mem_map.mp h
      obtain ⟨rfl, rfl⟩ := Prod.mk.inj heq
      exact ⟨rfl, rfl, rfl⟩
  · cases h

lemma storeRow_mem {new : Plane → ℕ → ℕ → ℕ → V} (hnew : c.fresh = some new) (plane : Plane) {d : ℕ}
    (hd : d < c.D) : ((plane, c.slot p.b, p.hkv, d), new plane p.b p.hkv d) ∈ storeRow c p := by
  unfold storeRow
  rw [hnew]
  cases plane with
  | k => exact mem_append_left _ (mem_map.mpr ⟨d, mem_range.mpr hd, rfl⟩)
  | v => exact mem_append_right _ (mem_map.mpr ⟨d, mem_range.mpr hd, rfl⟩)

/-- What the pool stores of a launch are: fresh rows of the batch rows that store. -/
structure StoresRows (c : Call V) (programs : List Program) (stores : Program → List (PoolLoc × V)) : Prop where
  rows : ∀ p ∈ programs, p.b < c.B
  only : ∀ p ∈ programs, ∀ st ∈ stores p, c.Stores p.b ∧ st ∈ storeRow c p
  all : ∀ b < c.B, c.Stores b → ∀ h < c.nKv, ∃ p ∈ programs, p.b = b ∧ p.hkv = h ∧ stores p = storeRow c p

variable {programs : List Program} {stores : Program → List (PoolLoc × V)} (hc : WellFormed c)
  (hs : StoresRows c programs stores)
include hs

lemma StoresRows.mem {loc : PoolLoc} {v : V} (h : (loc, v) ∈ programs.flatMap stores) :
    ∃ b < c.B, c.Stores b ∧ loc.2.1 = c.slot b ∧ ∃ new, c.fresh = some new ∧ v = new loc.1 b loc.2.2.1 loc.2.2.2 := by
  obtain ⟨p, hp, hmem⟩ := mem_flatMap.mp h
  obtain ⟨hstores, hrow⟩ := hs.only p hp _ hmem
  obtain ⟨new, hnew, hslot, -, hv⟩ := mem_storeRow hrow
  exact ⟨p.b, hs.rows p hp, hstores, hslot, new, hnew, hv⟩

include hc

lemma row_eq [Field V] {pool : Pool V} {seen : Seen V} (hseen : Admissible c programs stores pool seen)
    (hp : p ∈ programs) {stop : ℕ} (hstop : stop ≤ c.seqLens p.b) (plane : Plane) {col : ℕ} (hcol : col < stop) (d : ℕ) :
    row c seen p stop plane col d = c.storedAt pool p.b (plane, c.blockTable p.b col, p.hkv, d) := by
  have hload := hseen p hp plane col d (hcol.trans_le hstop)
  unfold row Call.storedAt
  simp only [hcol, if_true]
  cases hfresh : c.fresh with
  | none =>
    refine hload.initial fun v hmem => ?_
    obtain ⟨-, -, -, -, new, hnew, -⟩ := hs.mem hmem
    rw [hfresh] at hnew
    cases hnew
  | some new =>
    by_cases hslot : c.blockTable p.b col = c.slot p.b
    · simp [hslot]
    · simp only [hslot, if_false]
      refine hload.initial fun v hmem => ?_
      obtain ⟨b, hb, hstores, heq, -⟩ := hs.mem hmem
      refine hc.notShared b hb hstores p.b (hs.rows p hp) col (hcol.trans_le hstop) (fun hsame => hslot ?_) heq
      obtain ⟨rfl, -⟩ := Prod.mk.inj hsame
      exact heq

lemma pools_after {pool pool' : Pool V} (h : AnyOrder (programs.flatMap stores) pool pool') :
    (∀ new ∈ c.fresh, ∀ b < c.B, c.slot b ≠ c.SCRATCH → ∀ plane, ∀ h < c.nKv, ∀ d < c.D,
      pool' (plane, c.slot b, h, d) = new plane b h d) ∧
    ∀ loc, (∀ b < c.B, c.Stores b → loc.2.1 ≠ c.slot b) → pool' loc = pool loc := by
  constructor
  · intro new hnew b hb hslot plane h' hh d hd
    have hstores : c.Stores b := ⟨Option.isSome_iff_exists.mpr ⟨new, hnew⟩, hslot⟩
    obtain ⟨p, hp, rfl, rfl, hrow⟩ := hs.all b hb hstores h' hh
    have hmem : ((plane, c.slot p.b, p.hkv, d), new plane p.b p.hkv d) ∈ programs.flatMap stores := by
      refine mem_flatMap.mpr ⟨p, hp, ?_⟩
      rw [hrow]
      exact storeRow_mem hnew plane hd
    refine h.value hmem fun v hv => ?_
    obtain ⟨b', hb', hstores', hslot, _, hnew', rfl⟩ := hs.mem hv
    have hb'' : b' = p.b := by
      by_contra hne
      have hlen := hc.lens p.b hb
      refine hc.notShared b' hb' hstores' p.b hb (c.seqLens p.b - 1) (by omega) (fun hsame => hne ?_) ?_
      · exact (Prod.mk.inj hsame).1.symm
      · rw [← slot_of_stores hstores]
        exact hslot
    obtain rfl := Option.some.inj (hnew.symm.trans hnew')
    rw [hb'']
  · intro _ hloc
    refine h.frame fun v hmem => ?_
    obtain ⟨b, hb, hstores, hslot, -⟩ := hs.mem hmem
    exact hloc b hb hstores hslot

end

/-! ## The loop -/

section

variable {V : Type} [Field V] [LinearOrder V] {exp : V → V} (hE : Exponential exp)
include hE

lemma attend_holds {blockN : ℕ} (hn : 0 < blockN) (start : ℕ) {stop : ℕ} {score : ℕ → V} {scores : ℕ → Option V}
    (value : ℕ → ℕ → V) {vblk : ℕ → ℕ → V} (hscores : ∀ col, scores col = if col < stop then some (score col) else none)
    (hvalue : ∀ col < stop, ∀ d, vblk col d = value col d) :
    ∃ g, attend exp blockN start stop scores vblk = some g ∧ g.Holds exp score value (Ico start stop) := by
  have hblocks (t : ℕ) (ht : t < blocksFor blockN (stop - start)) : start + t * blockN < stop := by
    have hlast := blocksFor_lt hn (stop - start)
    have hmul := Blocks.block_le ht blockN
    omega
  obtain ⟨g, hg, hholds⟩ := Gathered.holds_range hE hn hscores vblk _ hblocks
  have hset : (Ico start (start + blocksFor blockN (stop - start) * blockN)).filter (· < stop) = Ico start stop := by
    have hcover := le_blocksFor hn (stop - start)
    ext i
    simp only [mem_filter, mem_Ico]
    omega
  rw [hset] at hholds
  exact ⟨g, hg, hholds.congr (fun _ _ => rfl) fun col hcol => hvalue col (mem_Ico.mp hcol).2⟩

lemma splits_merge {score : ℕ → V} {value : ℕ → ℕ → V} {partials : ℕ → Option (Gathered ℕ V)} {splitLen seq : ℕ}
    (hlen : 0 < splitLen) (hseq : 0 < seq) (n : ℕ) (hpart : ∀ s < n, ∃ g, partials s = some g ∧
      g.Holds exp score value (Ico (s * splitLen) (min (s * splitLen + splitLen) seq))) :
    ∃ g, pagedDecodeAttnS2 exp partials n = some g ∧ g.Holds exp score value (range (min (n * splitLen) seq)) := by
  induction n with
  | zero =>
    refine ⟨Gathered.start, rfl, ?_⟩
    rw [Nat.zero_mul, zero_min]
    exact Gathered.holds_start
  | succ n ih =>
    obtain ⟨g, hg, hholds⟩ := ih fun s hs => hpart s (by omega)
    obtain ⟨_, hpartial, hp⟩ := hpart n (Nat.lt_succ_self n)
    have hdisjoint : Disjoint (range (min (n * splitLen) seq))
        (Ico (n * splitLen) (min (n * splitLen + splitLen) seq)) := by
      rw [disjoint_left]
      intro i hi hi'
      have hlo := mem_range.mp hi
      have hhi := (mem_Ico.mp hi').1
      omega
    have hunion : range (min (n * splitLen) seq) ∪ Ico (n * splitLen) (min (n * splitLen + splitLen) seq) =
        range (min ((n + 1) * splitLen) seq) := by
      rw [add_one_mul]
      ext i
      simp only [mem_union, mem_range, mem_Ico]
      omega
    have hnonempty : (range (min (n * splitLen) seq)).Nonempty ∨
        (Ico (n * splitLen) (min (n * splitLen + splitLen) seq)).Nonempty := by
      rcases eq_zero_or_pos (n * splitLen) with hzero | hpos
      · right
        rw [nonempty_Ico, hzero]
        omega
      · left
        rw [nonempty_range_iff]
        omega
    obtain ⟨g', hg', hholds'⟩ := hholds.merged hE hp hdisjoint hnonempty
    rw [hunion] at hholds'
    refine ⟨g', ?_, hholds'⟩
    unfold pagedDecodeAttnS2 at hg ⊢
    rw [range_succ, foldlM_append, hg, Option.bind_eq_bind, Option.bind_some, foldlM_cons, hpartial]
    simp [hg']

end

/-! ## Programs -/

section

variable {n : ℕ} {p : Program}

lemma mem_queryPrograms : p ∈ queryPrograms c n ↔ p.b < c.B ∧ p.h < c.nQ ∧ p.hkv = p.h / c.G ∧ p.s < n := by
  obtain ⟨b, h, hkv, s⟩ := p
  simp only [queryPrograms, List.mem_map, Prod.exists, List.mem_product, List.mem_range, Program.mk.injEq]
  constructor
  · rintro ⟨_, h', _, ⟨hb, hh, hs⟩, rfl, rfl, rfl, rfl⟩
    exact ⟨hb, hh, rfl, hs⟩
  · rintro ⟨hb, hh, rfl, hs⟩
    exact ⟨b, h, s, ⟨hb, hh, hs⟩, rfl, rfl, rfl, rfl⟩

lemma queryPrograms_ext {p' : Program} (hp : p ∈ queryPrograms c n) (hp' : p' ∈ queryPrograms c n)
    (h : (p.b, p.h, p.s) = (p'.b, p'.h, p'.s)) : p = p' := by
  have hkv := (mem_queryPrograms.mp hp).2.2.1
  have hkv' := (mem_queryPrograms.mp hp').2.2.1
  obtain ⟨b, head, hkvHead, s⟩ := p
  obtain ⟨_, head', hkvHead', _⟩ := p'
  obtain ⟨rfl, rfl, rfl⟩ := h
  simp only at hkv hkv'
  rw [hkv, hkv']

lemma mem_kvPrograms : p ∈ kvPrograms c ↔ p.b < c.B ∧ p.hkv < c.nKv ∧ p.h = p.hkv * c.G ∧ p.s = 0 := by
  obtain ⟨b, h, hkv, s⟩ := p
  simp only [kvPrograms, List.mem_map, Prod.exists, List.mem_product, List.mem_range, Program.mk.injEq]
  constructor
  · rintro ⟨_, _, ⟨hb, hh⟩, rfl, rfl, rfl, rfl⟩
    exact ⟨hb, hh, rfl, rfl⟩
  · rintro ⟨hb, hh, rfl, rfl⟩
    exact ⟨b, hkv, ⟨hb, hh⟩, rfl, rfl, rfl, rfl⟩

variable (hc : WellFormed c)
include hc

lemma heads_eq : c.nQ = c.nKv * c.G := (Nat.mul_div_cancel' hc.group).symm

lemma G_pos : 0 < c.G := Nat.div_pos (Nat.le_of_dvd hc.heads hc.group) hc.kvHeads

lemma kvHead_lt {h : ℕ} (hh : h < c.nQ) : h / c.G < c.nKv := by
  apply Nat.div_lt_of_lt_mul
  rwa [mul_comm, ← heads_eq hc]

lemma head_lt {hkv r : ℕ} (hkv' : hkv < c.nKv) (hr : r < c.G) : hkv * c.G + r < c.nQ := by
  have hlast : (hkv + 1) * c.G ≤ c.nKv * c.G := Nat.mul_le_mul_right _ hkv'
  rw [add_one_mul, ← heads_eq hc] at hlast
  omega

/-! ### Their pool stores -/

lemma stores_pagedDecodeAttn : StoresRows c (queryPrograms c 1) (pagedDecodeAttnStores c) where
  rows p hp := (mem_queryPrograms.mp hp).1
  only p _ st hst := by
    unfold pagedDecodeAttnStores at hst
    split at hst
    · rename_i hstores
      split at hst
      · exact ⟨hstores, hst⟩
      · cases hst
    · cases hst
  all b hb hstores h hh := by
    have hG := G_pos hc
    refine ⟨⟨b, h * c.G, h, 0⟩, mem_queryPrograms.mpr ⟨hb, ?_, ?_, Nat.one_pos⟩, rfl, rfl, ?_⟩
    · simpa using head_lt hc hh hG
    · exact (Nat.mul_div_cancel h hG).symm
    · simp [pagedDecodeAttnStores, hstores]

omit hc in
lemma stores_pagedDecodeAttnGqa : StoresRows c (kvPrograms c) (pagedDecodeAttnGqaStores c) where
  rows p hp := (mem_kvPrograms.mp hp).1
  only p _ st hst := by
    unfold pagedDecodeAttnGqaStores at hst
    split at hst
    · rename_i hstores
      exact ⟨hstores, hst⟩
    · cases hst
  all b hb hstores h hh := ⟨⟨b, h * c.G, h, 0⟩, mem_kvPrograms.mpr ⟨hb, hh, rfl, rfl⟩, rfl, rfl, if_pos hstores⟩

lemma stores_pagedDecodeAttnS1 {splitLen : ℕ} (hlen : 0 < c.B → 0 < splitLen)
    (hcover : ∀ b < c.B, c.seqLens b ≤ n * splitLen) :
    StoresRows c (queryPrograms c n) (pagedDecodeAttnS1Stores c · splitLen) where
  rows p hp := (mem_queryPrograms.mp hp).1
  only p _ st hst := by
    unfold pagedDecodeAttnS1Stores at hst
    dsimp only at hst
    split at hst
    · rename_i hstores
      split at hst
      · exact ⟨hstores.1, hst⟩
      · cases hst
    · cases hst
  all b hb hstores h hh := by
    have hG := G_pos hc
    have hseq := hc.lens b hb
    have hlo := Nat.div_mul_le_self (c.seqLens b - 1) splitLen
    have hhi := Nat.lt_div_mul_add (hlen (Nat.zero_lt_of_lt hb)) (a := c.seqLens b - 1)
    have hsplit : (c.seqLens b - 1) / splitLen < n := by
      apply Nat.div_lt_of_lt_mul
      have hle := hcover b hb
      rw [Nat.mul_comm] at hle
      omega
    refine ⟨⟨b, h * c.G, h, (c.seqLens b - 1) / splitLen⟩, mem_queryPrograms.mpr ⟨hb, ?_, ?_, hsplit⟩, rfl, rfl, ?_⟩
    · simpa using head_lt hc hh hG
    · exact (Nat.mul_div_cancel h hG).symm
    · have howns : (c.seqLens b - 1) / splitLen * splitLen ≤ c.seqLens b - 1 ∧
          c.seqLens b - 1 < min ((c.seqLens b - 1) / splitLen * splitLen + splitLen) (c.seqLens b) := by
        omega
      simp [pagedDecodeAttnS1Stores, hstores, howns, and_self, Nat.mul_mod_left]

end

/-! ## Heads -/

section

variable {V : Type} [Field V] [LinearOrder V] {exp : V → V} (sqrt : V → V) {c : Call V} {programs : List Program}
  {stores : Program → List (PoolLoc × V)} {pool : Pool V} {seen : Seen V} {p : Program}

def readRow (c : Call V) (pool : Pool V) (b hkv : ℕ) (plane : Plane) (pos d : ℕ) : V :=
  c.storedAt pool b (plane, c.blockTable b pos, hkv, d)

variable (hE : Exponential exp) (hc : WellFormed c) (hs : StoresRows c programs stores)
  (hseen : Admissible c programs stores pool seen) (hp : p ∈ programs)
include hc hs hseen hp

omit [LinearOrder V] in
lemma score_eq {h stop col : ℕ} (hkv : h / c.G = p.hkv) (hstop : stop ≤ c.seqLens p.b) (hcol : col < stop) :
    (∑ d ∈ range c.D, row c seen p stop .k col d * c.q p.b h d) * c.scale sqrt =
      referenceScore sqrt c (c.storedAt pool p.b) p.b h col := by
  congr 1
  refine sum_congr rfl fun d _ => ?_
  rw [row_eq hc hs hseen hp hstop .k hcol d, mul_comm, hkv]

include hE

lemma pagedDecodeAttn_eq (hkv : p.h / c.G = p.hkv) : ∃ g, pagedDecodeAttn c seen p exp (c.scale sqrt) = some g ∧
      ∀ d, g.acc d / g.denom = decodeAttentionReference exp sqrt c (c.storedAt pool p.b) p.b p.h d := by
  obtain ⟨g, hg, hholds⟩ := attend_holds hE (by decide : 0 < 128) 0 (readRow c pool p.b p.hkv .v)
    (fun col => ite_congr rfl (fun hcol => congrArg some (score_eq sqrt hc hs hseen hp hkv le_rfl hcol)) fun _ => rfl)
    fun col hcol d => row_eq hc hs hseen hp le_rfl .v hcol d
  refine ⟨g, hg, fun d => ?_⟩
  rw [hholds.finish hE, reference_eq_attention, hkv, ← range_eq_Ico]
  rfl

lemma pagedDecodeAttnGqa_eq {blockN r : ℕ} (hn : 0 < blockN) (hr : r < c.G) :
    ∃ g, pagedDecodeAttnGqa c seen p exp (c.scale sqrt) blockN r = some g ∧ ∀ d, g.acc d / g.denom =
        decodeAttentionReference exp sqrt c (c.storedAt pool p.b) p.b (p.hkv * c.G + r) d := by
  have hkv : (p.hkv * c.G + r) / c.G = p.hkv := Blocks.block_div _ hr
  have hdot (col : ℕ) : ∑ d ∈ range c.D, queryTile c p r d * row c seen p (c.seqLens p.b) .k col d =
      ∑ d ∈ range c.D, row c seen p (c.seqLens p.b) .k col d * c.q p.b (p.hkv * c.G + r) d := by
    refine sum_congr rfl fun d _ => ?_
    rw [queryTile, if_pos hr, mul_comm]
  obtain ⟨g, hg, hholds⟩ := attend_holds hE hn 0 (readRow c pool p.b p.hkv .v)
    (fun col => ite_congr rfl (fun hcol => congrArg some
      ((congrArg (· * c.scale sqrt) (hdot col)).trans (score_eq sqrt hc hs hseen hp hkv le_rfl hcol))) fun _ => rfl)
    fun col hcol d => row_eq hc hs hseen hp le_rfl .v hcol d
  refine ⟨g, hg, fun d => ?_⟩
  rw [hholds.finish hE, reference_eq_attention, hkv, ← range_eq_Ico]
  rfl

lemma pagedDecodeAttnS1_holds {blockN : ℕ} (splitLen : ℕ) (hn : 0 < blockN) (hkv : p.h / c.G = p.hkv) :
    ∃ g, pagedDecodeAttnS1 c seen p exp (c.scale sqrt) blockN splitLen = some g ∧
      g.Holds exp (referenceScore sqrt c (c.storedAt pool p.b) p.b p.h) (readRow c pool p.b p.hkv .v)
        (Ico (p.s * splitLen) (min (p.s * splitLen + splitLen) (c.seqLens p.b))) := by
  unfold pagedDecodeAttnS1
  dsimp only
  split
  · exact attend_holds hE hn _ _ (fun col => ite_congr rfl (fun hcol => congrArg some
        (score_eq sqrt hc hs hseen hp hkv (min_le_right _ _) hcol)) fun _ => rfl)
      fun col hcol d => row_eq hc hs hseen hp (min_le_right _ _) .v hcol d
  · refine ⟨Gathered.start, rfl, ?_⟩
    rw [Ico_eq_empty_of_le (by omega)]
    exact Gathered.holds_start

end

/-! ## Calls -/

section

variable {V : Type} [Field V] [LinearOrder V] (exp sqrt : V → V) (c : Call V)

/-- The attention of the reference at every head, the fresh rows in the pools, and nothing else there. -/
structure Left (pool pool' : Pool V) (out : Out V) : Prop where
  attention : ∀ b < c.B, ∀ h < c.nQ, ∀ d < c.D,
    out (b, h, d) = some (decodeAttentionReference exp sqrt c (c.storedAt pool b) b h d)
  stored : ∀ new ∈ c.fresh, ∀ b < c.B, c.slot b ≠ c.SCRATCH → ∀ plane, ∀ h < c.nKv, ∀ d < c.D,
    pool' (plane, c.slot b, h, d) = new plane b h d
  kept : ∀ loc, (∀ b < c.B, c.Stores b → loc.2.1 ≠ c.slot b) → pool' loc = pool loc

/-- The call does not raise, and leaves that in every order of its programs. -/
def Returns (call : Except String (Outcomes V)) : Prop :=
  ∃ outcomes, call = .ok outcomes ∧ ∀ pool, (∃ pool' out, outcomes pool pool' out) ∧
    ∀ pool' out, outcomes pool pool' out → Left exp sqrt c pool pool' out

/-- Tiles that the compiler takes. -/
structure Tiles (blockN D : ℕ) : Prop where
  headSize : ∃ i, D = 2 ^ i
  block : ∃ i, blockN = 2 ^ i
  numel : blockN * D ≤ 1048576

structure GroupTiles (blockN : ℕ) : Prop where
  headSize : 16 ≤ c.D
  block : 16 ≤ blockN
  query : bg c * c.D ≤ 1048576
  scores : bg c * blockN ≤ 1048576

variable {exp sqrt c}

omit [Field V] [LinearOrder V] in
lemma launches_exist {L W : Type} [DecidableEq L] (programs : List Program) (stores : Program → List (PoolLoc × V))
    (results : Seen V → Program → List (L × W)) (held : L → W) (pool : Pool V) :
    ∃ pool' out, Launches c programs stores results pool pool' out :=
  ⟨_, _, fun p plane col d => pool _, held, fun _ _ _ _ _ _ => .inl rfl,
    ⟨_, Perm.refl _, rfl⟩, _, Perm.refl _, rfl⟩

omit [LinearOrder V] in
lemma mem_storeHead {b h : ℕ} {g : Gathered ℕ V} {st : OutLoc × Option V} :
    st ∈ storeHead c b h (some g) ↔ ∃ d < c.D, st = ((b, h, d), some (g.acc d / g.denom)) := by
  simp [storeHead, List.mem_map, List.mem_range, Option.map_some, eq_comm]

omit [LinearOrder V] in
lemma storeHeadIf_eq {mask : Prop} [Decidable mask] (hmask : mask) {b h : ℕ} {g : Option (Gathered ℕ V)} :
    storeHeadIf c mask b h g = storeHead c b h g := by
  simp [storeHeadIf, storeHead, storeIf, if_pos hmask, map_eq_flatMap]

omit [LinearOrder V] in
lemma storeHeadIf_none {mask : Prop} [Decidable mask] (hmask : ¬mask) {b h : ℕ} {g : Option (Gathered ℕ V)} :
    storeHeadIf c mask b h g = [] := by
  simp [storeHeadIf, storeIf, hmask]

omit [LinearOrder V] in
lemma heads_of_stores {pool : Pool V} {held out : Out V} {stores : List (OutLoc × Option V)}
    (h : AnyOrder stores held out) (honly : ∀ st ∈ stores, st.2 =
      some (decodeAttentionReference exp sqrt c (c.storedAt pool st.1.1) st.1.1 st.1.2.1 st.1.2.2))
    (hall : ∀ b < c.B, ∀ h < c.nQ, ∀ d < c.D, ∃ v, ((b, h, d), v) ∈ stores) : ∀ b < c.B, ∀ h < c.nQ, ∀ d < c.D,
      out (b, h, d) = some (decodeAttentionReference exp sqrt c (c.storedAt pool b) b h d) := by
  intro b hb h' hh d hd
  obtain ⟨v, hv⟩ := hall b hb h' hh d hd
  rw [h.value hv fun v' hv' => (honly _ hv').trans (honly _ hv).symm]
  exact honly _ hv

/-! ### Requirements -/

section

lemma pow_pos_of {n : ℕ} (h : ∃ i, n = 2 ^ i) : 0 < n := by
  obtain ⟨i, rfl⟩ := h
  exact Nat.two_pow_pos i

variable (c) in
omit [Field V] [LinearOrder V] in
lemma bg_pow : ∃ i, bg c = 2 ^ i := by
  rcases le_total 16 (2 ^ Nat.size (c.G - 1)) with h | h
  · exact ⟨_, max_eq_right h⟩
  · exact ⟨4, max_eq_left h⟩

variable (c) in
omit [Field V] [LinearOrder V] in
lemma G_le_bg : c.G ≤ bg c := by
  have h := Nat.lt_size_self (c.G - 1)
  have hle : 2 ^ Nat.size (c.G - 1) ≤ bg c := le_max_right _ _
  omega

variable (hc : WellFormed c)
include hc

omit [Field V] [LinearOrder V] in
lemma checkHeads_ok : checkHeads c = .ok () := by
  have hkv := hc.kvHeads.ne'
  have hmod := Nat.mod_eq_zero_of_dvd hc.group
  simp [checkHeads, hkv, hmod]

omit [Field V] [LinearOrder V] in
lemma checkNew_ok : checkNew c = .ok () := by
  unfold checkNew
  split
  · rename_i kn _ hk hv
    exact if_neg fun hne => hne (hc.newShape kn hk)
  · rfl

omit hc [Field V] [LinearOrder V] in
lemma checkScale_ok (h : 0 < c.D) : checkScale c = .ok () := if_neg h.ne'

end

/-! ### The three calls -/

variable (hE : Exponential exp) (hc : WellFormed c)
include hE hc

lemma decodeAttention_returns (ht : Tiles 128 c.D) : Returns exp sqrt c (decodeAttention exp sqrt c) := by
  refine ⟨decodeAttentionRuns exp sqrt c, ?_, fun pool => ⟨?_, fun pool' out hrun => ?_⟩⟩
  · rw [decodeAttention, checkHeads_ok hc, checkNew_ok hc, checkScale_ok (pow_pos_of ht.headSize), arange_ok ht.headSize, tile_ok ht.numel]
    rfl
  · exact launches_exist _ _ _ (fun _ => none) pool
  · obtain ⟨_, held, hseen, hpool, hout⟩ := hrun
    have hs := stores_pagedDecodeAttn hc
    obtain ⟨hstored, hkept⟩ := pools_after hc hs hpool
    refine ⟨heads_of_stores hout ?_ ?_, hstored, hkept⟩
    · intro _ hst
      obtain ⟨p, hp, hst⟩ := mem_flatMap.mp hst
      obtain ⟨g, hg, hdiv⟩ := pagedDecodeAttn_eq sqrt hE hc hs hseen hp (mem_queryPrograms.mp hp).2.2.1.symm
      simp only [hg, mem_storeHead] at hst
      obtain ⟨d, -, rfl⟩ := hst
      exact congrArg some (hdiv d)
    · intro b hb h hh d hd
      have hp : (⟨b, h, h / c.G, 0⟩ : Program) ∈ queryPrograms c 1 := mem_queryPrograms.mpr ⟨hb, hh, rfl, one_pos⟩
      exact ⟨_, mem_flatMap.mpr ⟨_, hp, mem_map_of_mem (mem_range.mpr hd)⟩⟩

lemma decodeAttentionGqa_returns {blockN : ℕ} (ht : Tiles blockN c.D) (hg : GroupTiles c blockN) :
    Returns exp sqrt c (decodeAttentionGqa exp sqrt c blockN) := by
  refine ⟨decodeAttentionGqaRuns exp sqrt c blockN, ?_, fun pool => ⟨?_, fun pool' out hrun => ?_⟩⟩
  · have hbg : 16 ≤ bg c := le_max_left _ _
    rw [decodeAttentionGqa, checkHeads_ok hc, checkNew_ok hc, checkScale_ok (pow_pos_of ht.headSize), arange_ok (bg_pow c),
      arange_ok ht.headSize, tile_ok hg.query, arange_ok ht.block, tile_ok (by rw [mul_comm]; exact ht.numel),
      dot_ok hbg hg.block hg.headSize, tile_ok hg.scores, dot_ok hbg hg.headSize hg.block]
    rfl
  · exact launches_exist _ _ _ (fun _ => none) pool
  · obtain ⟨_, held, hseen, hpool, hout⟩ := hrun
    have hs := stores_pagedDecodeAttnGqa (c := c)
    obtain ⟨hstored, hkept⟩ := pools_after hc hs hpool
    refine ⟨heads_of_stores hout ?_ ?_, hstored, hkept⟩
    · intro _ hst
      obtain ⟨p, hp, hst⟩ := mem_flatMap.mp hst
      obtain ⟨r, -, hst⟩ := mem_flatMap.mp hst
      by_cases hr : r < c.G
      · obtain ⟨g, hg, hdiv⟩ := pagedDecodeAttnGqa_eq sqrt hE hc hs hseen hp (pow_pos_of ht.block) hr
        rw [hg, storeHeadIf_eq hr] at hst
        obtain ⟨d, -, rfl⟩ := mem_storeHead.mp hst
        exact congrArg some (hdiv d)
      · rw [storeHeadIf_none hr] at hst
        cases hst
    · intro b hb h hh d hd
      have hr : h % c.G < c.G := Nat.mod_lt _ (G_pos hc)
      have hrow : h / c.G * c.G + h % c.G = h := Nat.div_add_mod' h c.G
      have hp : (⟨b, h / c.G * c.G, h / c.G, 0⟩ : Program) ∈ kvPrograms c :=
        mem_kvPrograms.mpr ⟨hb, kvHead_lt hc hh, rfl, rfl⟩
      obtain ⟨g, hg, -⟩ := pagedDecodeAttnGqa_eq sqrt hE hc hs hseen hp (pow_pos_of ht.block) hr
      have hmem : ((b, h, d), some (g.acc d / g.denom)) ∈
          storeHeadIf c (h % c.G < c.G) b (h / c.G * c.G + h % c.G) (some g) := by
        rw [hrow, storeHeadIf_eq hr]
        exact mem_storeHead.mpr ⟨d, hd, rfl⟩
      rw [← hg] at hmem
      exact ⟨_, mem_flatMap.mpr ⟨_, hp, mem_flatMap.mpr ⟨_, mem_range.mpr (hr.trans_le (G_le_bg c)), hmem⟩⟩⟩

omit hE hc [Field V] [LinearOrder V] in
lemma seqLens_le {o : SplitOptions} (hhint : ∀ hint ∈ o.maxLenHint, ∀ b < c.B, c.seqLens b ≤ hint) {b : ℕ}
    (hb : b < c.B) : c.seqLens b ≤ maxLen c o := by
  unfold maxLen
  cases h : o.maxLenHint with
  | some hint => exact hhint hint h b hb
  | none =>
    have hsup : c.seqLens b ≤ (range c.B).sup c.seqLens := le_sup (mem_range.mpr hb)
    have hcover (n : ℕ) : n ≤ bucketForCoverage o.ladder n := by
      unfold bucketForCoverage
      split
      · assumption
      · exact le_rfl
    rw [if_neg (by omega)]
    exact hsup.trans (hcover _)

lemma decodeAttentionSplit_returns {o : SplitOptions} (ht : Tiles o.blockN c.D)
    (hhint : ∀ hint ∈ o.maxLenHint, ∀ b < c.B, c.seqLens b ≤ hint) :
    Returns exp sqrt c (decodeAttentionSplit exp sqrt c o) := by
  have hsplits : 0 < splits c o := lt_of_lt_of_le one_pos (le_max_left _ _)
  have hcover : maxLen c o ≤ splits c o * splitLen c o := by
    rw [mul_comm]
    exact le_blocksFor hsplits _
  have hlens (b : ℕ) (hb : b < c.B) : c.seqLens b ≤ splits c o * splitLen c o := (seqLens_le hhint hb).trans hcover
  have hlen (hB : 0 < c.B) : 0 < splitLen c o := by
    have hle := (hc.lens 0 hB).trans (hlens 0 hB)
    exact Nat.pos_of_mul_pos_left hle
  refine ⟨decodeAttentionSplitRuns exp sqrt c o, ?_, fun pool => ⟨?_, fun pool' out hrun => ?_⟩⟩
  · have hblock := (pow_pos_of ht.block).ne'
    rw [decodeAttentionSplit, checkHeads_ok hc, if_neg hblock, checkNew_ok hc, checkScale_ok (pow_pos_of ht.headSize),
      arange_ok ht.headSize, arange_ok ht.block, tile_ok ht.numel]
    rfl
  · obtain ⟨pool', partials, hrun⟩ := launches_exist (c := c) _
      (pagedDecodeAttnS1Stores c · (splitLen c o))
      (fun seen p => [((p.b, p.h, p.s), pagedDecodeAttnS1 c seen p exp _ o.blockN _)])
      (fun _ => none) pool
    exact ⟨pool', _, partials, hrun, fun _ => none, _, Perm.refl _, rfl⟩
  · obtain ⟨partials, ⟨_, held, hseen, hpool, hpartials⟩, held', hout⟩ := hrun
    have hs := stores_pagedDecodeAttnS1 hc hlen hlens
    obtain ⟨hstored, hkept⟩ := pools_after hc hs hpool
    refine ⟨heads_of_stores hout ?_ ?_, hstored, hkept⟩
    · intro _ hst
      obtain ⟨p, hp, hst⟩ := mem_flatMap.mp hst
      obtain ⟨hb, hh, hkv, -⟩ := mem_queryPrograms.mp hp
      have hpart (s : ℕ) (hs' : s < splits c o) : ∃ g, partials (p.b, p.h, s) = some g ∧
          g.Holds exp (referenceScore sqrt c (c.storedAt pool p.b) p.b p.h) (readRow c pool p.b p.hkv .v)
            (Ico (s * splitLen c o) (min (s * splitLen c o + splitLen c o) (c.seqLens p.b))) := by
        have hp' : (⟨p.b, p.h, p.hkv, s⟩ : Program) ∈ queryPrograms c (splits c o) :=
          mem_queryPrograms.mpr ⟨hb, hh, hkv, hs'⟩
        obtain ⟨g, hg, hholds⟩ := pagedDecodeAttnS1_holds sqrt hE hc hs hseen hp' _
          (pow_pos_of ht.block) hkv.symm
        refine ⟨g, ?_, hholds⟩
        rw [← hg]
        refine hpartials.value (mem_flatMap.mpr ⟨_, hp', List.mem_singleton_self _⟩) fun v hv => ?_
        obtain ⟨_, hmem, hv⟩ := mem_flatMap.mp hv
        obtain ⟨hloc, rfl⟩ := Prod.mk.inj (List.mem_singleton.mp hv)
        rw [queryPrograms_ext hmem hp' hloc.symm]
      have hB : 0 < c.B := Nat.zero_lt_of_lt hb
      obtain ⟨g, hg, hholds⟩ := splits_merge hE (hlen hB) (hc.lens p.b hb) _ hpart
      simp only [hg, mem_storeHead] at hst
      obtain ⟨d, -, rfl⟩ := hst
      rw [min_eq_right (hlens p.b hb)] at hholds
      simp only [hholds.finish hE, reference_eq_attention, ← hkv]
      rfl
    · intro b hb h hh d hd
      have hp : (⟨b, h, h / c.G, 0⟩ : Program) ∈ queryPrograms c 1 := mem_queryPrograms.mpr ⟨hb, hh, rfl, one_pos⟩
      exact ⟨_, mem_flatMap.mpr ⟨_, hp, mem_map_of_mem (mem_range.mpr hd)⟩⟩

end

/-! ## Two rows -/

section

/-- Two rows of two positions each, with fresh rows. -/
def twoRows (V : Type) [Zero V] (D : ℕ) : Call V where
  B := 2
  nQ := 2
  nKv := 1
  D := D
  maxTotal := 4
  q _ _ _ := 0
  blockTable b pos := 2 * b + pos
  seqLens _ := 2
  kNew := some ⟨[2, 1, D], fun _ _ _ => 0⟩
  vNew := some ⟨[2, 1, D], fun _ _ _ => 0⟩
  scratchSlot := none

lemma twoRows_wellFormed (D : ℕ) : WellFormed (twoRows ℝ D) where
  kvHeads := one_pos
  heads := two_pos
  group := one_dvd 2
  newShape kn hkn := by
    obtain rfl := Option.some.inj hkn
    rfl
  lens _ _ := one_le_two
  slots b hb pos hpos := by
    simp only [twoRows] at hb hpos ⊢
    omega
  notShared b hb hstores b' hb' pos hpos hne := by
    simp only [twoRows] at hb hb' hpos hne
    rw [slot_of_stores hstores]
    simp only [twoRows, ne_eq, Prod.mk.injEq] at hne ⊢
    omega

lemma real_exponential : Exponential exp := ⟨Real.exp_add, Real.exp_pos⟩

end

end VKernels.PagedDecode
