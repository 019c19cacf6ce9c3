import VKernels.Lib.Blocks
import VKernels.Lib.CheckedCalls
import VKernels.Lib.Selection

/-!
# The kpool top-k transform

`dsa_topk_transform_cpu`, with every `int32_t` operation checked: a row of scores becomes the tokens of its best pools,
the tokens of the open pool, and `-1`.

## Results

* `storedToken_ok`, `storedToken_fits` — one token; `transformRow_ok`, `transformRow_fits` — one row.
* `topk_transform_iff` — an input that is not rejected runs without overflow and has the exact result in every row
  exactly if it fits.
-/

namespace VKernels.Dsa.TopkTransform

open CheckedCalls Selection TopK
open List

/-- The arguments.  The buffer behind `dst_token_indices` holds integers that are values of `int32_t`. -/
structure Args (α : Type) where
  batchSize : Int32
  score : Option (ℕ → α)
  lengths : Option (ℕ → Int32)
  dstTokenIndices : Option (ℕ → ℤ)
  scoreStride : Int64
  poolSize : Int32
  tokenTopk : Int32
  outCols : Int32
  pageTable : Option (ℕ → Int32)
  pageTableStride : Int64
  pageTableRowIndex : Option (ℕ → Int32)
  topkIndicesOffset : Option (ℕ → Int32)
  rowStarts : Option (ℕ → Int32)
  seqLens : Option (ℕ → Int32)

/-- `p == nullptr ? 0 : p[row]`. -/
def entry (p : Option (ℕ → Int32)) (row : ℕ) : ℤ :=
  match p with
  | none => 0
  | some p => (p row).toInt

/-- `std::fill`. -/
def fill (start n : ℕ) (v : ℤ) (dst : ℕ → ℤ) : ℕ → ℤ := fun p => if start ≤ p ∧ p < start + n then v else dst p

/-- `transform_token`. -/
def transformToken (rawToken : ℤ) (pageTableRow : Option (ℕ → ℤ)) (topkIndicesOffset : Option (ℕ → Int32)) (offset : ℤ) :
    Except Fault ℤ :=
  match pageTableRow, topkIndicesOffset with
  | some row, _ => .ok (row rawToken.toNat)
  | none, some _ => int32 (rawToken + offset)
  | none, none => .ok rawToken

/-- `dsa_topk_transform_group_topk_supported`. -/
def groupTopkSupported (groupTopk : ℤ) : Prop := groupTopk ∈ [128, 160, 192, 224, 256, 512]

instance (groupTopk : ℤ) : Decidable (groupTopkSupported groupTopk) := inferInstanceAs (Decidable (_ ∈ _))

namespace Args

variable {α : Type} (a : Args α)

/-- The pool size as a count, once it is known to be positive. -/
def pool : ℕ := a.poolSize.toInt.toNat

def groupTopk : ℤ := a.tokenTopk.toInt / a.poolSize.toInt

def tailCols : ℤ :=
  match a.seqLens with
  | none => 0
  | some _ => a.poolSize.toInt - 1

def scoreRow (score : ℕ → α) (row : ℕ) : ℕ → α := fun g =>
  score (row * a.scoreStride.toInt.toNat + (entry a.rowStarts row).toNat + g)

def pageRow (row : ℕ) : ℤ :=
  match a.pageTableRowIndex with
  | none => row
  | some index => (index row).toInt

def pageTableEntry (row : ℕ) : Option (ℕ → ℤ) :=
  a.pageTable.map fun table rawToken =>
    (table ((a.pageRow row).toNat * a.pageTableStride.toInt.toNat + rawToken)).toInt

/-- One token of a row: `raw_token` is `pool * pool_size + slot`. -/
def storedToken (row pool slot : ℕ) (msg : String) : Except Fault ℤ := do
  let product ← int32 (pool * a.poolSize.toInt)
  let rawToken ← int32 (product + slot)
  expects (a.pageTable.isNone ∨ rawToken < a.pageTableStride.toInt) msg
    "page_table_entry == nullptr || raw_token < page_table_stride"
  transformToken rawToken (a.pageTableEntry row) a.topkIndicesOffset (entry a.topkIndicesOffset row)

/-- The tokens of the open pool, from the cell `start` on. -/
def storeTail (row length start : ℕ) (dst : ℕ → ℤ) : Except Fault (ℕ → ℤ) :=
  match a.seqLens with
  | none => .ok dst
  | some seqLens => do
    expects (0 ≤ (seqLens row).toInt) "seq_lens entries must be non-negative" "seq_lens[row] >= 0"
    let tailCount := (seqLens row).toInt % a.poolSize.toInt
    storeEach start tailCount.toNat
      (fun tail => a.storedToken row length tail "tail token exceeds page_table_stride") dst

def length (row : ℕ) : ℕ := (entry a.lengths row).toNat

/-- The tokens of the open pool. -/
def tailCount (row : ℕ) : ℕ := (entry a.seqLens row % a.poolSize.toInt).toNat

/-- A token as `transform_token` maps it, in unbounded integers. -/
def tokenValue (row rawToken : ℕ) : ℤ :=
  match a.pageTableEntry row with
  | some table => table rawToken
  | none => rawToken + entry a.topkIndicesOffset row

/-- The token, and the token with its offset, are values of `int32_t`. -/
def TokenFits (row rawToken : ℕ) : Prop :=
  (rawToken : ℤ) < 2 ^ 31 ∧ (a.topkIndicesOffset.isSome → rawToken + entry a.topkIndicesOffset row < 2 ^ 31)

/-- The tokens of some pools, then those of the open pool. -/
def tokens (best : List ℕ) (row : ℕ) : List ℕ :=
  (best.flatMap fun g => (List.range a.pool).map fun slot => g * a.pool + slot) ++
    (List.range (a.tailCount row)).map fun tail => a.length row * a.pool + tail

/-! ## One token -/

/-- What the checks of the layout leave. -/
structure Layout : Prop where
  pool_gt : 1 < a.poolSize.toInt
  topk : a.tokenTopk.toInt = a.groupTopk * a.poolSize.toInt
  groupTopk_pos : 0 < a.groupTopk
  cols : a.outCols.toInt = a.tokenTopk.toInt + a.tailCols
  exclusive : a.pageTable.isNone ∨ a.topkIndicesOffset.isNone

variable {a} {row g slot : ℕ} {msg : String} {v : ℤ}

lemma layout_of_checks (hpool : 1 < a.poolSize.toInt) (htopk : 0 < a.tokenTopk.toInt ∧ a.tokenTopk.toInt % a.poolSize.toInt = 0)
    (hgroups : groupTopkSupported a.groupTopk) (hcols : a.outCols.toInt = a.tokenTopk.toInt + a.tailCols)
    (hexclusive : a.pageTable.isNone ∨ a.topkIndicesOffset.isNone) : a.Layout where
  pool_gt := hpool
  topk := (Int.ediv_mul_cancel (Int.dvd_of_emod_eq_zero htopk.2)).symm
  groupTopk_pos := by
    simp only [groupTopkSupported, mem_cons, not_mem_nil, or_false] at hgroups
    omega
  cols := hcols
  exclusive := hexclusive

lemma Layout.pool_eq (h : a.Layout) : a.poolSize.toInt = a.pool := by
  have := h.pool_gt
  unfold pool
  omega

lemma entry_range (p : Option (ℕ → Int32)) (row : ℕ) : InInt32 (entry p row) := by
  unfold entry
  split
  · decide
  · exact ⟨Int32.le_toInt _, Int32.toInt_lt _⟩

lemma rawToken_eq (h : a.Layout) (pool slot : ℕ) : (pool : ℤ) * a.poolSize.toInt + slot = (pool * a.pool + slot : ℕ) := by
  rw [h.pool_eq]
  rfl

lemma storedToken_ok (hlayout : a.Layout) (h : a.storedToken row g slot msg = .ok v) :
    a.TokenFits row (g * a.pool + slot) ∧ v = a.tokenValue row (g * a.pool + slot) := by
  obtain ⟨-, h⟩ := int32_bind_ok.mp h
  simp only [int32_bind_ok] at h
  obtain ⟨hraw, h⟩ := h
  obtain ⟨-, h⟩ := expects_ok.mp h
  rw [rawToken_eq hlayout] at hraw h
  unfold TokenFits tokenValue
  cases htable : a.pageTable with
  | some table =>
    have hoffset : a.topkIndicesOffset.isNone := by simpa [htable] using hlayout.exclusive
    simp only [transformToken, pageTableEntry, htable, Option.map_some, Int.toNat_natCast, Except.ok.injEq] at h ⊢
    exact ⟨⟨hraw.2, fun hsome => by simp [Option.isNone_iff_eq_none.mp hoffset] at hsome⟩, h.symm⟩
  | none =>
    cases hoffset : a.topkIndicesOffset with
    | some offset =>
      simp only [transformToken, pageTableEntry, htable, hoffset, Option.map_none, int32_ok] at h ⊢
      exact ⟨⟨hraw.2, fun _ => h.1.2⟩, h.2.symm⟩
    | none =>
      simp only [transformToken, pageTableEntry, htable, hoffset, Option.map_none, Except.ok.injEq] at h ⊢
      exact ⟨⟨hraw.2, fun hsome => by simp at hsome⟩, by simp [entry, ← h]⟩

lemma TokenFits.mono {row rawToken rawToken' : ℕ} (h : a.TokenFits row rawToken') (hle : rawToken ≤ rawToken') :
    a.TokenFits row rawToken := by
  refine ⟨?_, fun hoffset => ?_⟩
  · have := h.1
    omega
  · have := h.2 hoffset
    omega

lemma storedToken_fits (hlayout : a.Layout) (h : a.TokenFits row (g * a.pool + slot)) :
    a.storedToken row g slot msg ≠ .error .overflow := by
  have hraw := rawToken_eq hlayout g slot
  have hlt := h.1
  refine int32_bind_fits ⟨by omega, by omega⟩ ?_
  rw [hraw]
  refine int32_bind_fits ⟨by omega, hlt⟩ (expects_fits fun _ => ?_)
  unfold transformToken
  split
  · simp
  · rename_i hoffset
    have hentry := entry_range a.topkIndicesOffset row
    refine int32_fits ⟨?_, h.2 (by simp [hoffset])⟩
    have := hentry.1
    omega
  · simp

lemma storeTail_ok {length start : ℕ} {dst dst' : ℕ → ℤ} (h : a.storeTail row length start dst = .ok dst') :
    (∀ tail < a.tailCount row, a.storedToken row length tail "tail token exceeds page_table_stride" =
      .ok (dst' (start + tail))) ∧ ∀ p, p < start ∨ start + a.tailCount row ≤ p → dst' p = dst p := by
  unfold storeTail at h
  unfold tailCount entry
  split at h
  · obtain rfl := Except.ok.inj h
    simp
  · exact storeEach_ok (expects_ok.mp h).2

lemma storeTail_fits (hlayout : a.Layout) {length start : ℕ} {dst : ℕ → ℤ}
    (h : ∀ tail < a.tailCount row, a.TokenFits row (length * a.pool + tail)) :
    a.storeTail row length start dst ≠ .error .overflow := by
  unfold tailCount entry at h
  unfold storeTail
  split
  · simp
  · rename_i _ hsome
    rw [hsome] at h
    exact expects_fits fun _ => storeEach_fits fun tail ht => storedToken_fits hlayout (h tail ht)

/-! ## The columns of a row -/

variable {lengths : ℕ → Int32}

lemma length_eq (hlengths : a.lengths = some lengths) (row : ℕ) : a.length row = (lengths row).toInt.toNat := by
  rw [length, hlengths]
  rfl

lemma columns_le (hlayout : a.Layout) (row : ℕ) {best : ℕ} (hbest : best ≤ a.groupTopk.toNat) :
    best * a.pool + a.tailCount row ≤ a.outCols.toInt.toNat := by
  have hpool := hlayout.pool_eq
  have hpos := hlayout.pool_gt
  have hgroups : (best : ℤ) * a.pool ≤ a.tokenTopk.toInt := by
    rw [hlayout.topk, hpool]
    have := hlayout.groupTopk_pos
    exact Int.mul_le_mul_of_nonneg_right (by omega) (Int.natCast_nonneg _)
  have htail : (a.tailCount row : ℤ) ≤ a.tailCols := by
    unfold tailCount tailCols entry
    split
    · simp
    · have := Int.emod_lt_of_pos ((‹ℕ → Int32› row).toInt) (by omega : 0 < a.poolSize.toInt)
      omega
  have hcols := hlayout.cols
  omega

lemma historyLen_eq (hlayout : a.Layout) (hlengths : a.lengths = some lengths) (row : ℕ) (hlen : 0 ≤ (lengths row).toInt) :
    (min (lengths row).toInt a.groupTopk * a.poolSize.toInt).toNat = min (a.length row) a.groupTopk.toNat * a.pool := by
  have hK := hlayout.groupTopk_pos
  have hmin : min (lengths row).toInt a.groupTopk = (min (a.length row) a.groupTopk.toNat : ℕ) := by
    rw [length_eq hlengths]
    omega
  rw [hmin, hlayout.pool_eq, ← Int.natCast_mul, Int.toNat_natCast]

lemma map_three {C H T : ℕ} {d F G : ℕ → ℤ} (hC : H + T ≤ C) (hF : ∀ c < H, d c = F c) (hG : ∀ t < T, d (H + t) = G t)
    (hpad : ∀ c, H + T ≤ c → c < C → d c = -1) :
    (range C).map d = (range H).map F ++ (range T).map G ++ replicate (C - (H + T)) (-1) := by
  obtain ⟨Z, rfl⟩ := Nat.exists_eq_add_of_le hC
  rw [range_add, range_add, map_append, map_append, map_map, map_map, Nat.add_sub_cancel_left]
  refine congrArg₂ _ (congrArg₂ _ ?_ ?_) ?_
  · exact map_congr_left fun c hc => hF c (mem_range.mp hc)
  · exact map_congr_left fun t ht => hG t (mem_range.mp ht)
  · refine eq_replicate_iff.mpr ⟨by simp, fun x hx => ?_⟩
    obtain ⟨z, hz, rfl⟩ := mem_map.mp hx
    have hz := mem_range.mp hz
    exact hpad (H + T + z) (by omega) (by omega)

lemma map_tokens (best : List ℕ) (row : ℕ) : (a.tokens best row).map (a.tokenValue row) =
      (range (best.length * a.pool)).map (fun col => a.tokenValue row (best.getD (col / a.pool) 0 * a.pool + col % a.pool)) ++
        (range (a.tailCount row)).map fun tail => a.tokenValue row (a.length row * a.pool + tail) := by
  have hrows := Blocks.map_rows best 0 a.pool fun g slot => a.tokenValue row (g * a.pool + slot)
  rw [hrows, tokens, map_append, map_map, map_flatMap]
  simp only [map_map]
  rfl

lemma tokens_length (best : List ℕ) (row : ℕ) :
    (a.tokens best row).length = best.length * a.pool + a.tailCount row := by
  simpa using congrArg List.length (map_tokens best row)

lemma tokens_lt {best : List ℕ} (hbest : ∀ g ∈ best, g < a.length row) {rawToken : ℕ} (h : rawToken ∈ a.tokens best row) :
    rawToken < a.length row * a.pool + a.tailCount row := by
  obtain h | h := mem_append.mp h
  · obtain ⟨g, hg, h⟩ := mem_flatMap.mp h
    obtain ⟨_, hslot, rfl⟩ := mem_map.mp h
    have hslot := mem_range.mp hslot
    have hpools := Blocks.block_le (hbest g hg) a.pool
    omega
  · obtain ⟨_, htail, rfl⟩ := mem_map.mp h
    have htail := mem_range.mp htail
    omega

/-! ## One row -/

section

variable [LinearOrder α] (a) (nth : NthElement ℕ)

/-- The body of the loop over the rows.  `selected` is not read where no pool is valid. -/
def transformRow (score : ℕ → α) (lengths : ℕ → Int32) (dst : ℕ → ℤ) (row : ℕ) : Except Fault (ℕ → ℤ) := do
  let length := (lengths row).toInt
  expects (0 ≤ length) "lengths entries must be non-negative" "length >= 0"
  expects (0 ≤ entry a.rowStarts row) "row_starts entries must be non-negative" "row_start >= 0"
  expects (entry a.rowStarts row + length ≤ a.scoreStride.toInt) "valid score range exceeds score_stride"
    "static_cast<int64_t>(row_start) + length <= score_stride"
  expects (length ≤ (2 ^ 31 - 1) / a.poolSize.toInt) "expanded token index overflows int32"
    "length <= std::numeric_limits<int32_t>::max() / pool_size"
  let base := row * a.outCols.toInt.toNat
  let selected := bestLanes nth a.groupTopk.toNat length.toNat (a.scoreRow score row)
  expects (a.pageTable.isNone ∨ 0 ≤ a.pageRow row ∧ a.pageRow row < a.batchSize.toInt)
    "page_table_row_index entries must address a page-table row"
    "page_table == nullptr || (page_row >= 0 && page_row < batch_size)"
  let historyLen ← int32 (min length a.groupTopk * a.poolSize.toInt)
  let dst ← storeEach base historyLen.toNat (fun col =>
    a.storedToken row (selected.getD (col / a.pool) 0) (col % a.pool) "raw token exceeds page_table_stride")
    (fill base a.outCols.toInt.toNat (-1) dst)
  a.storeTail row length.toNat (base + historyLen.toNat) dst

/-- `dsa_topk_transform_cpu`: what is behind `dst_token_indices` afterwards.  The three null checks say nothing of an
empty batch, so they stand behind its return. -/
def transform : Except Fault (Option (ℕ → ℤ)) := do
  expects (0 ≤ a.batchSize.toInt) "batch_size must be non-negative" "batch_size >= 0"
  expects (0 ≤ a.scoreStride.toInt) "score_stride must be non-negative" "score_stride >= 0"
  expects (1 < a.poolSize.toInt) "pool_size must be greater than one" "pool_size > 1"
  expects (0 < a.tokenTopk.toInt ∧ a.tokenTopk.toInt % a.poolSize.toInt = 0)
    "token_topk must be a positive multiple of pool_size" "token_topk > 0 && token_topk % pool_size == 0"
  expects (groupTopkSupported a.groupTopk) "unsupported pool-level top-k"
    "dsa_topk_transform_group_topk_supported(group_topk)"
  let width ← int32 (a.tokenTopk.toInt + a.tailCols)
  expects (a.outCols.toInt = width) "out_cols does not match the transform layout" "out_cols == token_topk + tail_cols"
  expects (a.pageTable.isNone ∨ a.topkIndicesOffset.isNone)
    "page_table and topk_indices_offset are mutually exclusive" "page_table == nullptr || topk_indices_offset == nullptr"
  expects (a.pageTable.isNone ∨ 0 < a.pageTableStride.toInt)
    "page_table_stride must be positive when a page table is used" "page_table == nullptr || page_table_stride > 0"
  if a.batchSize.toInt = 0 then
    return a.dstTokenIndices
  else do
    let score ← nonNull a.score "score must not be null" "batch_size == 0 || score != nullptr"
    let lengths ← nonNull a.lengths "lengths must not be null" "batch_size == 0 || lengths != nullptr"
    let dst ← nonNull a.dstTokenIndices "dst_token_indices must not be null"
      "batch_size == 0 || dst_token_indices != nullptr"
    let dst ← (List.range a.batchSize.toInt.toNat).foldlM (a.transformRow nth score lengths) dst
    return some dst

/-- The pool is one of the `group_topk` best: by score descending, then by index. -/
def Best (score : ℕ → α) (row g : ℕ) : Prop :=
  g < a.length row ∧ Chosen (a.length row) (a.scoreRow score row) a.groupTopk.toNat g

/-- The last token of every best pool and of the open pool fits. -/
def RowFits (score : ℕ → α) (row : ℕ) : Prop :=
  (∀ g, a.Best score row g → a.TokenFits row (g * a.pool + (a.pool - 1))) ∧
    (0 < a.tailCount row → a.TokenFits row (a.length row * a.pool + (a.tailCount row - 1)))

/-- The row holds the tokens of the best pools and of the open pool, then `-1`. -/
def RowExact (score : ℕ → α) (dst : ℕ → ℤ) (row : ℕ) : Prop :=
  ∃ best : List ℕ, best.Nodup ∧ (∀ g, g ∈ best ↔ a.Best score row g) ∧
    (∀ rawToken ∈ a.tokens best row, rawToken < a.length row * a.pool + a.tailCount row) ∧
    (List.range a.outCols.toInt.toNat).map (fun col => dst (row * a.outCols.toInt.toNat + col)) =
      (a.tokens best row).map (a.tokenValue row) ++
        List.replicate (a.outCols.toInt.toNat - (a.tokens best row).length) (-1)

variable {a nth} {score : ℕ → α} {dst dst' : ℕ → ℤ}

/-- A row that was accepted: it fits, it is exact, and the other cells are as before. -/
lemma transformRow_ok (hlayout : a.Layout) (hlengths : a.lengths = some lengths)
    (h : a.transformRow nth score lengths dst row = .ok dst') : a.RowFits score row ∧ a.RowExact score dst' row ∧
      ∀ p, p < row * a.outCols.toInt.toNat ∨ row * a.outCols.toInt.toNat + a.outCols.toInt.toNat ≤ p → dst' p = dst p := by
  obtain ⟨hlen, h⟩ := expects_ok.mp h
  simp only [expects_ok] at h
  obtain ⟨-, -, -, -, h⟩ := h
  obtain ⟨-, h⟩ := int32_bind_ok.mp h
  obtain ⟨_, hhistory, h⟩ := bind_ok.mp h
  rw [historyLen_eq hlayout hlengths row hlen, ← length_eq hlengths] at hhistory h
  obtain ⟨hhistory, hmid⟩ := storeEach_ok hhistory
  obtain ⟨htail, hrest⟩ := storeTail_ok h
  obtain ⟨hnodup, hcard, hmem⟩ := bestLanes_spec nth a.groupTopk.toNat _ (a.scoreRow score row)
  have hcols := columns_le hlayout row (min_le_right (a.length row) a.groupTopk.toNat)
  generalize hbest : bestLanes nth a.groupTopk.toNat (a.length row) (a.scoreRow score row) = best at *
  rw [← hcard] at hhistory hmid htail hrest hcols
  generalize hbase : row * a.outCols.toInt.toNat = base at *
  have hpool : 0 < a.pool := by
    have := hlayout.pool_eq
    have := hlayout.pool_gt
    omega
  have hhist (col : ℕ) (hcol : col < best.length * a.pool) := by
    have hcell := hhistory col hcol
    rw [← hrest _ (.inl (by omega))] at hcell
    exact storedToken_ok hlayout hcell
  have hopen (tail : ℕ) (ht : tail < a.tailCount row) := storedToken_ok hlayout (htail tail ht)
  refine ⟨⟨fun g hg => ?_, fun hpos => ?_⟩, ⟨best, hnodup, hmem, fun rawToken hraw => ?_, ?_⟩, fun p hp => ?_⟩
  · -- the last column of the pool
    obtain ⟨k, hk, rfl⟩ := getElem_of_mem ((hmem g).mpr hg)
    have hlast : a.pool - 1 < a.pool := by omega
    have hfits := (hhist _ (Blocks.block_lt hk hlast)).1
    rw [Blocks.block_div k hlast, Blocks.block_mod k hlast, getD_eq_getElem?_getD, getElem?_eq_getElem hk, Option.getD_some] at hfits
    exact hfits
  · exact (hopen _ (by omega)).1
  · exact tokens_lt (fun g hg => ((hmem g).mp hg).1) hraw
  · rw [map_tokens, tokens_length, hbase]
    refine map_three hcols (fun col hcol => (hhist col hcol).2) (fun tail ht => ?_) fun col hcol hlt => ?_
    · rw [← Nat.add_assoc]
      exact (hopen tail ht).2
    · rw [hrest _ (by omega), hmid _ (by omega), fill, if_pos (by omega)]
  · rw [hrest p (by omega), hmid p (by omega), fill, if_neg (by omega)]

lemma transformRow_fits (hlayout : a.Layout) (hlengths : a.lengths = some lengths) (hfits : a.RowFits score row) :
    a.transformRow nth score lengths dst row ≠ .error .overflow := by
  refine expects_fits fun hlen => expects_fits fun _ => expects_fits fun _ => expects_fits fun hmax =>
    expects_fits fun _ => ?_
  have hpool := hlayout.pool_eq
  have hpos := hlayout.pool_gt
  have hhistory : InInt32 (min (lengths row).toInt a.groupTopk * a.poolSize.toInt) := by
    have hle : min (lengths row).toInt a.groupTopk * a.poolSize.toInt ≤ a.tokenTopk.toInt := by
      rw [hlayout.topk]
      exact Int.mul_le_mul_of_nonneg_right (min_le_right _ _) (by omega)
    have hK := hlayout.groupTopk_pos
    have hnonneg : 0 ≤ min (lengths row).toInt a.groupTopk * a.poolSize.toInt := Int.mul_nonneg (by omega) (by omega)
    have := Int32.toInt_lt a.tokenTopk
    exact ⟨by omega, by omega⟩
  refine int32_bind_fits hhistory ?_
  rw [historyLen_eq hlayout hlengths row hlen, ← length_eq hlengths]
  obtain ⟨-, hcard, hmem⟩ := bestLanes_spec nth a.groupTopk.toNat _ (a.scoreRow score row)
  generalize bestLanes nth a.groupTopk.toNat _ (a.scoreRow score row) = best at *
  rw [← hcard]
  refine bind_fits (storeEach_fits fun col hcol => storedToken_fits hlayout ?_) fun mid _ =>
    storeTail_fits hlayout fun tail ht => (hfits.2 (by omega)).mono (by omega)
  have hrank : col / a.pool < best.length := Nat.div_lt_of_lt_mul (by rwa [Nat.mul_comm])
  have hslot : col % a.pool < a.pool := Nat.mod_lt _ (by omega)
  rw [getD_eq_getElem?_getD, getElem?_eq_getElem hrank, Option.getD_some]
  exact (hfits.1 _ ((hmem _).mp (getElem_mem hrank))).mono (by omega)

/-! ## The batch -/

lemma RowExact.congr (h : a.RowExact score dst row)
    (heq : ∀ col < a.outCols.toInt.toNat, dst' (row * a.outCols.toInt.toNat + col) = dst (row * a.outCols.toInt.toNat + col)) :
    a.RowExact score dst' row := by
  obtain ⟨best, hnodup, hmem, hlt, hrow⟩ := h
  refine ⟨best, hnodup, hmem, hlt, ?_⟩
  rw [← hrow]
  exact map_congr_left fun col hcol => heq col (mem_range.mp hcol)

lemma rows_ok (hlayout : a.Layout) (hlengths : a.lengths = some lengths) {m : ℕ}
    (h : (range m).foldlM (a.transformRow nth score lengths) dst = .ok dst') :
    ∀ row < m, a.RowFits score row ∧ a.RowExact score dst' row := by
  induction m generalizing dst' with
  | zero => exact fun row hrow => absurd hrow (Nat.not_lt_zero row)
  | succ m ih =>
    rw [range_succ, foldlM_append] at h
    obtain ⟨_, hmid, h⟩ := bind_ok.mp h
    obtain ⟨_, hlast, h⟩ := bind_ok.mp h
    obtain rfl := Except.ok.inj h
    obtain ⟨hfits, hexact, hframe⟩ := transformRow_ok hlayout hlengths hlast
    intro row hrow
    obtain hrow | rfl := Nat.lt_succ_iff_lt_or_eq.mp hrow
    · obtain ⟨hfits, hexact⟩ := ih hmid row hrow
      refine ⟨hfits, hexact.congr fun col hcol => hframe _ (.inl ?_)⟩
      have hrows := Blocks.block_le hrow a.outCols.toInt.toNat
      omega
    · exact ⟨hfits, hexact⟩

lemma rows_fits (hlayout : a.Layout) (hlengths : a.lengths = some lengths) {m : ℕ}
    (h : ∀ row < m, a.RowFits score row) :
    (range m).foldlM (a.transformRow nth score lengths) dst ≠ .error .overflow := by
  induction m with
  | zero => simp [pure, Except.pure]
  | succ m ih =>
    rw [range_succ, foldlM_append]
    refine bind_fits (ih fun row hrow => h row (by omega)) fun mid _ => ?_
    exact bind_fits (transformRow_fits hlayout hlengths (h m (Nat.lt_succ_self m))) fun last _ => by
      simp [pure, Except.pure]

variable (a)

/-- The width of a row and every token of every row fit. -/
def Fits : Prop :=
  a.tokenTopk.toInt + a.tailCols < 2 ^ 31 ∧
    ∀ score, a.score = some score → ∀ row < a.batchSize.toInt.toNat, a.RowFits score row

/-- Every row of the result is exact. -/
def Exact (out : Option (ℕ → ℤ)) : Prop :=
  ∀ row < a.batchSize.toInt.toNat, ∃ score dst, a.score = some score ∧ out = some dst ∧ a.RowExact score dst row

variable {a} {out : Option (ℕ → ℤ)}

lemma transform_ok (h : a.transform nth = .ok out) : a.Fits ∧ a.Exact out := by
  obtain ⟨hbatch, h⟩ := expects_ok.mp h
  simp only [expects_ok] at h
  obtain ⟨-, hpool, htopk, hgroups, h⟩ := h
  obtain ⟨hwidth, h⟩ := int32_bind_ok.mp h
  obtain ⟨hcols, h⟩ := expects_ok.mp h
  simp only [expects_ok] at h
  obtain ⟨hexclusive, -, h⟩ := h
  have hlayout := layout_of_checks hpool htopk hgroups hcols hexclusive
  unfold Fits Exact
  split at h
  · rename_i hempty
    simp only [hempty]
    exact ⟨⟨hwidth.2, fun _ _ row hrow => absurd hrow (Nat.not_lt_zero row)⟩, fun row hrow => absurd hrow (Nat.not_lt_zero row)⟩
  · obtain ⟨score, hscore, h⟩ := bind_ok.mp h
    obtain ⟨_, hlengths, h⟩ := bind_ok.mp h
    obtain ⟨_, -, h⟩ := bind_ok.mp h
    obtain ⟨dst', hrows, h⟩ := bind_ok.mp h
    obtain rfl := Except.ok.inj h
    have hscore := nonNull_ok.mp hscore
    have hall := rows_ok hlayout (nonNull_ok.mp hlengths) hrows
    refine ⟨⟨hwidth.2, fun score' hscore' row hrow => ?_⟩, fun row hrow => ⟨score, dst', hscore, rfl, (hall row hrow).2⟩⟩
    obtain rfl := Option.some.inj (hscore.symm.trans hscore')
    exact (hall row hrow).1

lemma transform_fits (h : a.Fits) : a.transform nth ≠ .error .overflow := by
  refine expects_fits fun _ => expects_fits fun _ => expects_fits fun hpool => expects_fits fun htopk =>
    expects_fits fun hgroups => int32_bind_fits ⟨?_, h.1⟩ (expects_fits fun hcols =>
      expects_fits fun hexclusive => expects_fits fun _ => ?_)
  · have htail : 0 ≤ a.tailCols := by
      unfold tailCols
      split <;> omega
    omega
  · have hlayout := layout_of_checks hpool htopk hgroups hcols hexclusive
    split
    · simp [pure, Except.pure]
    · refine bind_fits nonNull_fits fun score hscore => bind_fits nonNull_fits fun lengths hlengths =>
        bind_fits nonNull_fits fun dst _ => bind_fits ?_ fun dst' _ => by simp [pure, Except.pure]
      exact rows_fits hlayout (nonNull_ok.mp hlengths) (h.2 score (nonNull_ok.mp hscore))

/-- **An input that is not rejected** runs without overflow, and every row of the result is exact, if and only if the
width of a row and every token of every row fit `int32_t`. -/
theorem topk_transform_iff (haccepted : ∀ what, a.transform nth ≠ .error (.rejected what)) :
    (∃ out, a.transform nth = .ok out ∧ a.Exact out) ↔ a.Fits := by
  constructor
  · rintro ⟨out, hout, -⟩
    exact (transform_ok hout).1
  · intro hfits
    cases hrun : a.transform nth with
    | ok out => exact ⟨out, rfl, (transform_ok hrun).2⟩
    | error fault =>
      cases fault with
      | rejected what => exact absurd hrun (haccepted what)
      | overflow => exact absurd hrun (transform_fits hfits)

end

/-- A row of one pool of two tokens, with one token in the open pool. -/
def onePool (offset : Int32) : Args ℕ where
  batchSize := 1
  score := some fun _ => 0
  lengths := some fun _ => 1
  dstTokenIndices := some fun _ => 0
  scoreStride := 1
  poolSize := 2
  tokenTopk := 256
  outCols := 257
  pageTable := none
  pageTableStride := 0
  pageTableRowIndex := none
  topkIndicesOffset := some fun _ => offset
  rowStarts := none
  seqLens := some fun _ => 3

theorem topk_transform_onePool :
    ∃ out, (onePool 5).transform (NthElement.bySort ℕ) = .ok out ∧ (onePool 5).Exact out := by
  have haccepted : ((onePool 5).transform (NthElement.bySort ℕ)).toBool = true := by decide +kernel
  refine (topk_transform_iff fun what h => ?_).mpr ⟨by decide, fun score _ row hrow => ⟨fun g hg => ?_, fun _ => ?_⟩⟩
  · rw [h] at haccepted
    cases haccepted
  · obtain rfl : g = 0 := Nat.lt_one_iff.mp hg.1
    obtain rfl : row = 0 := Nat.lt_one_iff.mp hrow
    exact ⟨by decide, fun _ => by decide⟩
  · obtain rfl : row = 0 := Nat.lt_one_iff.mp hrow
    exact ⟨by decide, fun _ => by decide⟩

/-- An offset near the top of the range: the second token of the pool overflows. -/
theorem topk_transform_overflow : (onePool Int32.maxValue).transform (NthElement.bySort ℕ) = .error .overflow := rfl

end Args

end VKernels.Dsa.TopkTransform
