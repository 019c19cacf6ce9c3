import VKernels.Comm.Host
import VKernels.Lib.Blocks

/-!
# KV pages

Arguments and byte layout shared by the donate and restore paths.

* `gatherPage_value` — what a gathered page holds, byte for byte.
-/

namespace VKernels.Comm

open ByteCopies
open List

/-- Bytes of one slot's K (or V) of one layer. -/
def perSlotBytes (numKvHeads headDim elemSize : ℕ) : ℕ := numKvHeads * headDim * elemSize

/-- Bytes of one token's K and V. -/
def tokenStrideBytes (numKvHeads headDim elemSize : ℕ) : ℕ :=
  2 * perSlotBytes numKvHeads headDim elemSize

/-- `k`, `v` are `k_src`, `v_src` of a donate and `k_dst`, `v_dst` of a restore.  Sizes are those
    of real buffers, so their products do not wrap. -/
structure KvArgs where
  k : ℕ
  v : ℕ
  slotIds : Arr ℤ
  peerPtrs : Arr ℕ
  pageOffsets : Arr ℕ
  numPages : ℕ
  pageSize : ℕ
  numKvHeads : ℕ
  headDim : ℕ
  elemSize : ℕ

namespace KvArgs

variable (a : KvArgs)

def slot (i : ℕ) : ℤ := (a.slotIds.getD fun _ => 0) i
def peer (p : ℕ) : ℕ := (a.peerPtrs.getD fun _ => 0) p
def pageOffset (p : ℕ) : ℕ := (a.pageOffsets.getD fun _ => 0) p
def slotBytes : ℕ := perSlotBytes a.numKvHeads a.headDim a.elemSize
def tokenStride : ℕ := tokenStrideBytes a.numKvHeads a.headDim a.elemSize

/-- The effective address of page `p`. -/
def pageBase (p : ℕ) : ℕ := a.peer p + a.pageOffset p

/-- `slot_ids + p * page_size`. -/
def pageSlots (p t : ℕ) : ℤ := a.slot (p * a.pageSize + t)

def pageBytes : ℕ := a.pageSize * a.tokenStride

end KvArgs

/-- The loop of `fused_donate_page` and of `gather_kv_to_scratch`. -/
def gatherPage (page k v : ℕ) (slotIds : ℕ → ℤ) (pageSize slotBytes tokenStride : ℕ) : List Copy :=
  (range pageSize).flatMap fun t =>
    let srcOff := (slotIds t).toNat * slotBytes
    let dstOff := t * tokenStride
    [⟨page + dstOff, k + srcOff, slotBytes⟩, ⟨page + dstOff + slotBytes, v + srcOff, slotBytes⟩]

/-- The loop of `fused_copy_page` and of `scatter_kv_from_scratch`. -/
def scatterPage (page k v : ℕ) (slotIds : ℕ → ℤ) (pageSize slotBytes : ℕ) : List Copy :=
  let tokenStride := 2 * slotBytes
  (range pageSize).flatMap fun t =>
    let slot := (slotIds t).toNat
    let srcK := page + t * tokenStride
    let srcV := srcK + slotBytes
    [⟨k + slot * slotBytes, srcK, slotBytes⟩, ⟨v + slot * slotBytes, srcV, slotBytes⟩]

section

variable {page k v : ℕ} {slots : ℕ → ℤ} {ps sb : ℕ}

lemma mem_gatherPage {c : Copy} : c ∈ gatherPage page k v slots ps sb (2 * sb) ↔
    ∃ t < ps, c = ⟨page + t * (2 * sb), k + (slots t).toNat * sb, sb⟩ ∨
      c = ⟨page + t * (2 * sb) + sb, v + (slots t).toNat * sb, sb⟩ := by
  simp [gatherPage]

lemma mem_scatterPage {c : Copy} : c ∈ scatterPage page k v slots ps sb ↔
    ∃ t < ps, c = ⟨k + (slots t).toNat * sb, page + t * (2 * sb), sb⟩ ∨
      c = ⟨v + (slots t).toNat * sb, page + t * (2 * sb) + sb, sb⟩ := by
  simp [scatterPage]

variable {x : ℕ}

lemma gatherPage_writes (h : Writes (gatherPage page k v slots ps sb (2 * sb)) x) :
    page ≤ x ∧ x < page + ps * (2 * sb) := by
  obtain ⟨c, hc, hle, hlt⟩ := h
  obtain ⟨t, ht, rfl | rfl⟩ := mem_gatherPage.mp hc
  all_goals
    have := Blocks.block_le ht (2 * sb)
    simp only at hle hlt
    omega

lemma gatherPage_reads (h : Reads (gatherPage page k v slots ps sb (2 * sb)) x) :
    ∃ t < ps, (k + (slots t).toNat * sb ≤ x ∧ x < k + (slots t).toNat * sb + sb) ∨
      (v + (slots t).toNat * sb ≤ x ∧ x < v + (slots t).toNat * sb + sb) := by
  obtain ⟨c, hc, hle, hlt⟩ := h
  obtain ⟨t, ht, rfl | rfl⟩ := mem_gatherPage.mp hc
  · exact ⟨t, ht, .inl ⟨hle, hlt⟩⟩
  · exact ⟨t, ht, .inr ⟨hle, hlt⟩⟩

lemma gatherPage_exclusive : Exclusive (gatherPage page k v slots ps sb (2 * sb)) := by
  refine pairwise_flatMap.mpr ⟨fun t _ => ?_, pairwise_lt_range.imp fun {t u} htu => ?_⟩
  · refine pairwise_pair.mpr fun x hx hy => ?_
    obtain ⟨_, _⟩ := hx
    obtain ⟨_, _⟩ := hy
    simp only at *
    omega
  · intro c hc d hd x hx hy
    have := Blocks.block_le htu (2 * sb)
    obtain ⟨_, _⟩ := hx
    obtain ⟨_, _⟩ := hy
    simp only [mem_cons, not_mem_nil, or_false] at hc hd
    rcases hc with rfl | rfl <;> rcases hd with rfl | rfl <;> simp only at * <;> omega

/-- The byte a gathered page takes at `page + j`: token `j / (2 * sb)`, K before V. -/
def gatherSource (k v : ℕ) (slots : ℕ → ℤ) (sb j : ℕ) : ℕ :=
  let t := j / (2 * sb)
  let r := j % (2 * sb)
  if r < sb then k + (slots t).toNat * sb + r else v + (slots t).toNat * sb + (r - sb)

lemma gatherPage_at (page k v : ℕ) (slots : ℕ → ℤ) {j : ℕ} (hj : j < ps * (2 * sb)) :
    ∃ c ∈ gatherPage page k v slots ps sb (2 * sb), ∃ i < c.len,
      page + j = c.dst + i ∧ gatherSource k v slots sb j = c.src + i := by
  have hsb : 0 < 2 * sb := pos_of_ne_zero fun h0 => by simp [h0] at hj
  have ht : j / (2 * sb) < ps := Nat.div_lt_of_lt_mul (by rwa [mul_comm])
  have hr := Nat.mod_lt j hsb
  have hdiv : j / (2 * sb) * (2 * sb) + j % (2 * sb) = j := by
    rw [mul_comm]; exact Nat.div_add_mod j _
  unfold gatherSource
  by_cases hk : j % (2 * sb) < sb
  · refine ⟨_, mem_gatherPage.mpr ⟨_, ht, .inl rfl⟩, j % (2 * sb), hk, ?_, ?_⟩
    · show page + j = page + j / (2 * sb) * (2 * sb) + j % (2 * sb)
      omega
    · rw [if_pos hk]
  · refine ⟨_, mem_gatherPage.mpr ⟨_, ht, .inr rfl⟩, j % (2 * sb) - sb, ?_, ?_, ?_⟩
    · show j % (2 * sb) - sb < sb
      omega
    · show page + j = page + j / (2 * sb) * (2 * sb) + sb + (j % (2 * sb) - sb)
      omega
    · rw [if_neg hk]

lemma gatherPage_value {m : Mem UInt8} (hsep : ∀ x, Reads (gatherPage page k v slots ps sb (2 * sb)) x →
      ¬ (page ≤ x ∧ x < page + ps * (2 * sb))) {j : ℕ} (hj : j < ps * (2 * sb)) :
    runAll (gatherPage page k v slots ps sb (2 * sb)) m (page + j) = m (gatherSource k v slots sb j) := by
  have hclean : Clean (gatherPage page k v slots ps sb (2 * sb)) := fun x hr hw => hsep x hr (gatherPage_writes hw)
  obtain ⟨c, hc, i, hi, hdst, hsrc⟩ := gatherPage_at page k v slots hj
  rw [hdst, hsrc]
  exact runAll_of_clean hclean gatherPage_exclusive m hc hi

lemma gatherPage_congr {ts : ℕ} {slots' : ℕ → ℤ} (h : ∀ t < ps, slots t = slots' t) :
    gatherPage page k v slots ps sb ts = gatherPage page k v slots' ps sb ts := by
  refine flatMap_congr fun t ht => ?_
  rw [h t (mem_range.mp ht)]

lemma scatterPage_congr {slots' : ℕ → ℤ} (h : ∀ t < ps, slots t = slots' t) :
    scatterPage page k v slots ps sb = scatterPage page k v slots' ps sb := by
  refine flatMap_congr fun t ht => ?_
  rw [h t (mem_range.mp ht)]

lemma scatterPage_reads (h : Reads (scatterPage page k v slots ps sb) x) : page ≤ x ∧ x < page + ps * (2 * sb) := by
  obtain ⟨c, hc, hle, hlt⟩ := h
  obtain ⟨t, ht, rfl | rfl⟩ := mem_scatterPage.mp hc
  all_goals
    have := Blocks.block_le ht (2 * sb)
    simp only at hle hlt
    omega

lemma scatterPage_writes (h : Writes (scatterPage page k v slots ps sb) x) :
    ∃ t < ps, (k + (slots t).toNat * sb ≤ x ∧ x < k + (slots t).toNat * sb + sb) ∨
      (v + (slots t).toNat * sb ≤ x ∧ x < v + (slots t).toNat * sb + sb) := by
  obtain ⟨c, hc, hle, hlt⟩ := h
  obtain ⟨t, ht, rfl | rfl⟩ := mem_scatterPage.mp hc
  · exact ⟨t, ht, .inl ⟨hle, hlt⟩⟩
  · exact ⟨t, ht, .inr ⟨hle, hlt⟩⟩

lemma scatterPage_relocate (page scratch : ℕ) : scatterPage scratch k v slots ps sb =
    (scatterPage page k v slots ps sb).map (Copy.relocate page scratch) := by
  unfold scatterPage
  dsimp only
  rw [map_flatMap]
  congr 1
  funext t
  simp only [map_cons, map_nil, Copy.relocate, cons.injEq, Copy.mk.injEq, true_and, and_true]
  constructor <;> omega

end

/-! ## The contract -/

namespace KvArgs

variable (a : KvArgs)

/-- The K or V cache of `numSlots` slots. -/
def InCache (numSlots x : ℕ) : Prop :=
  (a.k ≤ x ∧ x < a.k + numSlots * a.slotBytes) ∨ (a.v ≤ x ∧ x < a.v + numSlots * a.slotBytes)

def InPage (p x : ℕ) : Prop := a.pageBase p ≤ x ∧ x < a.pageBase p + a.pageBytes

/-- Some page's bytes of this layer. -/
def InPages (x : ℕ) : Prop := ∃ p < a.numPages, a.InPage p x

/-- K or V bytes of some slot of the map. -/
def InSlots (x : ℕ) : Prop := ∃ i < a.numPages * a.pageSize,
  (a.k + (a.slot i).toNat * a.slotBytes ≤ x ∧
    x < a.k + (a.slot i).toNat * a.slotBytes + a.slotBytes) ∨
  (a.v + (a.slot i).toNat * a.slotBytes ≤ x ∧
    x < a.v + (a.slot i).toNat * a.slotBytes + a.slotBytes)

/-- Metadata in order, slots in range, and caches, pages and staging memory apart. -/
structure Valid (numSlots : ℕ) (S : ℕ → Prop) : Prop where
  elem : a.elemSize = 2
  positive : a.numPages = 0 ∨
    0 < a.pageSize ∧ 0 < a.numKvHeads ∧ 0 < a.headDim ∧ 0 < numSlots
  pointers : a.numPages = 0 ∨
    a.k ≠ 0 ∧ a.v ≠ 0 ∧ a.slotIds.isSome ∧ a.peerPtrs.isSome ∧ a.pageOffsets.isSome
  peers : ∀ p < a.numPages, a.peer p ≠ 0
  slots : ∀ i < a.numPages * a.pageSize, 0 ≤ a.slot i ∧ a.slot i < numSlots ∧ a.slot i < 2 ^ 31
  cache_pages : ∀ x, a.InCache numSlots x → ¬ a.InPages x
  cache_staging : ∀ x, a.InCache numSlots x → ¬ S x
  pages_staging : ∀ x, a.InPages x → ¬ S x

/-- Buffers apart: what the slots, the reachable pages and the staging memory share is nothing. -/
structure Apart (S : ℕ → Prop) : Prop where
  pages_slots : ∀ p < a.numPages, a.peer p ≠ 0 → ∀ x, a.InPage p x → ¬ a.InSlots x
  pages_staging : ∀ p < a.numPages, a.peer p ≠ 0 → ∀ x, a.InPage p x → ¬ S x
  slots_staging : ∀ x, a.InSlots x → ¬ S x

lemma range_split {q n : ℕ} (h : q < n) : ∃ rest, range n = range q ++ q :: rest := by
  obtain ⟨k, rfl⟩ := Nat.exists_eq_add_of_lt h
  refine ⟨(range k).map (q + 1 + ·), ?_⟩
  rw [show q + k + 1 = q + 1 + k by omega, range_add, range_succ, append_assoc, singleton_append]

variable {a}

lemma token_lt {p t : ℕ} (hp : p < a.numPages) (ht : t < a.pageSize) :
    p * a.pageSize + t < a.numPages * a.pageSize := by
  have := Blocks.block_le hp a.pageSize
  omega

lemma Valid.slots_cache {numSlots : ℕ} {S : ℕ → Prop} (h : a.Valid numSlots S) {x : ℕ}
    (hx : a.InSlots x) : a.InCache numSlots x := by
  obtain ⟨i, hi, hx⟩ := hx
  obtain ⟨h0, hlt, _⟩ := h.slots i hi
  have hle := Blocks.block_le (show (a.slot i).toNat < numSlots by omega) a.slotBytes
  unfold InCache
  omega

end KvArgs

end VKernels.Comm
