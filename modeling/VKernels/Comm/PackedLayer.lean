import VKernels.Comm.CrossNodeKv
import VKernels.Lib.Blocks

/-!
# The packed layer

A packed buffer of `num_pages` pages is one long page of all the tokens.

* `kvGatherCopies_eq`, `kvScatterCopies_eq` — the page loops of the two halves, as one token loop.
* `donateCopies_direct`, `restoreCopies_direct` — the direct path is the packed halves at the
  import's pointer plus the offset.
* `packedSource a k v j` — the K/V byte that position `j` of the packed layer stands for.
* `kvGatherInto_value`, `kvScatterFrom_value` — the bytes the halves leave; `donateCopies_value`,
  `restoreCopies_value` — those of the direct path.  `scatterPage_exclusive` is why no byte is
  scattered twice.
-/

namespace VKernels.Comm

open ByteCopies Effects
open List

section

variable (a : KvArgs) (base : ℕ)

lemma kvGatherCopies_eq : kvGatherCopies a base =
    gatherPage base a.k a.v a.slot (a.numPages * a.pageSize) a.slotBytes (2 * a.slotBytes) := by
  have hpage : ∀ p t, packedPage a base p + t * a.tokenStride = base + (p * a.pageSize + t) * (2 * a.slotBytes) := by
    intro p t
    unfold packedPage KvArgs.pageBytes KvArgs.tokenStride tokenStrideBytes KvArgs.slotBytes
    ring
  unfold kvGatherCopies gatherKvToScratch gatherPage
  rw [← Blocks.flatMap_blocks]
  refine flatMap_congr fun p _ => flatMap_congr fun t _ => ?_
  dsimp only
  rw [hpage]
  rfl

lemma kvScatterCopies_eq : kvScatterCopies a base =
    scatterPage base a.k a.v a.slot (a.numPages * a.pageSize) a.slotBytes := by
  have hpage : ∀ p t, packedPage a base p + t * (2 * a.slotBytes) =
      base + (p * a.pageSize + t) * (2 * a.slotBytes) := by
    intro p t
    unfold packedPage KvArgs.pageBytes KvArgs.tokenStride tokenStrideBytes KvArgs.slotBytes
    ring
  unfold kvScatterCopies scatterKvFromScratch scatterPage
  rw [← Blocks.flatMap_blocks]
  refine flatMap_congr fun p _ => flatMap_congr fun t _ => ?_
  rw [hpage]
  rfl

end

section

variable (a : CrossNodeArgs) (base k v offset : ℕ)

lemma direct_pageBase (p : ℕ) :
    (a.direct base k v offset).pageBase p = packedPage (a.direct 0 k v 0) (base + offset) p := by
  show base + p * a.pageLayerBytes + offset = base + offset + p * (a.direct 0 k v 0).pageBytes
  rw [show (a.direct 0 k v 0).pageBytes = a.pageLayerBytes from rfl]
  omega

lemma donateCopies_direct : donateCopies (a.direct base k v offset) =
    kvGatherCopies (a.direct 0 k v 0) (base + offset) := by
  show (range a.numPages).flatMap (donatePage (a.direct base k v offset)) = _
  refine flatMap_congr fun p _ => ?_
  unfold donatePage fusedDonatePage gatherKvToScratch
  rw [direct_pageBase]
  rfl

lemma restoreCopies_direct : restoreCopies (a.direct base k v offset) =
    kvScatterCopies (a.direct 0 k v 0) (base + offset) := by
  show (range a.numPages).flatMap (restorePage (a.direct base k v offset)) = _
  refine flatMap_congr fun p _ => ?_
  unfold restorePage fusedCopyPage scatterKvFromScratch
  rw [direct_pageBase]
  rfl

end

/-! ## One long page -/

section

variable {page k v : ℕ} {slots : ℕ → ℤ} {n sb : ℕ}

lemma scatterPage_at (page k v : ℕ) (slots : ℕ → ℤ) {j : ℕ} (hj : j < n * (2 * sb)) :
    ∃ c ∈ scatterPage page k v slots n sb, ∃ i < c.len,
      page + j = c.src + i ∧ gatherSource k v slots sb j = c.dst + i := by
  obtain ⟨c, hc, i, hi, hpage, hsource⟩ := gatherPage_at page k v slots hj
  obtain ⟨t, ht, rfl | rfl⟩ := mem_gatherPage.mp hc
  · exact ⟨_, mem_scatterPage.mpr ⟨t, ht, .inl rfl⟩, i, hi, hpage, hsource⟩
  · exact ⟨_, mem_scatterPage.mpr ⟨t, ht, .inr rfl⟩, i, hi, hpage, hsource⟩

lemma gatherPage_writes_iff {x : ℕ} :
    Writes (gatherPage page k v slots n sb (2 * sb)) x ↔ page ≤ x ∧ x < page + n * (2 * sb) := by
  refine ⟨gatherPage_writes, fun ⟨hle, hlt⟩ => ?_⟩
  have hj : x - page < n * (2 * sb) := by omega
  obtain ⟨c, hc, i, hi, hpage, _⟩ := gatherPage_at page k v slots hj
  exact ⟨c, hc, by omega, by omega⟩

lemma scatterPage_reads_iff {x : ℕ} :
    Reads (scatterPage page k v slots n sb) x ↔ page ≤ x ∧ x < page + n * (2 * sb) := by
  refine ⟨scatterPage_reads, fun ⟨hle, hlt⟩ => ?_⟩
  have hj : x - page < n * (2 * sb) := by omega
  obtain ⟨c, hc, i, hi, hpage, _⟩ := scatterPage_at page k v slots hj
  exact ⟨c, hc, by omega, by omega⟩

lemma scatterPage_exclusive (huniq : ∀ i < n, ∀ j < n, (slots i).toNat = (slots j).toNat → i = j)
    (hkv : ∀ i < n, ∀ j < n, ∀ x, k + (slots i).toNat * sb ≤ x ∧ x < k + (slots i).toNat * sb + sb →
      ¬ (v + (slots j).toNat * sb ≤ x ∧ x < v + (slots j).toNat * sb + sb)) :
    Exclusive (scatterPage page k v slots n sb) := by
  refine pairwise_flatMap.mpr ⟨fun t ht => ?_, ?_⟩
  · have ht := mem_range.mp ht
    exact pairwise_pair.mpr fun x hx hy => hkv t ht t ht x hx hy
  · refine pairwise_lt_range.imp_of_mem fun {t u} ht hu htu c hc d hd x hx hy => ?_
    have ht := mem_range.mp ht
    have hu := mem_range.mp hu
    have hne : (slots t).toNat ≠ (slots u).toNat := fun he => htu.ne (huniq t ht u hu he)
    simp only [mem_cons, not_mem_nil, or_false] at hc hd
    rcases hc with rfl | rfl <;> rcases hd with rfl | rfl
    · exact slot_ranges_disjoint hne hx hy
    · exact hkv t ht u hu x hx hy
    · exact hkv u hu t ht x hy hx
    · exact slot_ranges_disjoint hne hx hy

end

/-! ## The halves of a cross-node transfer -/

namespace CrossNodeArgs

variable (a : CrossNodeArgs)

def tokens : ℕ := a.numPages * a.pageSize

/-- The K/V byte at position `j` of the packed layer. -/
def packedSource (k v j : ℕ) : ℕ := gatherSource k v a.slot a.slotBytes j

/-- K or V bytes of some slot of the map. -/
def InSlots (k v x : ℕ) : Prop := (a.direct 0 k v 0).InSlots x

/-- What the slot checks of both directions promise. -/
def SlotsInRange : Prop := ∀ i < a.tokens, 0 ≤ a.slot i ∧ (a.slot i).toNat < a.numSlots

def UniqueSlots : Prop := ∀ i < a.tokens, ∀ j < a.tokens, a.slot i = a.slot j → i = j

/-- The caches of `numSlots` slots at `k` and at `v` share no byte. -/
def CachesApart (k v : ℕ) : Prop :=
  k + a.numSlots * a.slotBytes ≤ v ∨ v + a.numSlots * a.slotBytes ≤ k

lemma totalBytes_eq : a.totalBytes = a.tokens * (2 * a.slotBytes) := by
  unfold totalBytes pageLayerBytes tokens tokenStride tokenStrideBytes slotBytes
  ring

variable {a}

lemma validateUniqueSlots_passed (h : a.validateUniqueSlots = .ok ()) : a.SlotsInRange ∧ a.UniqueSlots := by
  obtain ⟨hall, huniq⟩ := slotRounds_accepted h
  refine ⟨fun i hi => ⟨(hall i hi).1, ?_⟩, huniq⟩
  have hbound := (hall i hi).2
  by_contra hge
  simp [expects, hge] at hbound

end CrossNodeArgs

section

variable {a : CrossNodeArgs} {base k v offset : ℕ}

lemma kvGatherCopies_plan : kvGatherCopies (a.direct 0 k v 0) base =
    gatherPage base k v a.slot a.tokens a.slotBytes (2 * a.slotBytes) := kvGatherCopies_eq _ _

lemma kvScatterCopies_plan : kvScatterCopies (a.direct 0 k v 0) base =
    scatterPage base k v a.slot a.tokens a.slotBytes := kvScatterCopies_eq _ _

variable {x : ℕ}

lemma donateCopies_writes_iff : Writes (donateCopies (a.direct base k v offset)) x ↔
    base + offset ≤ x ∧ x < base + offset + a.totalBytes := by
  rw [donateCopies_direct, kvGatherCopies_plan, a.totalBytes_eq]
  exact gatherPage_writes_iff

lemma restoreCopies_reads_iff : Reads (restoreCopies (a.direct base k v offset)) x ↔
    base + offset ≤ x ∧ x < base + offset + a.totalBytes := by
  rw [restoreCopies_direct, kvScatterCopies_plan, a.totalBytes_eq]
  exact scatterPage_reads_iff

lemma kvGatherInto_value (m : Mem UInt8) {j : ℕ} (hj : j < a.totalBytes) :
    kvGatherInto a k v m j = m (a.packedSource k v j) := by
  rw [a.totalBytes_eq] at hj
  obtain ⟨c, hc, i, hi, hpage, hsource⟩ := gatherPage_at 0 k v a.slot hj
  unfold kvGatherInto CrossNodeArgs.packedSource
  rw [kvGatherCopies_plan, hsource, show j = c.dst + i by omega]
  exact runBetween_of_exclusive gatherPage_exclusive _ hc hi

/-- A donation at a pointer: the layer there takes the bytes of the slots. -/
lemma donateCopies_value {m : Mem UInt8}
    (hsep : ∀ x, a.InSlots k v x → ¬ (base + offset ≤ x ∧ x < base + offset + a.totalBytes))
    {j : ℕ} (hj : j < a.totalBytes) : runAll (donateCopies (a.direct base k v offset)) m (base + offset + j) =
      m (a.packedSource k v j) := by
  rw [donateCopies_direct, kvGatherCopies_plan]
  refine gatherPage_value (fun x hx => ?_) (by rwa [a.totalBytes_eq] at hj)
  have hsep := hsep x (gatherPage_reads hx)
  rwa [a.totalBytes_eq] at hsep

section

variable (hrange : a.SlotsInRange) (huniq : a.UniqueSlots) (hkv : a.CachesApart k v)

include hrange huniq hkv

lemma kvScatterCopies_exclusive : Exclusive (kvScatterCopies (a.direct 0 k v 0) base) := by
  rw [kvScatterCopies_plan]
  refine scatterPage_exclusive (fun i hi j hj he => ?_) (fun i hi j hj x hx hy => ?_)
  · have hi0 := (hrange i hi).1
    have hj0 := (hrange j hj).1
    exact huniq i hi j hj (by omega)
  · have hik : ((a.slot i).toNat + 1) * a.slotBytes ≤ a.numSlots * a.slotBytes := Nat.mul_le_mul_right _ (hrange i hi).2
    have hjv : ((a.slot j).toNat + 1) * a.slotBytes ≤ a.numSlots * a.slotBytes := Nat.mul_le_mul_right _ (hrange j hj).2
    rw [add_one_mul] at hik hjv
    rcases hkv with hkv | hkv <;> omega

lemma kvScatterFrom_value (buf m : Mem UInt8) {j : ℕ} (hj : j < a.totalBytes) :
    kvScatterFrom a k v buf m (a.packedSource k v j) = buf j := by
  have hexcl : Exclusive (kvScatterCopies (a.direct 0 k v 0) 0) := kvScatterCopies_exclusive hrange huniq hkv
  rw [a.totalBytes_eq] at hj
  obtain ⟨c, hc, i, hi, hpage, hsource⟩ := scatterPage_at 0 k v a.slot hj
  unfold kvScatterFrom CrossNodeArgs.packedSource
  rw [hsource, show j = c.src + i by omega]
  rw [← kvScatterCopies_plan] at hc
  exact runBetween_of_exclusive hexcl _ hc hi

/-- A restore from a pointer: the slots take the bytes of the layer there. -/
lemma restoreCopies_value {m : Mem UInt8}
    (hsep : ∀ x, a.InSlots k v x → ¬ (base + offset ≤ x ∧ x < base + offset + a.totalBytes))
    {j : ℕ} (hj : j < a.totalBytes) : runAll (restoreCopies (a.direct base k v offset)) m (a.packedSource k v j) =
      m (base + offset + j) := by
  have hexcl : Exclusive (kvScatterCopies (a.direct 0 k v 0) (base + offset)) :=
    kvScatterCopies_exclusive hrange huniq hkv
  have hj' := hj
  rw [a.totalBytes_eq] at hj'
  obtain ⟨c, hc, i, hi, hpage, hsource⟩ := scatterPage_at _ k v a.slot hj'
  have hclean : Clean (restoreCopies (a.direct base k v offset)) := by
    intro x hr hw
    refine hsep x ?_ (restoreCopies_reads_iff.mp hr)
    obtain ⟨t, ht, hx⟩ := restoreCopies_writes hw
    exact ⟨t, ht, hx⟩
  unfold CrossNodeArgs.packedSource
  rw [hsource, hpage]
  rw [restoreCopies_direct] at hclean ⊢
  refine runAll_of_clean hclean hexcl m ?_ hi
  rw [kvScatterCopies_plan]
  exact hc

end

lemma kvScatterFrom_frame (buf m : Mem UInt8) (hx : ¬ a.InSlots k v x) : kvScatterFrom a k v buf m x = m x := by
  refine runBetween_frame (fun hw => hx ?_) m
  rw [kvScatterCopies_plan] at hw
  obtain ⟨t, ht, hw⟩ := scatterPage_writes hw
  exact ⟨t, ht, hw⟩

end

/-- One slot, one page, one token: a layer of four bytes. -/
def oneToken : CrossNodeArgs where
  numSlots := 1
  numKvHeads := 1
  headDim := 1
  elemSize := 2
  slotIds := some fun _ => 0
  numPages := 1
  pageSize := 1

lemma oneToken_inSlots {k v x : ℕ} (hx : oneToken.InSlots k v x) : (k ≤ x ∧ x < k + 2) ∨ (v ≤ x ∧ x < v + 2) := by
  obtain ⟨t, _, hx⟩ := hx
  change (k + 0 * 2 ≤ x ∧ x < k + 0 * 2 + 2) ∨ (v + 0 * 2 ≤ x ∧ x < v + 0 * 2 + 2) at hx
  simpa using hx

end VKernels.Comm
