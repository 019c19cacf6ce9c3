import VKernels.Comm.KvDonate
import VKernels.Comm.KvRestore

/-!
# Device slots of 64 bits

The `int64` device-slot constructors of `comm/p2p_kv_donate.cpp` and `comm/p2p_kv_restore.cpp`
against `kv_gather_layer` and `kv_scatter_layer`, all in the arithmetic of `size_t`.

* `perSlotBytesWord`, `tokenStrideWord` — the size products as computed.

## Results

* `toSizeT_mul_eq_iff` — when two slots lie at one offset.
* `slot_plan_exact_iff` — of every accepted plan with slots in range: products and copies are those of
  the layer calls exactly when `SlotPlanFits`.
-/

namespace VKernels.Comm

open ByteCopies

/-! ## Sizes -/

/-- `static_cast<std::size_t>` of a signed value. -/
def toSizeT (x : ℤ) : ℕ := (x % 2 ^ 64).toNat

def perSlotBytesWord (numKvHeads headDim elemSize : ℕ) : ℕ := wrap (wrap (numKvHeads * headDim) * elemSize)

def tokenStrideWord (numKvHeads headDim elemSize : ℕ) : ℕ :=
  wrap (2 * perSlotBytesWord numKvHeads headDim elemSize)

/-! ## Tokens -/

/-- The round of `fused_donate_page` and of `gather_page`. -/
def gatherTokenWord (page k v : ℕ) (slot : ℤ) (t slotBytes tokenStride : ℕ) : List Copy :=
  let srcOff := wrap (toSizeT slot * slotBytes)
  let dstOff := wrap (t * tokenStride)
  [⟨wrap (page + dstOff), wrap (k + srcOff), slotBytes⟩,
    ⟨wrap (page + dstOff + slotBytes), wrap (v + srcOff), slotBytes⟩]

/-- The round of `fused_copy_page` and of `scatter_page`. -/
def scatterTokenWord (page k v : ℕ) (slot : ℤ) (t slotBytes tokenStride : ℕ) : List Copy :=
  let dstOff := wrap (toSizeT slot * slotBytes)
  let srcOff := wrap (t * tokenStride)
  [⟨wrap (k + dstOff), wrap (page + srcOff), slotBytes⟩,
    ⟨wrap (v + dstOff), wrap (page + srcOff + slotBytes), slotBytes⟩]

namespace KvArgs

variable (a : KvArgs)

/-- Slot `t` of `page_slots(slot_ids, p, page_size, true)`, a pointer `p * page_size * 8` bytes on. -/
def layerSlot (p t : ℕ) : ℤ := a.slot (wrap (wrap (p * a.pageSize) * 8) / 8 + t)

/-- The copies of a token of `kv_gather_layer`. -/
def gatherLayerToken (p t page k v : ℕ) : List Copy :=
  gatherTokenWord page k v (a.layerSlot p t) t (perSlotBytesWord a.numKvHeads a.headDim a.elemSize)
    (tokenStrideWord a.numKvHeads a.headDim a.elemSize)

/-- The copies of a token of `kv_scatter_layer`. -/
def scatterLayerToken (p t page k v : ℕ) : List Copy :=
  scatterTokenWord page k v (a.layerSlot p t) t (perSlotBytesWord a.numKvHeads a.headDim a.elemSize)
    (tokenStrideWord a.numKvHeads a.headDim a.elemSize)

def SlotsBelow (numSlots : ℕ) : Prop :=
  ∀ i < a.numPages * a.pageSize, 0 ≤ a.slot i ∧ a.slot i < numSlots ∧ a.slot i < 2 ^ 63

end KvArgs

/-! ## Plans -/

/-- `owned_slots_.resize(n)` throws beyond `max_size()`. -/
def resizeSlots (n : ℕ) : Except String Unit :=
  if 2 ^ 61 ≤ n then .error "vector::_M_default_append" else .ok ()

namespace KvPlan

/-- The owned array of the `int64` constructors. -/
def narrowSlotsWord (a : KvArgs) : Arr ℤ :=
  if 0 < wrap (a.numPages * a.pageSize) then some fun i => toInt32 (a.slot i) else none

/-- The member initialisers. -/
def int64Fields (numSlots : ℕ) (a : KvArgs) : KvPlan where
  numSlots := numSlots
  numKvHeads := a.numKvHeads
  headDim := a.headDim
  elemSize := a.elemSize
  pageSize := a.pageSize
  numPages := a.numPages
  slotBytes := perSlotBytesWord a.numKvHeads a.headDim a.elemSize
  tokenStride := tokenStrideWord a.numKvHeads a.headDim a.elemSize
  totalBytes := 0
  slotIds := narrowSlotsWord a
  peerBases := fun _ => 0

/-- Slot `t` of `slot_ids_ + p * page_size`. -/
def pageSlotsWord (self : KvPlan) (p t : ℕ) : ℤ :=
  (self.slotIds.getD fun _ => 0) (wrap (p * self.pageSize) + t)

end KvPlan

namespace P2PKvDonatePlan

def int64Fields (numSlots : ℕ) (a : KvArgs) : P2PKvDonatePlan where
  toKvPlan := KvPlan.int64Fields numSlots a
  layerBytes := wrap (a.pageSize * tokenStrideWord a.numKvHeads a.headDim a.elemSize)
  scratchBytes := 0

/-- The last statements of the constructor. -/
def ownMetadataWord (self : P2PKvDonatePlan) (a : KvArgs) : P2PKvDonatePlan :=
  { self with
    peerBases := a.peer
    totalBytes := wrap (self.numPages * self.layerBytes)
    scratchBytes := wrap (self.numPages * self.layerBytes) }

/-- The `int64` constructor. -/
def constructInt64 (numSlots : ℕ) (a : KvArgs) : Except String P2PKvDonatePlan := do
  resizeSlots (wrap (a.numPages * a.pageSize))
  let self := int64Fields numSlots a
  constructPlan (self.validateShape a.peerPtrs) (.ok ()) a.numPages self (self.ownMetadataWord a)

/-- The copies of a token of `execute`. -/
def tokenWord (self : P2PKvDonatePlan) (p t page k v : ℕ) : List Copy :=
  gatherTokenWord page k v (self.pageSlotsWord p t) t self.slotBytes self.tokenStride

end P2PKvDonatePlan

namespace P2PKvRestorePlan

def int64Fields (numSlots : ℕ) (a : KvArgs) : P2PKvRestorePlan where
  toKvPlan := KvPlan.int64Fields numSlots a

/-- The last statements of the constructor. -/
def ownMetadataWord (self : P2PKvRestorePlan) (a : KvArgs) : P2PKvRestorePlan :=
  { self with
    peerBases := a.peer
    totalBytes := wrap (wrap (self.numPages * self.pageSize) * self.tokenStride) }

/-- The `int64` constructor. -/
def constructInt64 (numSlots : ℕ) (a : KvArgs) : Except String P2PKvRestorePlan := do
  resizeSlots (wrap (a.numPages * a.pageSize))
  let self := int64Fields numSlots a
  constructPlan (self.validateShape a.peerPtrs) (.ok ()) a.numPages self (self.ownMetadataWord a)

/-- The copies of a token of `execute`; the token stride is computed again. -/
def tokenWord (self : P2PKvRestorePlan) (p t page k v : ℕ) : List Copy :=
  scatterTokenWord page k v (self.pageSlotsWord p t) t self.slotBytes (wrap (2 * self.slotBytes))

end P2PKvRestorePlan

/-! ## What is promised -/

open P2PKvDonatePlan (constructInt64 int64Fields)

/-- The size products of a plan did not wrap. -/
structure KvPlan.SizesExact (plan : KvPlan) (a : KvArgs) : Prop where
  tokens : wrap (a.numPages * a.pageSize) = a.numPages * a.pageSize
  slotBytes : plan.slotBytes = a.slotBytes
  tokenStride : plan.tokenStride = a.tokenStride
  pageBytes : wrap (a.pageSize * plan.tokenStride) = a.pageBytes
  totalBytes : plan.totalBytes = a.numPages * a.pageBytes

/-- Sizes that did not wrap, and the copies of `kv_gather_layer`, token by token. -/
structure P2PKvDonatePlan.Exact (plan : P2PKvDonatePlan) (a : KvArgs) : Prop where
  sizes : plan.toKvPlan.SizesExact a
  layerBytes : plan.layerBytes = a.pageBytes
  scratchBytes : plan.scratchBytes = a.numPages * a.pageBytes
  tokens : ∀ p < a.numPages, ∀ t < a.pageSize, ∀ page k v,
    plan.tokenWord p t page k v = a.gatherLayerToken p t page k v

/-- Sizes that did not wrap, and the copies of `kv_scatter_layer`, token by token. -/
structure P2PKvRestorePlan.Exact (plan : P2PKvRestorePlan) (a : KvArgs) : Prop where
  sizes : plan.toKvPlan.SizesExact a
  tokens : ∀ p < a.numPages, ∀ t < a.pageSize, ∀ page k v,
    plan.tokenWord p t page k v = a.scatterLayerToken p t page k v

/-- The sizes are those of a `size_t`, and each slot is below `2 ^ 31` or narrowed by a multiple of
    the address space. -/
structure SlotPlanFits (a : KvArgs) : Prop where
  token : a.tokenStride < 2 ^ 64
  page : a.pageBytes < 2 ^ 64
  total : a.numPages * a.pageBytes < 2 ^ 64
  slots : ∀ i < a.numPages * a.pageSize,
    a.slot i < 2 ^ 31 ∨ (2 : ℤ) ^ 64 ∣ (a.slot i - toInt32 (a.slot i)) * a.slotBytes

/-! ## Slots at one offset -/

lemma toSizeT_mul_eq_iff (s s' : ℤ) (n : ℕ) :
    wrap (toSizeT s * n) = wrap (toSizeT s' * n) ↔ (2 : ℤ) ^ 64 ∣ (s - s') * n := by
  have hcast : ∀ x : ℤ, ((wrap (toSizeT x * n) : ℕ) : ℤ) = (x * n) % 2 ^ 64 := by
    intro x
    have hx : ((toSizeT x : ℕ) : ℤ) = x % 2 ^ 64 :=
      Int.toNat_of_nonneg (Int.emod_nonneg x (by decide))
    unfold wrap
    push_cast
    rw [hx]
    exact (Int.mod_modEq x _).mul_right n
  rw [← Int.natCast_inj, hcast, hcast, sub_mul, Int.emod_eq_emod_iff_emod_sub_eq_zero]
  exact Int.dvd_iff_emod_eq_zero.symm

lemma gatherTokenWord_eq_iff {s s' : ℤ} {t slotBytes tokenStride : ℕ} :
    (∀ page k v, gatherTokenWord page k v s t slotBytes tokenStride =
      gatherTokenWord page k v s' t slotBytes tokenStride) ↔ (2 : ℤ) ^ 64 ∣ (s' - s) * slotBytes := by
  rw [← toSizeT_mul_eq_iff]
  constructor
  · intro h
    have h0 := h 0 0 0
    simp only [gatherTokenWord, List.cons.injEq, Copy.mk.injEq, zero_add] at h0
    have hsrc := h0.1.2.1
    unfold wrap at hsrc ⊢
    rw [Nat.mod_mod, Nat.mod_mod] at hsrc
    exact hsrc.symm
  · intro h _ k v
    unfold gatherTokenWord
    rw [h]

lemma scatterTokenWord_eq_iff {s s' : ℤ} {t slotBytes tokenStride : ℕ} :
    (∀ page k v, scatterTokenWord page k v s t slotBytes tokenStride =
      scatterTokenWord page k v s' t slotBytes tokenStride) ↔ (2 : ℤ) ^ 64 ∣ (s' - s) * slotBytes := by
  rw [← toSizeT_mul_eq_iff]
  constructor
  · intro h
    have h0 := h 0 0 0
    simp only [scatterTokenWord, List.cons.injEq, Copy.mk.injEq, zero_add] at h0
    have hdst := h0.1.1
    unfold wrap at hdst ⊢
    rw [Nat.mod_mod, Nat.mod_mod] at hdst
    exact hdst.symm
  · intro h _ k v
    unfold scatterTokenWord
    rw [h]

/-! ## Accepted plans -/

section

variable {a : KvArgs} {numSlots : ℕ}

/-- The geometry that the shape check lets through. -/
structure KvArgs.Shaped (a : KvArgs) : Prop where
  elem : a.elemSize = 2
  positive : a.numPages = 0 ∨ 0 < a.pageSize ∧ 0 < a.numKvHeads ∧ 0 < a.headDim ∧
    0 < wrap (a.numPages * a.pageSize)

lemma KvPlan.validateShape_shaped {peersName : String}
    (h : (KvPlan.int64Fields numSlots a).validateShape peersName a.peerPtrs = .ok ()) : a.Shaped := by
  obtain ⟨_, h⟩ := expects_ok.mp h
  simp only [expects_ok] at h
  obtain ⟨hps, hheads, hdim, helem, h⟩ := h
  refine ⟨helem, ?_⟩
  by_cases hpages : a.numPages = 0
  · exact .inl hpages
  · rw [if_neg (show ¬ (KvPlan.int64Fields numSlots a).numPages = 0 from hpages)] at h
    obtain ⟨hslots, _⟩ := expects_ok.mp h
    refine .inr ⟨hps.resolve_right hpages, hheads.resolve_right hpages, hdim.resolve_right hpages, ?_⟩
    by_contra hzero
    change (KvPlan.narrowSlotsWord a).isSome at hslots
    unfold KvPlan.narrowSlotsWord at hslots
    rw [if_neg hzero] at hslots
    cases hslots

/-- What either constructor has checked, and what it returns. -/
lemma constructInt64_ok {P : Type} {peersName : String} {empty owned self : P}
    (h : (resizeSlots (wrap (a.numPages * a.pageSize)) >>= fun _ =>
      constructPlan ((KvPlan.int64Fields numSlots a).validateShape peersName a.peerPtrs) (.ok ()) a.numPages
        empty owned) = .ok self) :
    wrap (a.numPages * a.pageSize) < 2 ^ 61 ∧ a.Shaped ∧ self = if a.numPages = 0 then empty else owned := by
  obtain ⟨_, hresize, h⟩ := bind_ok.mp h
  obtain ⟨_, hshape, h⟩ := bind_ok.mp h
  refine ⟨?_, KvPlan.validateShape_shaped hshape, ?_⟩
  · by_contra hbig
    rw [resizeSlots, if_pos (by omega)] at hresize
    cases hresize
  · by_cases hpages : a.numPages = 0
    · rw [if_pos hpages] at h ⊢
      cases h
      rfl
    · rw [if_neg hpages] at h ⊢
      cases h
      rfl

/-! ## Sizes that fit -/

lemma tokenStrideWord_eq (htoken : a.tokenStride < 2 ^ 64) :
    perSlotBytesWord a.numKvHeads a.headDim a.elemSize = a.slotBytes ∧
      tokenStrideWord a.numKvHeads a.headDim a.elemSize = a.tokenStride := by
  have htwo : a.tokenStride = 2 * a.slotBytes := rfl
  have hslot : perSlotBytesWord a.numKvHeads a.headDim a.elemSize = wrap a.slotBytes := by
    exact Nat.mod_mul_mod _ _ _
  have hbytes : perSlotBytesWord a.numKvHeads a.headDim a.elemSize = a.slotBytes := by
    rw [hslot, wrap_of_lt (by omega)]
  refine ⟨hbytes, ?_⟩
  unfold tokenStrideWord
  rw [hbytes]
  exact wrap_of_lt (by omega)

lemma wrap_lt (n : ℕ) : wrap n < 2 ^ 64 := Nat.mod_lt n (by decide)

lemma tokens_fit (hshape : a.Shaped) (htotal : a.numPages * a.pageBytes < 2 ^ 64) :
    a.numPages * a.pageSize < 2 ^ 64 := by
  rcases hshape.positive with hpages | ⟨_, hheads, hdim, _⟩
  · rw [hpages, Nat.zero_mul]
    decide
  · have hstride : 1 ≤ a.tokenStride := by
      have h1 : 1 ≤ a.numKvHeads * a.headDim := mul_pos hheads hdim
      show 1 ≤ 2 * (a.numKvHeads * a.headDim * a.elemSize)
      rw [hshape.elem]
      omega
    calc a.numPages * a.pageSize ≤ a.numPages * (a.pageSize * a.tokenStride) :=
          Nat.mul_le_mul_left _ (Nat.le_mul_of_pos_right _ hstride)
      _ < 2 ^ 64 := htotal

lemma slots_at (hfit : a.numPages * a.pageSize < 2 ^ 64) (hresize : wrap (a.numPages * a.pageSize) < 2 ^ 61)
    {p t : ℕ} (hp : p < a.numPages) (ht : t < a.pageSize) :
    (KvPlan.int64Fields numSlots a).pageSlotsWord p t = toInt32 (a.slot (p * a.pageSize + t)) ∧
      a.layerSlot p t = a.slot (p * a.pageSize + t) := by
  have hlt := KvArgs.token_lt hp ht
  rw [wrap_of_lt hfit] at hresize
  have hpage : wrap (p * a.pageSize) = p * a.pageSize := wrap_of_lt (by omega)
  constructor
  · show ((KvPlan.narrowSlotsWord a).getD fun _ => 0) (wrap (p * a.pageSize) + t) = _
    unfold KvPlan.narrowSlotsWord
    rw [hpage, wrap_of_lt hfit, if_pos (by omega)]
    rfl
  · unfold KvArgs.layerSlot
    rw [hpage, wrap_of_lt (by omega), Nat.mul_div_cancel _ (by decide)]

lemma narrowed_dvd {s : ℤ} (h0 : 0 ≤ s) (n : ℕ) (h : s < 2 ^ 31 ∨ (2 : ℤ) ^ 64 ∣ (s - toInt32 s) * n) :
    (2 : ℤ) ^ 64 ∣ (s - toInt32 s) * n := by
  rcases h with hlt | hdvd
  · rw [toInt32_of_lt h0 hlt, sub_self, zero_mul]
    exact dvd_zero _
  · exact hdvd

lemma narrowed_tokens_iff (hrange : a.SlotsBelow numSlots) (hfit : a.numPages * a.pageSize < 2 ^ 64)
    (hresize : wrap (a.numPages * a.pageSize) < 2 ^ 61) : (∀ p < a.numPages, ∀ t < a.pageSize, (2 : ℤ) ^ 64 ∣
      (a.layerSlot p t - (KvPlan.int64Fields numSlots a).pageSlotsWord p t) * a.slotBytes) ↔
      ∀ i < a.numPages * a.pageSize,
        a.slot i < 2 ^ 31 ∨ (2 : ℤ) ^ 64 ∣ (a.slot i - toInt32 (a.slot i)) * a.slotBytes := by
  constructor
  · intro h i hi
    have hps : 0 < a.pageSize := by
      rcases eq_zero_or_pos a.pageSize with h0 | hpos
      · rw [h0, Nat.mul_zero] at hi
        omega
      · exact hpos
    have hp : i / a.pageSize < a.numPages := Nat.div_lt_of_lt_mul (by rwa [mul_comm])
    have ht : i % a.pageSize < a.pageSize := Nat.mod_lt i hps
    have hdvd := h _ hp _ ht
    obtain ⟨hplan, hlayer⟩ := @slots_at a numSlots hfit hresize _ _ hp ht
    rw [hplan, hlayer, mul_comm (i / a.pageSize), Nat.div_add_mod] at hdvd
    exact .inr hdvd
  · intro h p hp t ht
    have hlt := KvArgs.token_lt hp ht
    obtain ⟨hplan, hlayer⟩ := @slots_at a numSlots hfit hresize _ _ hp ht
    rw [hplan, hlayer]
    exact narrowed_dvd (hrange _ hlt).1 _ (h _ hlt)

/-- The sizes of a plan and the offsets of its slots are exact together. -/
lemma sizes_slots_iff (hrange : a.SlotsBelow numSlots) (hresize : wrap (a.numPages * a.pageSize) < 2 ^ 61)
    (hshape : a.Shaped) (plan : KvPlan) (hslot : plan.slotBytes = perSlotBytesWord a.numKvHeads a.headDim a.elemSize)
    (hstride : plan.tokenStride = tokenStrideWord a.numKvHeads a.headDim a.elemSize) (hlt : plan.totalBytes < 2 ^ 64)
    (htotal : SlotPlanFits a → plan.tokenStride = a.tokenStride → plan.totalBytes = a.numPages * a.pageBytes) :
    (plan.SizesExact a ∧ ∀ p < a.numPages, ∀ t < a.pageSize, (2 : ℤ) ^ 64 ∣ (a.layerSlot p t -
      (KvPlan.int64Fields numSlots a).pageSlotsWord p t) * perSlotBytesWord a.numKvHeads a.headDim a.elemSize) ↔
      SlotPlanFits a := by
  constructor
  · rintro ⟨hsizes, hslots⟩
    have hfit : a.numPages * a.pageBytes < 2 ^ 64 := hsizes.totalBytes ▸ hlt
    refine ⟨by rw [← hsizes.tokenStride, hstride]; exact wrap_lt _, by rw [← hsizes.pageBytes]; exact wrap_lt _, hfit,
      (narrowed_tokens_iff hrange (tokens_fit hshape hfit) hresize).mp fun p hp t ht => ?_⟩
    rw [← hsizes.slotBytes, hslot]
    exact hslots p hp t ht
  · intro hfits
    obtain ⟨hbytes, hword⟩ := tokenStrideWord_eq hfits.token
    have htokens := tokens_fit hshape hfits.total
    refine ⟨⟨wrap_of_lt htokens, hslot.trans hbytes, hstride.trans hword, ?_, htotal hfits (hstride.trans hword)⟩, ?_⟩
    · rw [hstride, hword]
      exact wrap_of_lt hfits.page
    · rw [hbytes]
      exact (narrowed_tokens_iff hrange htokens hresize).mpr hfits.slots

/-! ## The plans and the layer calls -/

section

lemma donate_exact_iff (hrange : a.SlotsBelow numSlots) {self : P2PKvDonatePlan}
    (h : constructInt64 numSlots a = .ok self) : self.Exact a ↔ SlotPlanFits a := by
  obtain ⟨hresize, hshape, hself⟩ := constructInt64_ok h
  have hlayer : self.layerBytes = wrap (a.pageSize * self.tokenStride) := by rw [hself]; split <;> rfl
  have htotal : self.totalBytes = wrap (a.numPages * self.layerBytes) := by
    rw [hself]
    split
    · rename_i hpages
      rw [hpages, Nat.zero_mul]
      rfl
    · rfl
  have hscratch : self.scratchBytes = self.totalBytes := by rw [hself]; split <;> rfl
  have htoken (p t page k v : ℕ) : self.tokenWord p t page k v =
      (int64Fields numSlots a).tokenWord p t page k v := by rw [hself]; split <;> rfl
  rw [← sizes_slots_iff hrange hresize hshape self.toKvPlan (by rw [hself]; split <;> rfl)
    (by rw [hself]; split <;> rfl) (by rw [htotal]; exact wrap_lt _) fun hfits hstride => ?_]
  · constructor
    · intro hexact
      refine ⟨hexact.sizes, fun p hp t ht => gatherTokenWord_eq_iff.mp (?_ : ∀ page k v,
        (int64Fields numSlots a).tokenWord p t page k v = a.gatherLayerToken p t page k v)⟩
      exact fun page k v => (htoken p t page k v).symm.trans (hexact.tokens p hp t ht page k v)
    · rintro ⟨hsizes, hslots⟩
      refine ⟨hsizes, hlayer.trans hsizes.pageBytes, hscratch.trans hsizes.totalBytes, fun p hp t ht page k v => ?_⟩
      exact (htoken p t page k v).trans (gatherTokenWord_eq_iff.mpr (hslots p hp t ht) page k v)
  · rw [htotal, hlayer, hstride, show a.pageSize * a.tokenStride = a.pageBytes from rfl, wrap_of_lt hfits.page]
    exact wrap_of_lt hfits.total

variable {self : P2PKvRestorePlan}

lemma restore_exact_iff (hrange : a.SlotsBelow numSlots)
    (h : P2PKvRestorePlan.constructInt64 numSlots a = .ok self) : self.Exact a ↔ SlotPlanFits a := by
  obtain ⟨hresize, hshape, hself⟩ := constructInt64_ok h
  have htotal : self.totalBytes = wrap (wrap (a.numPages * a.pageSize) * self.tokenStride) := by
    rw [hself]
    split
    · rename_i hpages
      rw [hpages, Nat.zero_mul]
      exact (congrArg wrap (Nat.zero_mul _)).symm
    · rfl
  have htoken (p t page k v : ℕ) : self.tokenWord p t page k v =
      (P2PKvRestorePlan.int64Fields numSlots a).tokenWord p t page k v := by rw [hself]; split <;> rfl
  rw [← sizes_slots_iff hrange hresize hshape self.toKvPlan (by rw [hself]; split <;> rfl)
    (by rw [hself]; split <;> rfl) (by rw [htotal]; exact wrap_lt _) fun hfits hstride => ?_]
  · constructor
    · intro hexact
      refine ⟨hexact.sizes, fun p hp t ht => scatterTokenWord_eq_iff.mp (?_ : ∀ page k v,
        (P2PKvRestorePlan.int64Fields numSlots a).tokenWord p t page k v = a.scatterLayerToken p t page k v)⟩
      exact fun page k v => (htoken p t page k v).symm.trans (hexact.tokens p hp t ht page k v)
    · rintro ⟨hsizes, hslots⟩
      refine ⟨hsizes, fun p hp t ht page k v => ?_⟩
      exact (htoken p t page k v).trans (scatterTokenWord_eq_iff.mpr (hslots p hp t ht) page k v)
  · rw [htotal, hstride, wrap_of_lt (tokens_fit hshape hfits.total), mul_assoc]
    exact wrap_of_lt hfits.total

/-- **Device slots of 64 bits.**  For every geometry a constructor accepts and slots in range, no size
    wraps and every token is copied as the layer call copies it, exactly when `SlotPlanFits`. -/
theorem slot_plan_exact_iff (hrange : a.SlotsBelow numSlots) :
    (∀ self, constructInt64 numSlots a = .ok self → (self.Exact a ↔ SlotPlanFits a)) ∧
      ∀ self, P2PKvRestorePlan.constructInt64 numSlots a = .ok self → (self.Exact a ↔ SlotPlanFits a) :=
  ⟨fun _ => donate_exact_iff hrange, fun _ => restore_exact_iff hrange⟩

end

end

/-! ## One token -/

/-- One page of one token, at a slot. -/
def slotToken (slot : ℤ) : KvArgs := ⟨4096, 8192, some fun _ => slot, some fun _ => 16384, none, 1, 1, 1, 1, 2⟩

theorem slot_plan_exact_three : ∃ self, constructInt64 4 (slotToken 3) = .ok self ∧
    self.Exact (slotToken 3) := by
  have hrange : (slotToken 3).SlotsBelow 4 := by
    intro i _
    show (0 : ℤ) ≤ 3 ∧ (3 : ℤ) < 4 ∧ (3 : ℤ) < 2 ^ 63
    decide
  refine ⟨_, rfl, ((slot_plan_exact_iff hrange).1 _ rfl).mpr
    ⟨by decide, by decide, by decide, fun i _ => .inl ?_⟩⟩
  show (3 : ℤ) < 2 ^ 31
  decide

/-- Slot `2 ^ 31` of a cache of that many and one more becomes slot `-2 ^ 31`. -/
theorem slot_plan_narrowed : ∃ self, constructInt64 (2 ^ 31 + 1) (slotToken (2 ^ 31)) = .ok self ∧
    ¬ self.Exact (slotToken (2 ^ 31)) := by
  refine ⟨_, rfl, fun h => ?_⟩
  have htoken := h.tokens 0 (by decide) 0 (by decide) 0 0 0
  exact absurd htoken (by decide)

end VKernels.Comm
