import VKernels.Dsa.ResolveRows

/-!
# The kernel and the oracle

What one program leaves in the slices of its state is what the oracle returns for its request.

* `Selected` — what the selection pass has done after some positions; `selected_chunk`, `select_spec`.
* `protectedLanes_eq` — the bitmap finds the protected lanes of the oracle.
* `claimSlot_eq` — the reductions over lanes find the oracle's slot.
-/

namespace VKernels.Dsa

open VKernels.VectorLanes
open Function (update update_of_ne update_self)
open List

lemma le_nextPowerOf2 (n : ℕ) : n ≤ nextPowerOf2 n := by
  unfold nextPowerOf2
  split
  · assumption
  · have h : n - 1 < 2 ^ ((n - 1).log2 + 1) := Nat.lt_log2_self
    omega

section

variable (g : Geometry) (T : Tables) (request : ℤ)

lemma Geometry.h_le_blockH : g.h ≤ g.blockH := le_nextPowerOf2 g.h

lemma Geometry.blockH_pos : 0 < g.blockH := g.h_pos.trans_le g.h_le_blockH

/-! ## The selection pass -/

/-- The missed positions below `n`, in order. -/
def misses (n : ℕ) : List ℕ := (List.range n).filter (isMiss g T request)

variable {j n : ℕ} {st clock mi : ℤ} {s₀ : Selection} {s : Reference} {w : Walk}

lemma lt_of_valid (h : valid g T request j = true) : j < g.k := by
  simp only [valid, Bool.and_eq_true, decide_eq_true_eq] at h
  exact h.1.1

lemma lt_of_isMiss (h : isMiss g T request j = true) : j < g.k := by
  simp only [isMiss, Bool.and_eq_true] at h
  exact lt_of_valid g T request h.1

lemma lt_of_isRes (h : isRes g T request j = true) : j < g.k := by
  simp only [isRes, Bool.and_eq_true] at h
  exact lt_of_valid g T request h.1

lemma lt_of_isErr (h : isErr g T request j = true) : j < g.k := by
  simp only [isErr, Bool.and_eq_true, decide_eq_true_eq] at h
  exact h.1.1

/-- What the selection pass answers at a position, if anything. -/
def answer (j : ℕ) : Option ℤ :=
  if isRes g T request j then some (residentRow g T request j)
  else if j < g.k ∧ valid g T request j = false then some (-1)
  else none

lemma answer_eq {m : ℕ} (hn : ¬ j < n) (hm : j < n + m) (old : ℤ) :
    (if n ≤ j ∧ j < n + m ∧ (decide (j < g.k) && !valid g T request j) = true then -1
      else if n ≤ j ∧ j < n + m ∧ isRes g T request j = true then residentRow g T request j else old) =
      (answer g T request j).getD old := by
  have hn : n ≤ j := Nat.le_of_not_lt hn
  unfold answer
  by_cases hres : isRes g T request j = true
  · have hvalid : valid g T request j = true := by
      simp only [isRes, Bool.and_eq_true] at hres
      exact hres.1
    simp [hres, hvalid, hn, hm]
  · by_cases hbad : j < g.k ∧ valid g T request j = false
    · simp [hres, hbad, hn, hm]
    · rw [if_neg hres, if_neg hbad, if_neg, if_neg]
      · rfl
      · exact fun h => hres h.2.2
      · intro h
        simp only [Bool.and_eq_true, decide_eq_true_eq, Bool.not_eq_true'] at h
        exact hbad h.2.2

/-- After the positions below `n`. -/
structure Selected (st : ℤ) (n : ℕ) (s₀ s : Selection) : Prop where
  bitmap : ∀ a i, (s.bitmap a).getLsbD i = true ↔ (s₀.bitmap a).getLsbD i = true ∨
    ∃ j < n, valid g T request j = true ∧ st * g.words + token g T request j / 32 = a ∧
      (1#32 <<< (token g T request j % 32).toNat).getLsbD i = true
  output : ∀ j < n, s.output (st * g.k + (j : ℕ)) =
    (answer g T request j).getD (s₀.output (st * g.k + (j : ℕ)))
  frame : ∀ a, (∀ j < n, a ≠ st * g.k + (j : ℕ)) → s.output a = s₀.output a
  worklist : Holds s.worklist (st * g.k) ((misses g T request n).map fun j : ℕ => (j : ℤ))
  workcnt : s.workcnt = (misses g T request n).length
  residentCount : s.residentCount = (List.range n).countP (isRes g T request)
  errCount : s.errCount = (List.range n).countP (isErr g T request)

lemma misses_add (n m : ℕ) : misses g T request (n + m) = misses g T request n ++
      ((range m).filter fun l => isMiss g T request (n + l)).map (n + ·) :=
  filter_range_chunk _ n m

lemma countP_range_chunk (p : ℕ → Bool) (n m : ℕ) :
    (range (n + m)).countP p = (range n).countP p + (range m).countP fun l => p (n + l) := by
  rw [countP_eq_length_filter, filter_range_chunk, length_append, length_map,
    ← countP_eq_length_filter, ← countP_eq_length_filter]

lemma selected_chunk {c : ℕ} {s : Selection} (h : Selected g T request st (c * g.blockK) s₀ s) :
    Selected g T request st ((c + 1) * g.blockK) s₀ (selectChunk g T request st s c) := by
  rw [add_one_mul]
  refine ⟨?_, ?_, ?_, ?_, ?_, ?_, ?_⟩
  · intro a i
    rw [selectChunk, orLanes_bit, h.bitmap a i, or_assoc]
    refine or_congr_right ⟨?_, ?_⟩
    · rintro (⟨j, hj, hrest⟩ | ⟨l, hl, hrest⟩)
      · exact ⟨j, by omega, hrest⟩
      · exact ⟨c * g.blockK + l, by omega, hrest⟩
    · rintro ⟨j, hj, hrest⟩
      by_cases hjc : j < c * g.blockK
      · exact .inl ⟨j, hjc, hrest⟩
      · obtain ⟨l, rfl⟩ := Nat.exists_eq_add_of_le (Nat.le_of_not_lt hjc)
        exact .inr ⟨l, by omega, hrest⟩
  · intro j hj
    simp only [selectChunk]
    rw [storeLanes_at, storeLanes_at]
    by_cases hjc : j < c * g.blockK
    · rw [if_neg (by omega), if_neg (by omega)]
      exact h.output j hjc
    · -- nothing has been written here before this chunk
      have hold := h.frame (st * g.k + (j : ℕ)) fun i hi heq => by omega
      have hjl : c * g.blockK + (j - c * g.blockK) = j := by omega
      simp only [hjl, hold]
      exact answer_eq g T request hjc hj _
  · intro a ha
    simp only [selectChunk]
    rw [storeLanes_off _ _ _ _ _ _ ha, storeLanes_off _ _ _ _ _ _ ha]
    exact h.frame a fun j hj => ha j (by omega)
  · rw [misses_add, map_append, map_map]
    have hcompact := holds_compact h.worklist (fun l => isMiss g T request (c * g.blockK + l))
      (fun l => ((c * g.blockK + l : ℕ) : ℤ)) g.blockK
    rw [length_map, ← h.workcnt] at hcompact
    exact hcompact
  · rw [misses_add, length_append, length_map, ← h.workcnt, ← countP_eq_length_filter]
    rfl
  · rw [countP_range_chunk, ← h.residentCount]
    rfl
  · rw [countP_range_chunk, ← h.errCount]
    rfl

lemma select_chunks (st : ℤ) (s₀ : Selection) (h₀ : s₀.workcnt = 0) (hr : s₀.residentCount = 0)
    (he : s₀.errCount = 0) (c : ℕ) :
    Selected g T request st (c * g.blockK) s₀ ((range c).foldl (selectChunk g T request st) s₀) := by
  induction c with
  | zero =>
    refine ⟨by simp, by simp, fun _ _ => rfl, ?_, by simp [h₀, misses], by simp [hr], by simp [he]⟩
    intro i hi
    simp [misses] at hi
  | succ c ih =>
    rw [range_succ, foldl_concat]
    exact selected_chunk g T request ih

lemma select_spec (st : ℤ) (s₀ : Selection) (h₀ : s₀.workcnt = 0) (hr : s₀.residentCount = 0)
    (he : s₀.errCount = 0) : Selected g T request st g.k s₀ (select g T request st s₀) := by
  have hcover : g.k ≤ (g.k + g.blockK - 1) / g.blockK * g.blockK := by
    have hmod := Nat.div_add_mod (g.k + g.blockK - 1) g.blockK
    have hlt := Nat.mod_lt (g.k + g.blockK - 1) g.blockK_pos
    rw [mul_comm]
    omega
  have h := select_chunks g T request st s₀ h₀ hr he ((g.k + g.blockK - 1) / g.blockK)
  have hcount : ∀ p : ℕ → Bool, (∀ j, p j = true → j < g.k) →
      (range ((g.k + g.blockK - 1) / g.blockK * g.blockK)).countP p = (range g.k).countP p := by
    intro p hp
    rw [countP_eq_length_filter, Blocks.filter_range_of_le hp hcover, ← countP_eq_length_filter]
  have hmisses : misses g T request ((g.k + g.blockK - 1) / g.blockK * g.blockK) = misses g T request g.k :=
    Blocks.filter_range_of_le (fun j => lt_of_isMiss g T request) hcover
  refine ⟨fun a i => ?_, fun j hj => h.output j (by omega), fun a ha => ?_, ?_, ?_, ?_, ?_⟩
  · refine (h.bitmap a i).trans (or_congr_right ⟨fun ⟨j, _, hv, hrest⟩ => ?_, fun ⟨j, hj, hrest⟩ => ?_⟩)
    · exact ⟨j, lt_of_valid g T request hv, hv, hrest⟩
    · exact ⟨j, by omega, hrest⟩
  · by_cases hin : ∃ j < (g.k + g.blockK - 1) / g.blockK * g.blockK, a = st * g.k + (j : ℕ)
    · obtain ⟨j, hj, rfl⟩ := hin
      have hjk : ¬ j < g.k := fun hlt => ha j hlt rfl
      have hnone : answer g T request j = none := by
        unfold answer
        rw [if_neg fun hres => hjk (lt_of_isRes g T request hres), if_neg fun hbad => hjk hbad.1]
      have hout := h.output j hj
      rw [hnone] at hout
      exact hout
    · exact h.frame a fun j hj heq => hin ⟨j, hj, heq⟩
  · exact hmisses ▸ h.worklist
  · exact hmisses ▸ h.workcnt
  · rw [select, h.residentCount, hcount _ fun j => lt_of_isRes g T request]
  · rw [select, h.errCount, hcount _ fun j => lt_of_isErr g T request]

/-! ## The protected lanes -/

lemma clearBitmap_own (st : ℤ) (bitmap : Buffer (BitVec 32)) {i : ℕ} (hi : i < g.words) :
    clearBitmap g st bitmap (st * g.words + (i : ℕ)) = 0#32 := by
  have hchunks : ∀ c, i < c * 1024 → (range c).foldl (fun b c => storeLanes b 1024 (fun w => c * 1024 + w < g.words)
        (fun w => st * g.words + (c * 1024 : ℕ) + w) fun _ => 0) bitmap (st * g.words + (i : ℕ)) = 0#32 := by
    intro c
    induction c with
    | zero => omega
    | succ c ih =>
      intro hic
      rw [range_succ, foldl_concat, storeLanes_at]
      split
      · rfl
      · rename_i hnot
        refine ih ?_
        by_contra hge
        exact hnot ⟨by omega, by omega, by simpa using by omega⟩
  exact hchunks _ (by omega)

lemma shiftLeft_one_getLsbD {i : ℕ} (hn : n < 32) (hi : i < 32) : (1#32 <<< n).getLsbD i = true ↔ i = n := by
  rw [BitVec.getLsbD_shiftLeft]
  constructor
  · intro h
    simp only [BitVec.getLsbD_one, Bool.and_eq_true, decide_eq_true_eq, Bool.not_eq_true', decide_eq_false_iff_not] at h
    omega
  · rintro rfl
    simp [hi]

/-- A set bit of a bitmap that started clear is a selected token. -/
lemma selbit_iff {s : Selection} (h : Selected g T request st g.k s₀ s)
    (hclear : ∀ i < g.words, s₀.bitmap (st * g.words + (i : ℕ)) = 0#32) {tag : ℤ} (h₀ : 0 ≤ tag)
    (htag : tag < g.pages * g.page) :
    ((s.bitmap (st * g.words + tag / 32)).sshiftRight (tag % 32).toNat &&& 1#32 != 0#32) = true ↔
      ∃ j < g.k, valid g T request j = true ∧ token g T request j = tag := by
  have hword : (tag / 32).toNat < g.words := by
    unfold Geometry.words
    omega
  have hbit : (tag % 32).toNat < 32 := by omega
  have hzero := hclear _ hword
  rw [Int.toNat_of_nonneg (by omega)] at hzero
  rw [bne_iff_ne, testBit_word _ hbit, h.bitmap, hzero]
  simp only [BitVec.getLsbD_zero, Bool.false_eq_true, false_or]
  refine exists_congr fun j => and_congr_right fun _ => and_congr_right fun hv => ?_
  rw [shiftLeft_one_getLsbD (by omega) hbit]
  omega

lemma token_eq (hj : j < g.k) : token g T request j = T.selected (request * g.k + j) := if_pos hj

lemma mem_selValid {t : ℤ} :
    t ∈ selValid g T request ↔ ∃ j < g.k, valid g T request j = true ∧ token g T request j = t := by
  simp only [selValid, mem_filter, mem_map, mem_range]
  constructor
  · rintro ⟨⟨j, hj, rfl⟩, hrange⟩
    refine ⟨j, hj, ?_, token_eq g T request hj⟩
    simpa [valid, token_eq, hj] using hrange
  · rintro ⟨j, hj, hv, rfl⟩
    refine ⟨⟨j, hj, (token_eq g T request hj).symm⟩, ?_⟩
    simpa [valid, hj] using hv

lemma protectedLanes_eq {s : Selection} (h : Selected g T request st g.k s₀ s)
    (hclear : ∀ i < g.words, s₀.bitmap (st * g.words + (i : ℕ)) = 0#32) (tags tagGenerations : ℕ → ℤ)
    {l : ℕ} (hl : l < g.h) (htag : tags l < g.pages * g.page) :
    protectedLanes g T request st s.bitmap tags tagGenerations l =
      referenceProtected g T request tags tagGenerations l := by
  unfold protectedLanes referenceProtected
  by_cases h₀ : 0 ≤ tags l
  · simp only [hl, h₀, decide_true, Bool.and_self, if_true, Bool.true_and]
    congr 1
    rw [Bool.eq_iff_iff, selbit_iff g T request h hclear h₀ htag, decide_eq_true_eq, mem_selValid]
  · simp [h₀]

/-! ## The slot of a miss -/

/-- The walk and the oracle see the same hot tier. -/
structure SameTier (w : Walk) (s : Reference) : Prop where
  tags : ∀ h < g.h, w.tags h = s.tags h
  tagGenerations : ∀ h < g.h, w.tagGenerations h = s.tagGenerations h
  ages : ∀ h < g.h, w.ages h = s.ages h
  isProtected : ∀ h < g.h, w.isProtected h = s.isProtected h
  bounded : ∀ h < g.h, s.ages h ≤ int64Max

/-- The oracle's lookup of a token and of a victim. -/
def hitIdx (s : Reference) (tok gen : ℤ) : Option ℕ :=
  (List.range g.h).find? fun h => s.tags h == tok && s.tagGenerations h == gen

def victim (s : Reference) : Option ℕ :=
  let oldest := vecMin (fun h => if !s.isProtected h then s.ages h else int64Max) g.h
  (List.range g.h).find? fun h => !s.isProtected h && s.ages h == oldest

lemma find?_range_congr {p q : ℕ → Bool} (h : ∀ i < n, p i = q i) : (range n).find? p = (range n).find? q := by
  rw [← head?_filter, ← head?_filter, filter_congr fun i hi => h i (mem_range.mp hi)]

lemma find?_range_lt {p : ℕ → Bool} {i : ℕ} (h : (range n).find? p = some i) : i < n :=
  mem_range.mp (mem_of_find?_eq_some h)

lemma vecMin_lanes (p : ℕ → Bool) : vecMin (fun l => if l < g.h && p l then l else g.blockH) g.blockH =
      ((range g.h).find? p).getD g.blockH := by
  rw [vecMin_first (p := fun l => l < g.h && p l) g.blockH_pos g.h_le_blockH (by simp; tauto)]
  congr 1
  exact find?_range_congr fun i hi => by simp [hi]

lemma claimSlot_eq (h : SameTier g w s) (tok gen : ℤ) : claimSlot g w tok gen =
      match hitIdx g s tok gen with
      | some slot => (slot, true)
      | none => ((victim g s).getD g.blockH, false) := by
  have hhit : (range g.h).find? (fun l => w.tags l == tok && w.tagGenerations l == gen) = hitIdx g s tok gen :=
    find?_range_congr fun i hi => by rw [h.tags i hi, h.tagGenerations i hi]
  have hslot := vecMin_lanes g fun l => w.tags l == tok && w.tagGenerations l == gen
  simp only [← Bool.and_assoc] at hslot
  rw [hhit] at hslot
  have holdest : vecMin (fun l => if l < g.h && !w.isProtected l then w.ages l else int64Max) g.blockH =
      vecMin (fun l => if !s.isProtected l then s.ages l else int64Max) g.h := by
    rw [← vecMin_pad (n := g.blockH) (x := int64Max) g.h_pos g.h_le_blockH]
    · congr 1
      funext l
      by_cases hl : l < g.h
      · simp [hl, h.isProtected, h.ages]
      · simp [hl]
    · intro l hl
      split
      · exact h.bounded l hl
      · exact le_rfl
  have hvictim := vecMin_lanes g fun l => !w.isProtected l && w.ages l ==
    vecMin (fun l => if !s.isProtected l then s.ages l else int64Max) g.h
  simp only [← Bool.and_assoc] at hvictim
  unfold claimSlot
  simp only [hslot, holdest, hvictim]
  cases hfind : hitIdx g s tok gen with
  | some slot =>
    have hlt : slot < g.h := find?_range_lt hfind
    simp [hlt]
  | none =>
    have hge : ¬ g.blockH < g.h := Nat.not_lt.mpr g.h_le_blockH
    simp only [Option.getD_none, hge, if_false]
    congr 2
    exact find?_range_congr fun i hi => by rw [h.isProtected i hi, h.ages i hi]

/-! ## The walk -/

/-- The walk over the misses below `i` and the oracle after the positions below `i`. -/
structure Agree (st : ℤ) (w₀ : Walk) (i : ℕ) (w : Walk) (s : Reference) : Prop where
  tier : SameTier g w s
  hits : w.hitCount = s.hitN
  misses : w.missCount = s.missN
  missN_le : s.missN ≤ i
  blank : ∀ n, s.missN ≤ n → s.fills n = (0, 0)
  errs : w.errCount + (List.range i).countP (isErr g T request) =
    s.errN + (List.range g.k).countP (isErr g T request)
  res : s.resN = (List.range i).countP (isRes g T request)
  fills : ∀ n < s.missN, w.fill ((st * g.k + (n : ℕ)) * 2) = (s.fills n).1 ∧
    w.fill ((st * g.k + (n : ℕ)) * 2 + 1) = (s.fills n).2
  done : ∀ j < i, w.output (st * g.k + (j : ℕ)) = s.output j
  todo : ∀ j, i ≤ j → j < g.k → w.output (st * g.k + (j : ℕ)) = w₀.output (st * g.k + (j : ℕ))

lemma countP_range_succ (p : ℕ → Bool) (n : ℕ) : (range (n + 1)).countP p = (range n).countP p + (p n).toNat := by
  rw [range_succ, countP_append]
  cases h : p n <;> simp [h]

/-- The fence lets the hot page pass. -/
def fenceOk (slot : ℕ) : Bool :=
  !g.hasFence || T.fence (T.hotSlots (request * g.hotPages + (slot / g.page : ℕ))) ==
    T.expected (T.hotSlots (request * g.hotPages + (slot / g.page : ℕ)))

def hotRow (slot : ℕ) : ℤ :=
  T.hotSlots (request * g.hotPages + (slot / g.page : ℕ)) * g.page + (slot % g.page : ℕ)

def hostRow (tok : ℤ) : ℤ := T.backing (request * g.pages + tok / g.page) * g.page + tok % g.page

lemma walkStep_none {slot : ℕ} {isHit : Bool}
    (hclaim : claimSlot g w (T.selected (request * g.k + mi))
      (T.generations (request * g.pages + T.selected (request * g.k + mi) / g.page)) = (slot, isHit))
    (hslot : ¬ slot < g.h) :
    walkStep g T request st clock w mi = { w with output := update w.output (st * g.k + mi) (-1) } := by
  simp [walkStep, hclaim, hslot]

lemma fenceOk_eq (slot : ℕ) : (if g.hasFence then T.fence (T.hotSlots (request * g.hotPages + (slot / g.page : ℕ))) ==
        T.expected (T.hotSlots (request * g.hotPages + (slot / g.page : ℕ))) else true) = fenceOk g T request slot := by
  unfold fenceOk
  cases g.hasFence <;> rfl

lemma walkStep_fenced {slot : ℕ} {isHit : Bool}
    (hclaim : claimSlot g w (T.selected (request * g.k + mi))
      (T.generations (request * g.pages + T.selected (request * g.k + mi) / g.page)) = (slot, isHit))
    (hslot : slot < g.h) (hfence : fenceOk g T request slot = false) :
    walkStep g T request st clock w mi =
      { w with errCount := w.errCount + 1, output := update w.output (st * g.k + mi) (-1) } := by
  simp only [walkStep, hclaim, hslot, decide_true, if_true, Bool.true_and, fenceOk_eq, hfence,
    Bool.false_and, Bool.false_eq_true, if_false, Bool.or_false, Bool.toNat_false, add_zero,
    Bool.not_false, Bool.toNat_true]

lemma walkStep_hit {slot : ℕ} (hclaim : claimSlot g w (T.selected (request * g.k + mi))
      (T.generations (request * g.pages + T.selected (request * g.k + mi) / g.page)) = (slot, true))
    (hslot : slot < g.h) (hfence : fenceOk g T request slot = true) :
    walkStep g T request st clock w mi =
      { w with
        ages := fun h => if h == slot then clock else w.ages h
        isProtected := fun h => w.isProtected h || h == slot
        hitCount := w.hitCount + 1
        output := update w.output (st * g.k + mi) (hotRow g T request slot) } := by
  simp only [walkStep, hclaim, hslot, decide_true, if_true, Bool.true_and, fenceOk_eq, hfence,
    Bool.not_true, Bool.and_false, Bool.false_and, Bool.false_eq_true, if_false, Bool.toNat_false,
    add_zero, Bool.toNat_true, hotRow]

lemma walkStep_evict {slot : ℕ} (hclaim : claimSlot g w (T.selected (request * g.k + mi))
      (T.generations (request * g.pages + T.selected (request * g.k + mi) / g.page)) = (slot, false))
    (hslot : slot < g.h) (hfence : fenceOk g T request slot = true) : walkStep g T request st clock w mi =
      { tags := fun h => if h == slot then T.selected (request * g.k + mi) else w.tags h
        tagGenerations := fun h =>
          if h == slot then T.generations (request * g.pages + T.selected (request * g.k + mi) / g.page)
          else w.tagGenerations h
        ages := fun h => if h == slot then clock else w.ages h
        isProtected := fun h => w.isProtected h || h == slot
        hitCount := w.hitCount
        missCount := w.missCount + 1
        errCount := w.errCount
        fill := update
          (update w.fill ((st * g.k + w.missCount) * 2)
            (hostRow g T request (T.selected (request * g.k + mi))))
          ((st * g.k + w.missCount) * 2 + 1) (hotRow g T request slot)
        output := update w.output (st * g.k + mi) (hotRow g T request slot) } := by
  simp only [walkStep, hclaim, hslot, decide_true, if_true, Bool.true_and, fenceOk_eq, hfence,
    Bool.not_false, Bool.and_true, Bool.not_true, Bool.and_false, Bool.toNat_false, add_zero,
    Bool.toNat_true, hotRow, hostRow]

/-! ## The oracle's branches -/

lemma referenceMiss_none {i : ℕ} {tok : ℤ}
    (hhit : hitIdx g s tok (T.generations (request * g.pages + tok / g.page)) = none)
    (hvictim : victim g s = none) :
    referenceMiss g T request clock i tok s = { s with output := update s.output i (-1) } := by
  unfold hitIdx at hhit
  unfold victim at hvictim
  simp only [referenceMiss, hhit, hvictim]

lemma referenceMiss_hit {i : ℕ} {tok : ℤ} {slot : ℕ}
    (hhit : hitIdx g s tok (T.generations (request * g.pages + tok / g.page)) = some slot) :
    referenceMiss g T request clock i tok s =
      if fenceOk g T request slot then
        { s with
          isProtected := update s.isProtected slot true
          ages := update s.ages slot clock
          hitN := s.hitN + 1
          output := update s.output i (hotRow g T request slot) }
      else { s with errN := s.errN + 1, output := update s.output i (-1) } := by
  unfold hitIdx at hhit
  simp only [referenceMiss, hhit, Option.isSome_some, if_true, hotRow]
  unfold fenceOk
  cases g.hasFence
  · rfl
  · simp only [Bool.true_and, Bool.not_true, Bool.false_or, bne]
    cases T.fence (T.hotSlots (request * g.hotPages + (slot / g.page : ℕ))) ==
      T.expected (T.hotSlots (request * g.hotPages + (slot / g.page : ℕ))) <;> rfl

lemma referenceMiss_evict {i : ℕ} {tok : ℤ} {slot : ℕ}
    (hhit : hitIdx g s tok (T.generations (request * g.pages + tok / g.page)) = none)
    (hvictim : victim g s = some slot) :
    referenceMiss g T request clock i tok s =
      if fenceOk g T request slot then
        { s with
          tags := update s.tags slot tok
          tagGenerations := update s.tagGenerations slot
            (T.generations (request * g.pages + tok / g.page))
          isProtected := update s.isProtected slot true
          ages := update s.ages slot clock
          missN := s.missN + 1
          fills := update s.fills s.missN (hostRow g T request tok, hotRow g T request slot)
          output := update s.output i (hotRow g T request slot) }
      else { s with errN := s.errN + 1, output := update s.output i (-1) } := by
  unfold hitIdx at hhit
  unfold victim at hvictim
  simp only [referenceMiss, hhit, hvictim, Option.isSome_none, Bool.false_eq_true, if_false, hotRow, hostRow]
  unfold fenceOk
  cases g.hasFence
  · rfl
  · simp only [Bool.true_and, Bool.not_true, Bool.false_or, bne]
    cases T.fence (T.hotSlots (request * g.hotPages + (slot / g.page : ℕ))) ==
      T.expected (T.hotSlots (request * g.hotPages + (slot / g.page : ℕ))) <;> rfl

/-! ## One turn -/

section

variable {g T request} {st clock : ℤ} {w₀ w : Walk} {s : Reference} {i : ℕ}

lemma Agree.answered (h : Agree g T request st w₀ i w s) (row : ℤ) :
    (∀ j < i + 1, update w.output (st * g.k + (i : ℕ)) row (st * g.k + (j : ℕ)) = update s.output i row j) ∧
    ∀ j, i + 1 ≤ j → j < g.k → update w.output (st * g.k + (i : ℕ)) row (st * g.k + (j : ℕ)) =
      w₀.output (st * g.k + (j : ℕ)) := by
  have hoff : ∀ j : ℕ, j ≠ i → st * (g.k : ℤ) + (j : ℕ) ≠ st * g.k + (i : ℕ) := by
    intro j hj heq
    omega
  constructor
  · intro j hj
    by_cases hji : j = i
    · subst hji
      rw [update_self, update_self]
    · rw [update_of_ne (hoff j hji), update_of_ne hji]
      exact h.done j (by omega)
  · intro j hj hjk
    rw [update_of_ne (hoff j (by omega))]
    exact h.todo j (by omega) hjk

lemma err_of_isMiss (hmiss : isMiss g T request i = true) : isErr g T request i = false := by
  simp only [isMiss, Bool.and_eq_true] at hmiss
  simp [isErr, hmiss.1]

lemma res_of_isMiss (hmiss : isMiss g T request i = true) : isRes g T request i = false := by
  simp only [isMiss, Bool.and_eq_true, Bool.not_eq_true'] at hmiss
  exact hmiss.2

lemma Agree.pass (h : Agree g T request st w₀ i w s) (hmiss : isMiss g T request i = true) {n : ℕ} (row : ℤ) :
    Agree g T request st w₀ (i + 1)
      { w with errCount := w.errCount + n, output := update w.output (st * g.k + (i : ℕ)) row }
      { s with errN := s.errN + n, output := update s.output i row } := by
  obtain ⟨hdone, htodo⟩ := h.answered row
  have hle := h.missN_le
  have herrs := h.errs
  refine ⟨⟨h.tier.tags, h.tier.tagGenerations, h.tier.ages, h.tier.isProtected, h.tier.bounded⟩, h.hits,
    h.misses, by simp only; omega, h.blank, ?_, ?_, h.fills, hdone, htodo⟩
  · rw [countP_range_succ, err_of_isMiss hmiss]
    simp only [Bool.toNat_false]
    omega
  · rw [countP_range_succ, res_of_isMiss hmiss]
    exact h.res

lemma SameTier.use (h : SameTier g w s) (hclock : clock ≤ int64Max) (slot hitN hitN' : ℕ)
    (output : Buffer ℤ) (output' : ℕ → ℤ) :
    SameTier g
      { w with
        ages := fun h => if h == slot then clock else w.ages h
        isProtected := fun h => w.isProtected h || h == slot
        hitCount := hitN
        output := output }
      { s with
        isProtected := update s.isProtected slot true
        ages := update s.ages slot clock
        hitN := hitN'
        output := output' } := by
  refine ⟨h.tags, h.tagGenerations, fun l hl => ?_, fun l hl => ?_, fun l hl => ?_⟩ <;> simp only <;>
    by_cases hls : l = slot
  · subst hls
    simp
  · simp [hls, h.ages l hl]
  · subst hls
    simp
  · simp [hls, h.isProtected l hl]
  · subst hls
    simpa using hclock
  · simpa [hls] using h.bounded l hl

section

variable (h : Agree g T request st w₀ i w s)
include h

lemma Agree.hit (hmiss : isMiss g T request i = true)
    (hclock : clock ≤ int64Max) (slot : ℕ) (row : ℤ) :
    Agree g T request st w₀ (i + 1)
      { w with
        ages := fun h => if h == slot then clock else w.ages h
        isProtected := fun h => w.isProtected h || h == slot
        hitCount := w.hitCount + 1
        output := update w.output (st * g.k + (i : ℕ)) row }
      { s with
        isProtected := update s.isProtected slot true
        ages := update s.ages slot clock
        hitN := s.hitN + 1
        output := update s.output i row } := by
  obtain ⟨hdone, htodo⟩ := h.answered row
  have hle := h.missN_le
  refine ⟨h.tier.use hclock slot _ _ _ _, by simp only [h.hits], h.misses, by simp only; omega, h.blank, ?_, ?_, h.fills,
    hdone, htodo⟩
  · rw [countP_range_succ, err_of_isMiss hmiss]
    exact h.errs
  · rw [countP_range_succ, res_of_isMiss hmiss]
    exact h.res

lemma Agree.evict (hmiss : isMiss g T request i = true)
    (hclock : clock ≤ int64Max) (slot : ℕ) (tok gen src row : ℤ) : Agree g T request st w₀ (i + 1)
      { tags := fun h => if h == slot then tok else w.tags h
        tagGenerations := fun h => if h == slot then gen else w.tagGenerations h
        ages := fun h => if h == slot then clock else w.ages h
        isProtected := fun h => w.isProtected h || h == slot
        hitCount := w.hitCount
        missCount := w.missCount + 1
        errCount := w.errCount
        fill := update (update w.fill ((st * g.k + w.missCount) * 2) src)
          ((st * g.k + w.missCount) * 2 + 1) row
        output := update w.output (st * g.k + (i : ℕ)) row }
      { s with
        tags := update s.tags slot tok
        tagGenerations := update s.tagGenerations slot gen
        isProtected := update s.isProtected slot true
        ages := update s.ages slot clock
        missN := s.missN + 1
        fills := update s.fills s.missN (src, row)
        output := update s.output i row } := by
  obtain ⟨hdone, htodo⟩ := h.answered row
  have hle := h.missN_le
  have htier := h.tier.use hclock slot 0 0 w.output s.output
  refine ⟨⟨fun l hl => ?_, fun l hl => ?_, htier.ages, htier.isProtected, htier.bounded⟩, h.hits,
    by simp [h.misses], by simp only; omega, fun n hn => ?_, ?_, ?_, fun n hn => ?_, hdone, htodo⟩
  · by_cases hls : l = slot
    · subst hls
      simp
    · simp [hls, h.tier.tags l hl]
  · by_cases hls : l = slot
    · subst hls
      simp
    · simp [hls, h.tier.tagGenerations l hl]
  · simp only at hn
    exact (update_of_ne (by omega) _ _).trans (h.blank n (by omega))
  · rw [countP_range_succ, err_of_isMiss hmiss]
    exact h.errs
  · rw [countP_range_succ, res_of_isMiss hmiss]
    exact h.res
  · simp only at hn
    rw [h.misses]
    dsimp only
    by_cases hns : n = s.missN
    · subst hns
      rw [update_self, update_self, update_of_ne (by omega), update_self]
      exact ⟨rfl, rfl⟩
    · obtain ⟨hsrc, hdst⟩ := h.fills n (by omega)
      rw [update_of_ne hns, update_of_ne (by omega), update_of_ne (by omega),
        update_of_ne (by omega), update_of_ne (by omega)]
      exact ⟨hsrc, hdst⟩

lemma agree_miss (hmiss : isMiss g T request i = true)
    (hclock : clock ≤ int64Max) : Agree g T request st w₀ (i + 1) (walkStep g T request st clock w (i : ℕ))
      (referenceMiss g T request clock i (T.selected (request * g.k + (i : ℕ))) s) := by
  have hclaim := claimSlot_eq g h.tier (T.selected (request * g.k + (i : ℕ)))
    (T.generations (request * g.pages + T.selected (request * g.k + (i : ℕ)) / g.page))
  cases hhit : hitIdx g s (T.selected (request * g.k + (i : ℕ)))
      (T.generations (request * g.pages + T.selected (request * g.k + (i : ℕ)) / g.page)) with
  | some slot =>
    rw [hhit] at hclaim
    have hslot : slot < g.h := find?_range_lt hhit
    rw [referenceMiss_hit g T request hhit]
    cases hfence : fenceOk g T request slot with
    | true =>
      rw [walkStep_hit g T request hclaim hslot hfence]
      exact h.hit hmiss hclock slot _
    | false =>
      rw [walkStep_fenced g T request hclaim hslot hfence]
      exact h.pass hmiss _
  | none =>
    rw [hhit] at hclaim
    cases hvictim : victim g s with
    | some slot =>
      rw [hvictim] at hclaim
      have hslot : slot < g.h := find?_range_lt hvictim
      rw [referenceMiss_evict g T request hhit hvictim]
      cases hfence : fenceOk g T request slot with
      | true =>
        rw [walkStep_evict g T request hclaim hslot hfence]
        exact h.evict hmiss hclock slot _ _ _ _
      | false =>
        rw [walkStep_fenced g T request hclaim hslot hfence]
        exact h.pass hmiss _
    | none =>
      rw [hvictim] at hclaim
      rw [referenceMiss_none g T request hhit hvictim, walkStep_none g T request hclaim (Nat.not_lt.mpr g.h_le_blockH)]
      exact h.pass (n := 0) hmiss _

lemma agree_answered (hi : i < g.k) (hmiss : ¬ isMiss g T request i = true)
    (hw₀ : ∀ v, answer g T request i = some v → w₀.output (st * g.k + (i : ℕ)) = v) :
    Agree g T request st w₀ (i + 1) w (referenceStep g T request clock s i) := by
  have hle := h.missN_le
  have herrs := h.errs
  have hkeep : ∀ v, answer g T request i = some v → ∀ j < i + 1,
      w.output (st * g.k + (j : ℕ)) = update s.output i v j := by
    intro v hv j hj
    by_cases hji : j = i
    · subst hji
      rw [update_self, h.todo j le_rfl hi, hw₀ v hv]
    · rw [update_of_ne hji]
      exact h.done j (by omega)
  have htodo : ∀ j, i + 1 ≤ j → j < g.k → w.output (st * g.k + (j : ℕ)) = w₀.output (st * g.k + (j : ℕ)) :=
    fun j hj hjk => h.todo j (by omega) hjk
  have hcount : ∀ {e r : Bool} {v : ℤ}, isErr g T request i = e → isRes g T request i = r →
      answer g T request i = some v → Agree g T request st w₀ (i + 1) w
        { s with errN := s.errN + e.toNat, resN := s.resN + r.toNat, output := update s.output i v } := by
    intro e r v he hr hv
    refine ⟨⟨h.tier.tags, h.tier.tagGenerations, h.tier.ages, h.tier.isProtected, h.tier.bounded⟩, h.hits,
      h.misses, by simp only; omega, h.blank, ?_, ?_, h.fills, hkeep v hv, htodo⟩
    · rw [countP_range_succ, he]
      simp only
      omega
    · rw [countP_range_succ, hr, ← h.res]
  have htok := token_eq g T request hi
  by_cases hvalid : valid g T request i = true
  · -- resident
    have hr : isRes g T request i = true := by
      by_contra hr
      exact hmiss (by simp [isMiss, hvalid, hr])
    have herr : isErr g T request i = false := by simp [isErr, hvalid]
    have hpage : residentPage g T request i =
        T.resident (request * g.pages + T.selected (request * g.k + (i : ℕ)) / g.page) := by
      rw [residentPage, if_pos hvalid, htok]
    have hr₀ : 0 ≤ residentPage g T request i := by
      simp only [isRes, Bool.and_eq_true, decide_eq_true_eq] at hr
      exact hr.2
    have hrange : 0 ≤ T.selected (request * g.k + (i : ℕ)) ∧
        T.selected (request * g.k + (i : ℕ)) < T.lengths request := by
      simp only [valid, Bool.and_eq_true, decide_eq_true_eq] at hvalid
      rw [← htok]
      exact ⟨hvalid.1.2, hvalid.2⟩
    have hans : answer g T request i = some (residentRow g T request i) := if_pos hr
    have hrow : residentRow g T request i =
        T.resident (request * g.pages + T.selected (request * g.k + (i : ℕ)) / g.page) * g.page +
          T.selected (request * g.k + (i : ℕ)) % g.page := by
      rw [residentRow, hpage, htok]
    rw [hpage] at hr₀
    simp only [referenceStep, if_pos hrange, if_pos hr₀, ← hrow]
    exact hcount herr hr hans
  · -- invalid
    have hr : isRes g T request i = false := by simp [isRes, hvalid]
    have hans : answer g T request i = some (-1) := by simp [answer, hr, hi, hvalid]
    have hrange : ¬ (0 ≤ T.selected (request * g.k + (i : ℕ)) ∧
        T.selected (request * g.k + (i : ℕ)) < T.lengths request) := by
      rintro ⟨h₁, h₂⟩
      exact hvalid (by simp [valid, hi, htok, h₁, h₂])
    have herr : isErr g T request i = !(g.allowPadding && T.selected (request * g.k + (i : ℕ)) == -1) := by
      simp [isErr, hi, hvalid, htok, bne]
    simp only [referenceStep, if_neg hrange]
    split
    · rename_i hpad
      rw [hpad] at herr
      exact hcount herr hr hans
    · rename_i hpad
      rw [Bool.eq_false_of_not_eq_true hpad] at herr
      exact hcount herr hr hans

end

lemma referenceStep_of_isMiss (hmiss : isMiss g T request i = true) : referenceStep g T request clock s i =
      referenceMiss g T request clock i (T.selected (request * g.k + (i : ℕ))) s := by
  have htok := token_eq g T request (lt_of_isMiss g T request hmiss)
  have hres := res_of_isMiss hmiss
  have hvalid : valid g T request i = true := by
    simp only [isMiss, Bool.and_eq_true] at hmiss
    exact hmiss.1
  have hrange : 0 ≤ T.selected (request * g.k + (i : ℕ)) ∧
      T.selected (request * g.k + (i : ℕ)) < T.lengths request := by
    have hv := hvalid
    simp only [valid, Bool.and_eq_true, decide_eq_true_eq] at hv
    rw [← htok]
    exact ⟨hv.1.2, hv.2⟩
  have hpage : ¬ 0 ≤ T.resident (request * g.pages + T.selected (request * g.k + (i : ℕ)) / g.page) := by
    simpa [isRes, hvalid, residentPage, htok] using hres
  simp [referenceStep, if_pos hrange, if_neg hpage]

/-- **The walk and the oracle stay in agreement** over all positions. -/
theorem agree_run (hclock : clock ≤ int64Max) {s₀ : Reference} (h₀ : Agree g T request st w₀ 0 w₀ s₀)
    (hw₀ : ∀ j < g.k, ∀ v, answer g T request j = some v → w₀.output (st * g.k + (j : ℕ)) = v) {n : ℕ} (hn : n ≤ g.k) :
    Agree g T request st w₀ n
      (((misses g T request n).map fun j : ℕ => (j : ℤ)).foldl (walkStep g T request st clock) w₀)
      ((range n).foldl (referenceStep g T request clock) s₀) := by
  induction n with
  | zero => exact h₀
  | succ n ih =>
    have ih := ih (by omega)
    rw [range_succ, foldl_concat]
    by_cases hmiss : isMiss g T request n = true
    · have hlast : misses g T request (n + 1) = misses g T request n ++ [n] := by
        simp [misses, range_succ, filter_append, hmiss]
      rw [hlast, map_append, foldl_append, map_singleton, foldl_cons, foldl_nil, referenceStep_of_isMiss hmiss]
      exact agree_miss ih hmiss hclock
    · have hlast : misses g T request (n + 1) = misses g T request n := by
        simp [misses, range_succ, filter_append, hmiss]
      rw [hlast]
      exact agree_answered ih (by omega) hmiss (hw₀ n (by omega))

end

end

end VKernels.Dsa
