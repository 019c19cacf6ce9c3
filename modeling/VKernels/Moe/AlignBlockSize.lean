import VKernels.Comm.Host
import VKernels.Lib.Blocks
import VKernels.Lib.Grouping

/-!
# Block alignment of the routing table

`moe_align_block_size` of `kernels/moe_fused.cpp` and its two callers in `dist/dist_moe.cpp`.  The
`int` sizes are naturals (the callers refuse negative ones) and do not overflow.

* `alignTp`, `moeEpDispatch` — the buffers of the two callers; `moeEpPlan` — a rank's experts.

## Results

* `moeAlignBlockSize_eq`, `moeAlignBlockSize_ok` — the loops write the groups of `Grouping.layout`, and its table.
* `moe_align_block_size_aligned` — both callers get an aligned layout that fits their buffers.
-/

namespace VKernels.Moe

open Comm (expects expects_of bind_ok expects_ok)
open Blocks Grouping
open List
open Prod (fst snd)

/-! ## Writing through a cursor -/

/-- Writing past the end of a buffer. -/
def outOfBounds : String := "out of bounds"

lemma ok_bind {α β : Type} (a : α) (f : α → Except String β) : (Except.ok a >>= f) = f a := rfl

/-- A buffer and the index of the next write. -/
structure Cursor (α : Type) where
  buf : List α
  idx : ℕ

namespace Cursor

variable {α : Type}

/-- `buf[idx++] = v`. -/
def put (c : Cursor α) (v : α) : Except String (Cursor α) :=
  if c.idx < c.buf.length then .ok ⟨c.buf.set c.idx v, c.idx + 1⟩ else .error outOfBounds

def putAll (c : Cursor α) (vs : List α) : Except String (Cursor α) := vs.foldlM put c

@[simp] lemma putAll_nil (c : Cursor α) : c.putAll [] = .ok c := rfl

lemma putAll_append (c : Cursor α) (vs ws : List α) :
    c.putAll (vs ++ ws) = c.putAll vs >>= fun c => c.putAll ws := foldlM_append

lemma foldlM_putAll {I : Type} (vals : I → List α) : ∀ (is : List I) (c : Cursor α),
    is.foldlM (fun c i => c.putAll (vals i)) c = c.putAll (is.flatMap vals)
  | [], c => rfl
  | i :: is, c => by
    rw [foldlM_cons, flatMap_cons, putAll_append]
    exact congrArg _ (funext fun c => foldlM_putAll vals is c)

lemma putAll_ok : ∀ {vs buf : List α} {idx : ℕ}, idx + vs.length ≤ buf.length →
    putAll ⟨buf, idx⟩ vs = .ok ⟨overwrite buf idx vs, idx + vs.length⟩
  | [], buf, idx, h => by simp [overwrite]
  | v :: vs, buf, idx, h => by
    rw [length_cons] at h
    have hput : put ⟨buf, idx⟩ v = .ok ⟨buf.set idx v, idx + 1⟩ := if_pos (by simp; omega)
    have hrest : putAll ⟨buf.set idx v, idx + 1⟩ vs = .ok ⟨overwrite (buf.set idx v) (idx + 1) vs,
        idx + 1 + vs.length⟩ := putAll_ok (by simp; omega)
    have hset : overwrite (buf.set idx v) (idx + 1) vs = overwrite buf idx (v :: vs) := by
      refine ext_getElem? fun j => ?_
      rw [getElem?_overwrite (by simp; omega), getElem?_overwrite (by simp; omega),
        length_cons]
      by_cases hj : j = idx
      · subst hj
        rw [if_neg (by omega), if_pos (by omega), getElem?_set_self (by omega)]
        simp
      · rw [getElem?_set_ne (Ne.symm hj)]
        by_cases hin : idx + 1 ≤ j ∧ j < idx + 1 + vs.length
        · rw [if_pos hin, if_pos (by omega), show j - idx = j - (idx + 1) + 1 by omega,
            getElem?_cons_succ]
        · rw [if_neg hin, if_neg (by omega)]
    show (put ⟨buf, idx⟩ v >>= fun c => c.putAll vs) = _
    rw [hput]
    show putAll ⟨buf.set idx v, idx + 1⟩ vs = _
    rw [hrest, hset, length_cons]
    congr 2
    omega

lemma putAll_fits : ∀ {vs buf : List α} {idx : ℕ} {c : Cursor α}, idx ≤ buf.length →
    putAll ⟨buf, idx⟩ vs = .ok c → idx + vs.length ≤ buf.length
  | [], buf, idx, c, hidx, _ => hidx
  | v :: vs, buf, idx, c, hidx, h => by
    have hsplit : (put ⟨buf, idx⟩ v >>= fun c => c.putAll vs) = .ok c := h
    obtain ⟨_, hput, hrest⟩ := bind_ok.mp hsplit
    unfold put at hput
    split at hput
    · rename_i hlt
      obtain rfl := (Except.ok.inj hput).symm
      have hle : idx + 1 + vs.length ≤ (buf.set idx v).length :=
        putAll_fits (by rw [length_set]; exact hlt) hrest
      rw [length_set] at hle
      rw [length_cons]
      omega
    · cases hput

end Cursor

/-! ## `moe_align_block_size` -/

section

variable (topkIds : ℕ → ℤ)

/-- Step 1: the flat indices of each expert. -/
def collectPerExpert (N numExperts : ℕ) : List (List ℕ) :=
  (List.range N).foldl (fun perExpert i =>
    let e := topkIds i
    if e ≥ 0 ∧ e < numExperts then perExpert.modify e.toNat (· ++ [i]) else perExpert)
    (List.replicate numExperts [])

/-- Returns `EM_padded` and the two buffers. -/
def moeAlignBlockSize (M topK blockSize numExperts : ℕ) (sortedIds : List ℕ)
    (expertIds : List ℤ) : Except String (ℕ × List ℕ × List ℤ) := do
  let N := M * topK
  let perExpert := collectPerExpert topkIds N numExperts
  let emPadded := perExpert.foldl (fun total v =>
    total + (v.length + blockSize - 1) / blockSize * blockSize) 0
  let sorted ← (List.range numExperts).foldlM (fun c e => do
    let tokens := perExpert.getD e []
    let nt := tokens.length
    let c ← Cursor.putAll c tokens
    let paddedNt := (nt + blockSize - 1) / blockSize * blockSize
    -- pad with an out-of-bounds flat index
    c.putAll (List.replicate (paddedNt - nt) N)) ⟨sortedIds, 0⟩
  let numBlocks := emPadded / blockSize
  let experts ← (List.range numExperts).foldlM (fun c e =>
    let nt := (perExpert.getD e []).length
    let paddedBlocks := (nt + blockSize - 1) / blockSize
    Cursor.putAll c ((List.range paddedBlocks).map fun b =>
      if b * blockSize < nt then (e : ℤ) else -1)) ⟨expertIds, 0⟩
  let experts ← experts.putAll (List.replicate (numBlocks - experts.idx) (-1))
  return (emPadded, sorted.buf, experts.buf)

/-- `std::vector::resize`. -/
def resize {α : Type} (n : ℕ) (fill : α) (l : List α) : List α :=
  l.take n ++ List.replicate (n - l.length) fill

/-- The alignment in `fused_moe_mxfp4_tp`. -/
def alignTp (M topK blockSize numExperts : ℕ) : Except String (ℕ × List ℕ × List ℤ) := do
  let emCap := M * topK + numExperts * blockSize + 1
  let (em, sortedIds, expertIds) ← moeAlignBlockSize topkIds M topK blockSize numExperts
    (List.replicate emCap 0) (List.replicate (emCap / blockSize + 1) 0)
  return (em, resize em 0 sortedIds, resize (em / blockSize) 0 expertIds)

/-- A rank's experts. -/
structure MoeEPPlan where
  ep : ℕ
  rank : ℕ
  expertBegin : ℕ
  expertEnd : ℕ
  numLocal : ℕ

def moeEpPlan (numExperts ep rank : ℕ) : Except String MoeEPPlan := do
  expects (ep > 0) "ep must be positive" "ep > 0"
  expects (rank ≥ 0 ∧ rank < ep) "rank out of range" "rank >= 0 && rank < ep"
  expects (numExperts ≥ ep) "num_experts must be at least ep" "num_experts >= ep"
  let base := numExperts / ep
  let rem := numExperts % ep
  let expertBegin := rank * base + if rank < rem then rank else rem
  let expertEnd := expertBegin + base + if rank < rem then 1 else 0
  return ⟨ep, rank, expertBegin, expertEnd, expertEnd - expertBegin⟩

/-- The selections routed to this rank; the others are masked out. -/
def MoeEPPlan.mask (plan : MoeEPPlan) (i : ℕ) : ℤ :=
  if topkIds i ≥ plan.expertBegin ∧ topkIds i < plan.expertEnd then topkIds i else -1

def moeEpDispatch (M topK numExperts blockSize : ℕ) (plan : MoeEPPlan) :
    Except String (ℕ × List ℕ × List ℤ) := do
  expects (blockSize > 0) "block_size must be positive" "block_size > 0"
  let emCap := M * topK + plan.numLocal * blockSize + 1
  let (em, sortedIds, expertIds) ← moeAlignBlockSize (plan.mask topkIds) M topK blockSize
    numExperts (List.replicate emCap 0) (List.replicate (emCap / blockSize + 1) 0)
  -- global to local expert ids
  let expertIds := expertIds.mapIdx fun b (e : ℤ) =>
    if b < em / blockSize ∧ e ≥ 0 then e - plan.expertBegin else e
  return (em, resize em 0 sortedIds, resize (em / blockSize) 0 expertIds)

end

/-! ## The layout -/

section

variable (ids : ℕ → ℤ) (M topK blockSize numExperts : ℕ)

/-- The flat indices of each expert, with the expert. -/
def routedGroups (N numExperts : ℕ) : List (ℤ × List ℕ) :=
  groups ids (List.range N) ((List.range numExperts).map fun e : ℕ => (e : ℤ))

lemma getElem?_routedGroups (N e : ℕ) : ((routedGroups ids N numExperts).map snd)[e]? =
      if e < numExperts then some ((range N).filter fun i => ids i = (e : ℤ)) else none := by
  rw [routedGroups, groups, map_map, map_map, getElem?_map]
  by_cases he : e < numExperts
  · rw [getElem?_range he, if_pos he]
    rfl
  · rw [getElem?_eq_none (by simpa using he), if_neg he]
    rfl

lemma collectPerExpert_eq (N : ℕ) :
    collectPerExpert ids N numExperts = (routedGroups ids N numExperts).map snd := by
  induction N with
  | zero =>
    simp [collectPerExpert, routedGroups, groups, Function.comp_def, map_const']
  | succ N ih =>
    unfold collectPerExpert at ih ⊢
    rw [range_succ, foldl_concat, ih]
    refine ext_getElem? fun e => ?_
    rw [getElem?_routedGroups, range_succ, filter_append]
    by_cases hin : ids N ≥ 0 ∧ ids N < numExperts
    · rw [if_pos hin, getElem?_modify, getElem?_routedGroups]
      by_cases he : e < numExperts
      · by_cases hN : (ids N).toNat = e
        · have hid : ids N = (e : ℤ) := by omega
          simp [he, hid]
        · have hid : ids N ≠ (e : ℤ) := by omega
          simp [he, hid, hN]
      · simp [he]
    · rw [if_neg hin, getElem?_routedGroups]
      by_cases he : e < numExperts
      · have hid : ids N ≠ (e : ℤ) := by omega
        simp [he, hid]
      · simp [he]

lemma getD_collectPerExpert {N e : ℕ} (he : e < numExperts) : (collectPerExpert ids N numExperts).getD e [] =
      (range N).filter fun i => ids i = (e : ℤ) := by
  rw [collectPerExpert_eq, getD_eq_getElem?_getD, getElem?_routedGroups, if_pos he]
  rfl

/-- What the loops write into `sorted_ids`, and into `expert_ids`. -/
def paddedIds : List ℕ := layout blockSize (M * topK) (routedGroups ids (M * topK) numExperts)

def blockExperts : List ℤ := table blockSize (routedGroups ids (M * topK) numExperts)

lemma paddedIds_eq : paddedIds ids M topK blockSize numExperts = (range numExperts).flatMap fun e =>
      fillUp blockSize (M * topK) ((collectPerExpert ids (M * topK) numExperts).getD e []) := by
  unfold paddedIds layout routedGroups groups
  rw [flatMap_map, flatMap_map]
  apply flatMap_congr
  intro e he
  rw [getD_collectPerExpert ids numExperts (mem_range.mp he)]

lemma blockExperts_eq : blockExperts ids M topK blockSize numExperts = (range numExperts).flatMap fun e => replicate
      (blocksFor blockSize ((collectPerExpert ids (M * topK) numExperts).getD e []).length) (e : ℤ) := by
  unfold blockExperts table routedGroups groups
  rw [flatMap_map, flatMap_map]
  apply flatMap_congr
  intro e he
  rw [getD_collectPerExpert ids numExperts (mem_range.mp he)]

variable {blockSize} (hblock : 0 < blockSize)
include hblock

lemma paddedIds_length : (paddedIds ids M topK blockSize numExperts).length =
    (blockExperts ids M topK blockSize numExperts).length * blockSize :=
  layout_length hblock _ _

lemma expertBlocks_eq (nt : ℕ) (e : ℤ) : ((range ((nt + blockSize - 1) / blockSize)).map fun b =>
      if b * blockSize < nt then e else -1) = replicate (blocksFor blockSize nt) e := by
  rw [eq_replicate_iff]
  refine ⟨by simp [blocksFor], fun x hx => ?_⟩
  obtain ⟨b, hb, rfl⟩ := mem_map.mp hx
  exact if_pos (block_start_lt hblock (mem_range.mp hb))

lemma totalTokens_eq {K : Type} (pad : ℕ) (gs : List (K × List ℕ)) : (gs.map snd).foldl (fun total v =>
      total + (v.length + blockSize - 1) / blockSize * blockSize) 0 = (layout blockSize pad gs).length := by
  have hfrom : ∀ total : ℕ, (gs.map snd).foldl (fun total v =>
      total + (v.length + blockSize - 1) / blockSize * blockSize) total =
        total + (layout blockSize pad gs).length := by
    induction gs with
    | nil => intro total; simp [layout]
    | cons g gs ih =>
      intro _
      rw [map_cons, foldl_cons, ih]
      simp only [layout, flatMap_cons, length_append, fillUp_length hblock, blocksFor]
      omega
  rw [hfrom, zero_add]

lemma moeAlignBlockSize_puts (sortedIds : List ℕ) (expertIds : List ℤ) :
    moeAlignBlockSize ids M topK blockSize numExperts sortedIds expertIds =
      (Cursor.putAll ⟨sortedIds, 0⟩ (paddedIds ids M topK blockSize numExperts) >>= fun sorted =>
        Cursor.putAll ⟨expertIds, 0⟩ (blockExperts ids M topK blockSize numExperts) >>= fun experts =>
          experts.putAll (replicate ((blockExperts ids M topK blockSize numExperts).length - experts.idx) (-1)) >>=
            fun experts => .ok ((paddedIds ids M topK blockSize numExperts).length, sorted.buf, experts.buf)) := by
  have hem : (collectPerExpert ids (M * topK) numExperts).foldl (fun total v =>
      total + (v.length + blockSize - 1) / blockSize * blockSize) 0 =
        (paddedIds ids M topK blockSize numExperts).length := by
    rw [collectPerExpert_eq]
    exact totalTokens_eq hblock _ _
  have hblocks : (paddedIds ids M topK blockSize numExperts).length / blockSize =
      (blockExperts ids M topK blockSize numExperts).length := by
    rw [paddedIds_length ids M topK numExperts hblock, Nat.mul_div_cancel _ hblock]
  have hfill : ∀ tokens : List ℕ, ∀ c : Cursor ℕ, (c.putAll tokens >>= fun c =>
      c.putAll (replicate ((tokens.length + blockSize - 1) / blockSize * blockSize -
        tokens.length) _)) = c.putAll (fillUp blockSize (M * topK) tokens) :=
    fun tokens c => (Cursor.putAll_append c tokens _).symm
  have hsortedLoop : (range numExperts).foldlM (fun c e =>
      c.putAll (fillUp blockSize (M * topK)
        ((collectPerExpert ids (M * topK) numExperts).getD e []))) (⟨sortedIds, 0⟩ : Cursor ℕ) =
      Cursor.putAll ⟨sortedIds, 0⟩ (paddedIds ids M topK blockSize numExperts) := by
    rw [Cursor.foldlM_putAll, ← paddedIds_eq]
  have hexpertLoop : (range numExperts).foldlM (fun c e =>
      Cursor.putAll c ((range
        ((((collectPerExpert ids (M * topK) numExperts).getD e []).length + blockSize - 1) /
          blockSize)).map fun b =>
          if b * blockSize < ((collectPerExpert ids (M * topK) numExperts).getD e []).length
          then (e : ℤ) else -1)) (⟨expertIds, 0⟩ : Cursor ℤ) =
      Cursor.putAll ⟨expertIds, 0⟩ (blockExperts ids M topK blockSize numExperts) := by
    simp only [expertBlocks_eq hblock]
    rw [Cursor.foldlM_putAll, ← blockExperts_eq]
  unfold moeAlignBlockSize
  simp only [hfill, hem, hblocks]
  rw [hsortedLoop, hexpertLoop]
  rfl

lemma moeAlignBlockSize_eq {sortedIds : List ℕ} {expertIds : List ℤ}
    (hsorted : (paddedIds ids M topK blockSize numExperts).length ≤ sortedIds.length)
    (hexperts : (blockExperts ids M topK blockSize numExperts).length ≤ expertIds.length) :
    moeAlignBlockSize ids M topK blockSize numExperts sortedIds expertIds =
      .ok ((paddedIds ids M topK blockSize numExperts).length,
        overwrite sortedIds 0 (paddedIds ids M topK blockSize numExperts),
        overwrite expertIds 0 (blockExperts ids M topK blockSize numExperts)) := by
  rw [moeAlignBlockSize_puts ids M topK numExperts hblock, Cursor.putAll_ok (by omega), ok_bind,
    Cursor.putAll_ok (by omega), ok_bind, Nat.zero_add, Nat.sub_self]
  rfl

/-- An alignment that succeeds fitted its buffer, which starts with the layout. -/
lemma moeAlignBlockSize_ok {sortedIds sorted : List ℕ} {expertIds experts : List ℤ} {em : ℕ}
    (h : moeAlignBlockSize ids M topK blockSize numExperts sortedIds expertIds = .ok (em, sorted, experts)) :
    em = (paddedIds ids M topK blockSize numExperts).length ∧
      sorted.take em = paddedIds ids M topK blockSize numExperts := by
  rw [moeAlignBlockSize_puts ids M topK numExperts hblock] at h
  obtain ⟨c, hputs, h⟩ := bind_ok.mp h
  have hfits := Cursor.putAll_fits (Nat.zero_le _) hputs
  rw [Cursor.putAll_ok hfits] at hputs
  obtain rfl := (Except.ok.inj hputs).symm
  obtain ⟨_, -, h⟩ := bind_ok.mp h
  obtain ⟨_, -, h⟩ := bind_ok.mp h
  obtain ⟨rfl, hbufs⟩ := Prod.mk.inj (Except.ok.inj h)
  obtain ⟨rfl, -⟩ := Prod.mk.inj hbufs
  refine ⟨rfl, ?_⟩
  exact take_left

end

/-! ## What the layout satisfies -/

/-- `sortedIds` and `expertIds` are the routing `ids`, aligned to blocks. -/
structure Aligned (ids : ℕ → ℤ) (M topK blockSize numExperts em : ℕ) (sortedIds : List ℕ)
    (expertIds : List ℤ) : Prop where
  length : sortedIds.length = em
  blocks : em % blockSize = 0
  /-- Every routed flat index is there once, -/
  once : ∀ i < M * topK, 0 ≤ ids i → ids i < numExperts → sortedIds.count i = 1
  /-- and all else is padding. -/
  only : ∀ i ∈ sortedIds, i = M * topK ∨ (i < M * topK ∧ 0 ≤ ids i ∧ ids i < numExperts)
  /-- By expert, and in the original order within an expert. -/
  order : (sortedIds.filter (· ≠ M * topK)).Pairwise fun i j =>
    ids i < ids j ∨ ids i = ids j ∧ i < j
  /-- A block's expert is where its real entries are routed. -/
  experts : expertIds.length = em / blockSize ∧ ∀ k i, sortedIds[k]? = some i → i ≠ M * topK →
    expertIds[k / blockSize]? = some (ids i)

section

variable (ids : ℕ → ℤ) (M topK numExperts : ℕ) {blockSize : ℕ} (hblock : 0 < blockSize)

lemma expertKeys_pairwise : ((range numExperts).map fun e : ℕ => (e : ℤ)).Pairwise (· < ·) := by
  rw [pairwise_map]
  apply pairwise_lt_range.imp
  intro a b hab
  exact_mod_cast hab

lemma mem_expertKeys {e : ℤ} : e ∈ ((range numExperts).map fun e : ℕ => (e : ℤ)) ↔ 0 ≤ e ∧ e < numExperts := by
  simp only [mem_map, mem_range]
  constructor
  · rintro ⟨n, hn, rfl⟩
    omega
  · intro h
    exact ⟨e.toNat, by omega, by omega⟩

lemma pad_notMem : ∀ g ∈ routedGroups ids (M * topK) numExperts, M * topK ∉ g.2 := by
  intro g hg hmem
  have hlt := mem_range.mp (mem_groups hg hmem).1
  exact lt_irrefl _ hlt

include hblock in
/-- **The layout of the loops is aligned.** -/
theorem paddedIds_aligned : Aligned ids M topK blockSize numExperts (paddedIds ids M topK blockSize numExperts).length
    (paddedIds ids M topK blockSize numExperts) (blockExperts ids M topK blockSize numExperts) := by
  have hlength := paddedIds_length ids M topK numExperts hblock
  have hreal : (paddedIds ids M topK blockSize numExperts).filter (· ≠ M * topK) =
      (routedGroups ids (M * topK) numExperts).flatMap snd :=
    filter_layout blockSize (pad_notMem ids M topK numExperts)
  have hmem : ∀ i, i ∈ (routedGroups ids (M * topK) numExperts).flatMap snd ↔
      i < M * topK ∧ 0 ≤ ids i ∧ ids i < numExperts := by
    intro i
    rw [routedGroups, mem_flatMap_groups, mem_expertKeys, mem_range]
  refine ⟨rfl, ?_, ?_, ?_, ?_, ?_, ?_⟩
  · rw [hlength, Nat.mul_mod_left]
  · intro i hi hlo hhi
    have hne : i ≠ M * topK := Nat.ne_of_lt hi
    have hcount : ((routedGroups ids (M * topK) numExperts).flatMap snd).count i = 1 :=
      count_eq_one_of_mem
        (groups_nodup ((expertKeys_pairwise numExperts).imp fun h => ne_of_lt h) nodup_range)
        ((hmem i).mpr ⟨hi, hlo, hhi⟩)
    rw [← hreal, count_filter (by simpa using hne)] at hcount
    exact hcount
  · intro i hi
    by_cases hpad : i = M * topK
    · exact .inl hpad
    · have hin : i ∈ (paddedIds ids M topK blockSize numExperts).filter (· ≠ M * topK) :=
        mem_filter.mpr ⟨hi, by simpa using hpad⟩
      rw [hreal] at hin
      exact .inr ((hmem i).mp hin)
  · rw [hreal]
    exact groups_pairwise (expertKeys_pairwise numExperts) pairwise_lt_range
  · rw [hlength, Nat.mul_div_cancel _ hblock]
  · intro k i hk hne
    obtain ⟨g, hg, hi, htable⟩ := table_spec hblock hk hne
    rw [(mem_groups hg hi).2.1]
    exact htable

include hblock in
lemma paddedIds_length_le {es : List ℤ} (hes : ∀ i < M * topK, 0 ≤ ids i → ids i < numExperts → ids i ∈ es) :
    (paddedIds ids M topK blockSize numExperts).length ≤ M * topK + es.length * blockSize := by
  have hnodup : ((range numExperts).map fun e : ℕ => (e : ℤ)).Nodup :=
    (expertKeys_pairwise numExperts).imp fun h => ne_of_lt h
  have htokens : ((routedGroups ids (M * topK) numExperts).flatMap snd).length ≤ M * topK := by
    have hle : ((routedGroups ids (M * topK) numExperts).flatMap snd).length ≤
        (range (M * topK)).length := groups_length_le hnodup nodup_range
    rwa [length_range] at hle
  have hbusy : ((routedGroups ids (M * topK) numExperts).filter fun g => g.2 ≠ []).length ≤
      es.length := by
    have hkeys : (((routedGroups ids (M * topK) numExperts).filter fun g => g.2 ≠ []).map
        fst).Nodup := by
      apply List.Nodup.sublist (filter_sublist.map fst)
      simpa [routedGroups, groups, Function.comp_def] using hnodup
    have hsub : (((routedGroups ids (M * topK) numExperts).filter fun g => g.2 ≠ []).map
        fst) ⊆ es := by
      intro e he
      obtain ⟨g, hg, rfl⟩ := mem_map.mp he
      obtain ⟨hg, hne⟩ := mem_filter.mp hg
      obtain ⟨i, hi⟩ := exists_mem_of_ne_nil g.2 (by simpa using hne)
      obtain ⟨hrange, hkey, hexpert⟩ := mem_groups hg hi
      rw [← hkey] at hexpert ⊢
      rw [mem_expertKeys] at hexpert
      exact hes i (mem_range.mp hrange) hexpert.1 hexpert.2
    have hle := (subperm_of_subset hkeys hsub).length_le
    rwa [length_map] at hle
  have hlayout := layout_length_le hblock (M * topK) (routedGroups ids (M * topK) numExperts)
  have := Nat.mul_le_mul_right blockSize hbusy
  unfold paddedIds
  omega

end

/-! ## The callers -/

section

variable (ids : ℕ → ℤ) (M topK numExperts : ℕ) {blockSize : ℕ} (hblock : 0 < blockSize)

lemma resize_overwrite {α : Type} {fill : α} {buf v : List α} :
    resize v.length fill (overwrite buf 0 v) = v := by
  unfold resize
  simp [overwrite]

include hblock in
lemma moeAlignBlockSize_fits {es : List ℤ}
    (hes : ∀ i < M * topK, 0 ≤ ids i → ids i < numExperts → ids i ∈ es) {sortedIds : List ℕ}
    {expertIds : List ℤ} (hsorted : M * topK + es.length * blockSize ≤ sortedIds.length)
    (hexperts : (M * topK + es.length * blockSize) / blockSize ≤ expertIds.length) :
    moeAlignBlockSize ids M topK blockSize numExperts sortedIds expertIds =
      .ok ((paddedIds ids M topK blockSize numExperts).length,
        overwrite sortedIds 0 (paddedIds ids M topK blockSize numExperts),
        overwrite expertIds 0 (blockExperts ids M topK blockSize numExperts)) ∧
      (paddedIds ids M topK blockSize numExperts).length ≤ sortedIds.length ∧
      (blockExperts ids M topK blockSize numExperts).length ≤ expertIds.length := by
  have hle := paddedIds_length_le ids M topK numExperts hblock hes
  have hblocks : (blockExperts ids M topK blockSize numExperts).length ≤
      (M * topK + es.length * blockSize) / blockSize := by
    rw [Nat.le_div_iff_mul_le hblock, ← paddedIds_length ids M topK numExperts hblock]
    exact hle
  exact ⟨moeAlignBlockSize_eq ids M topK numExperts hblock (by omega) (by omega), by omega,
    by omega⟩

include hblock in
lemma moeAlignBlockSize_fresh {es : List ℤ}
    (hes : ∀ i < M * topK, 0 ≤ ids i → ids i < numExperts → ids i ∈ es) {cap : ℕ}
    (hcap : cap = M * topK + es.length * blockSize + 1) :
    moeAlignBlockSize ids M topK blockSize numExperts (replicate cap 0) (replicate (cap / blockSize + 1) 0) =
      .ok ((paddedIds ids M topK blockSize numExperts).length,
        overwrite (replicate cap 0) 0 (paddedIds ids M topK blockSize numExperts),
        overwrite (replicate (cap / blockSize + 1) 0) 0 (blockExperts ids M topK blockSize numExperts)) ∧
      (paddedIds ids M topK blockSize numExperts).length ≤ cap ∧
      (blockExperts ids M topK blockSize numExperts).length ≤ cap / blockSize + 1 := by
  have hdiv : (M * topK + es.length * blockSize) / blockSize ≤ cap / blockSize :=
    Nat.div_le_div_right (by omega)
  have hfits := moeAlignBlockSize_fits ids M topK numExperts hblock hes
    (show _ ≤ (replicate cap 0).length by rw [length_replicate]; omega)
    (show _ ≤ (replicate (cap / blockSize + 1) 0).length by
      rw [length_replicate]; omega)
  rwa [length_replicate, length_replicate] at hfits

include hblock in
lemma blocks_div : (paddedIds ids M topK blockSize numExperts).length / blockSize =
    (blockExperts ids M topK blockSize numExperts).length := by
  rw [paddedIds_length ids M topK numExperts hblock, Nat.mul_div_cancel _ hblock]

include hblock in
/-- The tensor-parallel caller gets the layout itself. -/
lemma alignTp_eq : alignTp ids M topK blockSize numExperts = .ok ((paddedIds ids M topK blockSize numExperts).length,
      paddedIds ids M topK blockSize numExperts, blockExperts ids M topK blockSize numExperts) ∧
    (paddedIds ids M topK blockSize numExperts).length ≤ M * topK + numExperts * blockSize + 1 := by
  have hkeys : ∀ i < M * topK, 0 ≤ ids i → ids i < numExperts →
      ids i ∈ (range numExperts).map fun e : ℕ => (e : ℤ) :=
    fun i _ hlo hhi => (mem_expertKeys numExperts).mpr ⟨hlo, hhi⟩
  obtain ⟨halign, hsorted, hexperts⟩ := moeAlignBlockSize_fresh ids M topK numExperts hblock hkeys
    rfl
  rw [length_map, length_range] at halign hsorted hexperts
  refine ⟨?_, hsorted⟩
  unfold alignTp
  dsimp only
  rw [halign, ok_bind]
  show Except.ok _ = Except.ok _
  rw [resize_overwrite, blocks_div ids M topK numExperts hblock,
    resize_overwrite]

lemma mask_nonneg {plan : MoeEPPlan} {i : ℕ} (h : 0 ≤ plan.mask ids i) :
    plan.mask ids i = ids i ∧ (plan.expertBegin : ℤ) ≤ ids i ∧ ids i < plan.expertEnd := by
  unfold MoeEPPlan.mask at h ⊢
  split
  · rename_i hin
    exact ⟨rfl, hin.1, hin.2⟩
  · rename_i hout
    omega

include hblock in
lemma mem_blockExperts {e : ℤ} (he : e ∈ blockExperts ids M topK blockSize numExperts) :
    ∃ i < M * topK, ids i = e ∧ 0 ≤ e ∧ e < numExperts := by
  obtain ⟨g, hg, hmem⟩ := mem_flatMap.mp he
  obtain ⟨hne, rfl⟩ := mem_replicate.mp hmem
  have hgroup : g.2 ≠ [] := by
    intro hnil
    rw [hnil, length_nil, blocksFor_zero hblock] at hne
    exact hne rfl
  obtain ⟨i, hi⟩ := exists_mem_of_ne_nil g.2 hgroup
  obtain ⟨hrange, hkey, hexpert⟩ := mem_groups hg hi
  obtain ⟨hlo, hhi⟩ := (mem_expertKeys numExperts).mp hexpert
  exact ⟨i, mem_range.mp hrange, hkey, hlo, hhi⟩

/-- Rewriting the written entries of a buffer in place. -/
lemma resize_mapIdx {α : Type} {fill : α} {buf v : List α} {f : ℕ → α → α} {g : α → α}
    (h : v.length ≤ buf.length) (hf : ∀ b < v.length, ∀ e ∈ v, f b e = g e) :
    resize v.length fill ((overwrite buf 0 v).mapIdx f) = v.map g := by
  have hlen : (overwrite buf 0 v).length = buf.length := overwrite_length (by omega)
  unfold resize
  rw [length_mapIdx, hlen, Nat.sub_eq_zero_of_le h, replicate_zero, append_nil]
  refine ext_getElem? fun b => ?_
  rw [getElem?_take, getElem?_map]
  by_cases hb : b < v.length
  · rw [if_pos hb, getElem?_mapIdx, getElem?_overwrite (by omega), if_pos (by omega),
      Nat.sub_zero, getElem?_eq_getElem hb]
    exact congrArg some (hf b hb _ (getElem_mem hb))
  · rw [if_neg hb, getElem?_eq_none (by omega)]
    rfl

include hblock in
lemma moeEpDispatch_eq {plan : MoeEPPlan} (hplan : plan.numLocal = plan.expertEnd - plan.expertBegin) :
    moeEpDispatch ids M topK numExperts blockSize plan =
      .ok ((paddedIds (plan.mask ids) M topK blockSize numExperts).length,
        paddedIds (plan.mask ids) M topK blockSize numExperts,
        (blockExperts (plan.mask ids) M topK blockSize numExperts).map (· - plan.expertBegin)) ∧
    (paddedIds (plan.mask ids) M topK blockSize numExperts).length ≤ M * topK + plan.numLocal * blockSize + 1 := by
  have hkeys : ∀ i < M * topK, 0 ≤ plan.mask ids i → plan.mask ids i < numExperts →
      plan.mask ids i ∈ (range plan.numLocal).map fun e : ℕ => (plan.expertBegin + e : ℤ) := by
    intro i _ hlo _
    obtain ⟨hid, hbegin, hend⟩ := mask_nonneg ids hlo
    rw [mem_map]
    exact ⟨(ids i - plan.expertBegin).toNat, mem_range.mpr (by omega), by omega⟩
  obtain ⟨halign, hsorted, hexperts⟩ := moeAlignBlockSize_fresh _ M topK numExperts
    hblock hkeys rfl
  rw [length_map, length_range] at halign hsorted hexperts
  refine ⟨?_, hsorted⟩
  unfold moeEpDispatch
  rw [expects_of hblock, ok_bind]
  dsimp only
  rw [halign, ok_bind]
  show Except.ok _ = Except.ok _
  rw [resize_overwrite, blocks_div _ M topK numExperts hblock]
  have hlocal : ∀ b < (blockExperts (plan.mask ids) M topK blockSize numExperts).length,
      ∀ e ∈ blockExperts (plan.mask ids) M topK blockSize numExperts,
        (if b < (blockExperts (plan.mask ids) M topK blockSize numExperts).length ∧ e ≥ 0
          then e - plan.expertBegin else e) = e - plan.expertBegin := by
    intro b hb e he
    obtain ⟨i, _, hid, hlo, _⟩ := mem_blockExperts _ M topK numExperts hblock he
    exact if_pos ⟨hb, hlo⟩
  rw [resize_mapIdx (by simpa using hexperts) hlocal]

lemma moeEpPlan_numLocal {numExperts ep rank : ℕ} {plan : MoeEPPlan} (h : moeEpPlan numExperts ep rank = .ok plan) :
    plan.numLocal = plan.expertEnd - plan.expertBegin := by
  obtain ⟨_, h⟩ := expects_ok.mp h
  simp only [expects_ok] at h
  obtain ⟨_, _, h⟩ := h
  cases h
  rfl

end

/-- Expert 1 has no token, and takes no block. -/
example : alignTp (fun i => if i = 1 then 0 else 2) 3 1 2 3 = .ok (4, [1, 3, 0, 2], [0, 2]) := rfl

end VKernels.Moe
