import VKernels.Lib.PyDict
import VKernels.Moe.AlignBlockSize

/-!
# Block alignment with an expert map

`moe_align_block_size_with_map` of `vllm_experts.py`.  Sizes are naturals and `block_size` is positive, as in its
callers; the ids and the map hold integers of any value.

* `perLocal` — the flat indices of each local expert; `moeAlignBlockSizeWithMap` — the aligned layout.
* `localGroups` — the flat indices of each of a list of local experts.

## Results

* `moeAlignBlockSizeWithMap_eq` — the loops write the groups of the local experts that are present, in order, or one
  block of padding.
* `moeAlignBlockSizeWithMap_error` — an id outside the map ends the call.
-/

namespace VKernels.Moe

open Comm (bind_ok)
open Blocks Grouping PyDict
open List

/-! ## `moe_align_block_size_with_map` -/

/-- `a[i]` of a numpy array: a negative index counts from the end. -/
def npIndex (a : List ℤ) (i : ℤ) : Except String ℤ :=
  let j := if i < 0 then i + a.length else i
  if 0 ≤ j ∧ j < a.length then .ok (a.getD j.toNat 0)
  else .error ("index " ++ toString i ++ " is out of bounds for axis 0 with size " ++ toString a.length)

lemma npIndex_cases (a : List ℤ) (i : ℤ) : (∃ text, npIndex a i = .error text) ∨
    (0 ≤ i ∧ i < a.length ∧ npIndex a i = .ok (a.getD i.toNat 0)) ∨
    (-a.length ≤ i ∧ i < 0 ∧ npIndex a i = .ok (a.getD (i + a.length).toNat 0)) := by
  unfold npIndex
  by_cases hneg : i < 0
  · rw [if_pos hneg]
    by_cases hin : 0 ≤ i + a.length ∧ i + a.length < a.length
    · exact .inr (.inr ⟨by omega, hneg, if_pos hin⟩)
    · exact .inl ⟨_, if_neg hin⟩
  · rw [if_neg hneg]
    by_cases hin : 0 ≤ i ∧ i < a.length
    · exact .inr (.inl ⟨hin.1, hin.2, if_pos hin⟩)
    · exact .inl ⟨_, if_neg hin⟩

/-- The local expert of a routing entry, none when the map skips it. -/
def localExpert (expertMap : Option (List ℤ)) (globalE : ℤ) : Except String (Option ℤ) :=
  match expertMap with
  | some map => do
    let localE ← npIndex map globalE
    return if localE = -1 then none else some localE
  | none => .ok (some globalE)

/-- `per_local.setdefault(local_e, []).append(i)`, where the entry is not skipped. -/
def appendLocal (perLocal : Dict ℤ (List ℕ)) (localE : Option ℤ) (i : ℕ) : Dict ℤ (List ℕ) :=
  match localE with
  | some e => perLocal.set e ((perLocal.get? e).getD [] ++ [i])
  | none => perLocal

variable (topkIdsFlat : ℕ → ℤ) (N blockSize : ℕ) (expertMap : Option (List ℤ))

def perLocal : Except String (Dict ℤ (List ℕ)) :=
  (List.range N).foldlM (fun d i => do
    let localE ← localExpert expertMap (topkIdsFlat i)
    return appendLocal d localE i) Dict.empty

/-- `if b * block_size < len(tokens): expert_ids[blk] = e`, then `blk += 1`. -/
def putReal (tokens : List ℕ) (e : ℤ) (c : Cursor ℤ) (b : ℕ) : Except String (Cursor ℤ) :=
  if b * blockSize < tokens.length then c.put e else .ok ⟨c.buf, c.idx + 1⟩

/-- Returns `sorted_ids`, `expert_ids` and `EM`. -/
def moeAlignBlockSizeWithMap : Except String (List ℕ × List ℤ × ℕ) := do
  let perLocal ← perLocal topkIdsFlat N expertMap
  let localExperts := perLocal.keys.insertionSort (· ≤ ·)
  let em := (localExperts.map fun e =>
    (((perLocal.get? e).getD []).length + blockSize - 1) / blockSize * blockSize).sum
  -- at least one block
  let em := if em = 0 then blockSize else em
  let (sorted, experts) ← localExperts.foldlM (fun (c : Cursor ℕ × Cursor ℤ) e => do
    let tokens := (perLocal.get? e).getD []
    let sorted ← c.1.putAll tokens
    let padded := (tokens.length + blockSize - 1) / blockSize * blockSize
    let numBlocks := padded / blockSize
    let experts ← (List.range numBlocks).foldlM (putReal blockSize tokens e) c.2
    let sorted ← sorted.putAll (List.replicate (padded - tokens.length) N)
    return (sorted, experts)) (⟨List.replicate em N, 0⟩, ⟨List.replicate (em / blockSize) (-1), 0⟩)
  return (sorted.buf, experts.buf, em)

/-! ## The groups -/

def localGroups (loc : ℕ → Option ℤ) (N : ℕ) (experts : List ℤ) : List (ℤ × List ℕ) :=
  experts.map fun e => (e, (List.range N).filter fun i => loc i = some e)

section

variable (loc : ℕ → Option ℤ) (N : ℕ)

/-- The loop of `perLocal`, when no lookup fails. -/
def collectLocal : Dict ℤ (List ℕ) := (List.range N).foldl (fun d i => appendLocal d (loc i) i) Dict.empty

lemma getD_collectLocal (e : ℤ) :
    ((collectLocal loc N).get? e).getD [] = (range N).filter fun i => loc i = some e := by
  induction N with
  | zero => rfl
  | succ N ih =>
    unfold collectLocal at ih ⊢
    rw [range_succ, foldl_concat, filter_append, ← ih]
    cases hloc : loc N with
    | none => simp [appendLocal, hloc]
    | some e' =>
      rw [appendLocal, Dict.get?_set]
      by_cases he : e = e'
      · subst he
        simp [hloc]
      · have hne : e' ≠ e := Ne.symm he
        simp [he, hne, hloc]

lemma mem_keys_collectLocal (e : ℤ) : e ∈ (collectLocal loc N).keys ↔ ∃ i < N, loc i = some e := by
  rw [Dict.mem_keys]
  induction N with
  | zero =>
    constructor
    · rintro ⟨v, hv⟩
      cases hv
    · rintro ⟨i, hi, _⟩
      exact absurd hi (Nat.not_lt_zero i)
  | succ N ih =>
    have hlast : (∃ i < N + 1, loc i = some e) ↔ (∃ i < N, loc i = some e) ∨ loc N = some e := by
      constructor
      · rintro ⟨i, hi, hloc⟩
        rcases Nat.lt_succ_iff_lt_or_eq.mp hi with hlt | rfl
        · exact .inl ⟨i, hlt, hloc⟩
        · exact .inr hloc
      · rintro (⟨i, hi, hloc⟩ | hloc)
        · exact ⟨i, Nat.lt_succ_of_lt hi, hloc⟩
        · exact ⟨N, Nat.lt_succ_self N, hloc⟩
    rw [hlast, ← ih]
    unfold collectLocal
    rw [range_succ, foldl_concat]
    cases hloc : loc N with
    | none => simp [appendLocal]
    | some e' =>
      rw [appendLocal]
      by_cases he : e = e'
      · simp [he]
      · have hne : e' ≠ e := Ne.symm he
        simp [he, hne]

def presentExperts : List ℤ := (collectLocal loc N).keys.insertionSort (· ≤ ·)

lemma mem_presentExperts {e : ℤ} : e ∈ presentExperts loc N ↔ ∃ i < N, loc i = some e := by
  rw [presentExperts, mem_insertionSort, mem_keys_collectLocal]

lemma presentExperts_pairwise : (presentExperts loc N).Pairwise (· < ·) := by
  have hnodup : (presentExperts loc N).Nodup := (perm_insertionSort _ _).nodup_iff.mpr (collectLocal loc N).nodup
  have hsorted : (presentExperts loc N).Pairwise (· ≤ ·) := pairwise_insertionSort _ _
  exact (hsorted.and hnodup).imp fun h => lt_of_le_of_ne h.1 h.2

end

/-! ## What the loops write -/

section

/-- A loop of writes through two cursors. -/
lemma foldlM_pair {I α β : Type} {f : I → List α} {g : I → List β}
    {body : Cursor α × Cursor β → I → Except String (Cursor α × Cursor β)}
    (hbody : ∀ i c s x, c.1.putAll (f i) = .ok s → c.2.putAll (g i) = .ok x → body c i = .ok (s, x)) :
    ∀ (is : List I) (c : Cursor α × Cursor β) (s : Cursor α) (x : Cursor β),
      c.1.putAll (is.flatMap f) = .ok s → c.2.putAll (is.flatMap g) = .ok x → is.foldlM body c = .ok (s, x)
  | [], c, s, x, hs, hx => by
    cases hs
    cases hx
    rfl
  | i :: is, c, s, x, hs, hx => by
    rw [flatMap_cons, Cursor.putAll_append] at hs hx
    obtain ⟨s₁, hs₁, hs⟩ := bind_ok.mp hs
    obtain ⟨x₁, hx₁, hx⟩ := bind_ok.mp hx
    rw [foldlM_cons, hbody i c s₁ x₁ hs₁ hx₁]
    exact foldlM_pair hbody is _ s x hs hx

variable {blockSize : ℕ} (hblock : 0 < blockSize)
include hblock

lemma foldlM_putReal (tokens : List ℕ) (e : ℤ) (c : Cursor ℤ) :
    (range ((tokens.length + blockSize - 1) / blockSize * blockSize / blockSize)).foldlM
      (putReal blockSize tokens e) c = c.putAll (replicate (blocksFor blockSize tokens.length) e) := by
  rw [Nat.mul_div_cancel _ hblock]
  have hreal : ∀ (bs : List ℕ) (c : Cursor ℤ), (∀ b ∈ bs, b < blocksFor blockSize tokens.length) →
      bs.foldlM (putReal blockSize tokens e) c = c.putAll (replicate bs.length e) := by
    intro bs
    induction bs with
    | nil => exact fun c _ => rfl
    | cons b bs ih =>
      intro c hbs
      have hlt : b * blockSize < tokens.length := block_start_lt hblock (hbs b mem_cons_self)
      have hput : putReal blockSize tokens e c b = c.put e := if_pos hlt
      rw [foldlM_cons, hput, length_cons, replicate_succ]
      exact congrArg _ (funext fun c => ih c fun b hb => hbs b (mem_cons_of_mem _ hb))
  show (range (blocksFor blockSize tokens.length)).foldlM (putReal blockSize tokens e) c = _
  rw [hreal _ c fun b hb => mem_range.mp hb, length_range]

end

section

/-- `EM`: the rows of the groups, or one block when there are none. -/
def rowsEM (gs : List (ℤ × List ℕ)) : ℕ :=
  if (layout blockSize N gs).length = 0 then blockSize else (layout blockSize N gs).length

/-- `sorted_ids`: the groups in blocks, then padding. -/
def alignedRows (gs : List (ℤ × List ℕ)) (rows : ℕ) : List ℕ :=
  layout blockSize N gs ++ List.replicate (rows - (layout blockSize N gs).length) N

/-- `expert_ids`: the expert of each block, then padding. -/
def alignedExperts (gs : List (ℤ × List ℕ)) (rows : ℕ) : List ℤ :=
  table blockSize gs ++ List.replicate (rows / blockSize - (table blockSize gs).length) (-1)

lemma perLocal_eq {loc : ℕ → Option ℤ} (hloc : ∀ i < N, localExpert expertMap (topkIdsFlat i) = .ok (loc i)) :
    perLocal topkIdsFlat N expertMap = .ok (collectLocal loc N) := by
  induction N with
  | zero => rfl
  | succ N ih =>
    have hprev := ih fun i hi => hloc i (Nat.lt_succ_of_lt hi)
    unfold perLocal collectLocal at hprev ⊢
    rw [range_succ, foldlM_append, hprev, ok_bind, foldl_append, foldlM_cons, hloc N (Nat.lt_succ_self N)]
    rfl

variable {blockSize}

lemma rowsEM_ge (gs : List (ℤ × List ℕ)) : (layout blockSize N gs).length ≤ rowsEM N blockSize gs := by
  unfold rowsEM
  split
  · omega
  · exact le_rfl

variable (hblock : 0 < blockSize)
include hblock

lemma rowsEM_pos (gs : List (ℤ × List ℕ)) : 0 < rowsEM N blockSize gs := by
  unfold rowsEM
  split
  · exact hblock
  · omega

lemma rowsEM_dvd (gs : List (ℤ × List ℕ)) : blockSize ∣ rowsEM N blockSize gs := by
  unfold rowsEM
  split
  · exact dvd_rfl
  · exact ⟨_, (layout_length hblock N gs).trans (mul_comm _ _)⟩

lemma table_length_le (gs : List (ℤ × List ℕ)) : (table blockSize gs).length ≤ rowsEM N blockSize gs / blockSize := by
  rw [Nat.le_div_iff_mul_le hblock, ← layout_length hblock]
  exact rowsEM_ge N gs

lemma sum_padded (loc : ℕ → Option ℤ) (experts : List ℤ) :
    (experts.map fun e => ((((collectLocal loc N).get? e).getD []).length + blockSize - 1) / blockSize *
      blockSize).sum = (layout blockSize N (localGroups loc N experts)).length := by
  induction experts with
  | nil => rfl
  | cons e experts ih =>
    rw [map_cons, sum_cons, ih, getD_collectLocal]
    simp [localGroups, layout, map_cons, flatMap_cons, length_append, fillUp_length hblock, blocksFor]

/-- **What the call returns**, when no lookup fails. -/
theorem moeAlignBlockSizeWithMap_eq {loc : ℕ → Option ℤ}
    (hloc : ∀ i < N, localExpert expertMap (topkIdsFlat i) = .ok (loc i)) {gs : List (ℤ × List ℕ)} {em : ℕ}
    (hgs : gs = localGroups loc N (presentExperts loc N)) (hem : em = rowsEM N blockSize gs) :
    moeAlignBlockSizeWithMap topkIdsFlat N blockSize expertMap =
      .ok (alignedRows N blockSize gs em, alignedExperts blockSize gs em, em) := by
  have hrows : (layout blockSize N gs).length ≤ em := hem ▸ rowsEM_ge N gs
  have hblocks : (table blockSize gs).length ≤ em / blockSize := hem ▸ table_length_le N hblock gs
  have hsum : ((presentExperts loc N).map fun e => ((((collectLocal loc N).get? e).getD []).length + blockSize - 1) /
      blockSize * blockSize).sum = (layout blockSize N gs).length := by
    rw [hgs]
    exact sum_padded N hblock loc _
  have hsorted : (⟨replicate em N, 0⟩ : Cursor ℕ).putAll ((presentExperts loc N).flatMap fun e =>
      fillUp blockSize N (((collectLocal loc N).get? e).getD [])) =
      .ok ⟨alignedRows N blockSize gs em, 0 + (layout blockSize N gs).length⟩ := by
    have hflat : ((presentExperts loc N).flatMap fun e =>
        fillUp blockSize N (((collectLocal loc N).get? e).getD [])) = layout blockSize N gs := by
      rw [hgs, layout, localGroups, flatMap_map]
      exact flatMap_congr fun e _ => by rw [getD_collectLocal]
    rw [hflat, Cursor.putAll_ok (by rw [length_replicate]; omega)]
    simp [alignedRows, overwrite]
  have hexperts : (⟨replicate (em / blockSize) (-1), 0⟩ : Cursor ℤ).putAll ((presentExperts loc N).flatMap fun e =>
      replicate (blocksFor blockSize (((collectLocal loc N).get? e).getD []).length) e) =
      .ok ⟨alignedExperts blockSize gs em, 0 + (table blockSize gs).length⟩ := by
    have hflat : ((presentExperts loc N).flatMap fun e =>
        replicate (blocksFor blockSize (((collectLocal loc N).get? e).getD []).length) e) =
        table blockSize gs := by
      rw [hgs, table, localGroups, flatMap_map]
      exact flatMap_congr fun e _ => by rw [getD_collectLocal]
    rw [hflat, Cursor.putAll_ok (by rw [length_replicate]; omega)]
    simp [alignedExperts, overwrite]
  have hbody : ∀ (e : ℤ) (c : Cursor ℕ × Cursor ℤ) (s : Cursor ℕ) (x : Cursor ℤ),
      c.1.putAll (fillUp blockSize N (((collectLocal loc N).get? e).getD [])) = .ok s →
      c.2.putAll (replicate (blocksFor blockSize (((collectLocal loc N).get? e).getD []).length) e) = .ok x → (do
        let tokens := ((collectLocal loc N).get? e).getD []
        let sorted ← c.1.putAll tokens
        let padded := (tokens.length + blockSize - 1) / blockSize * blockSize
        let numBlocks := padded / blockSize
        let experts ← (range numBlocks).foldlM (putReal blockSize tokens e) c.2
        let sorted ← sorted.putAll (replicate (padded - tokens.length) N)
        return (sorted, experts)) = Except.ok (s, x) := by
    intro e c s x hs hx
    unfold fillUp at hs
    rw [Cursor.putAll_append] at hs
    obtain ⟨_, hs₁, hs⟩ := bind_ok.mp hs
    unfold blocksFor at hs
    simp only [hs₁, ok_bind, foldlM_putReal hblock, hx, hs]
    rfl
  have hloop := foldlM_pair hbody _
    (⟨replicate em N, 0⟩, ⟨replicate _ (-1), 0⟩) _ _ hsorted hexperts
  unfold moeAlignBlockSizeWithMap
  rw [perLocal_eq topkIdsFlat N expertMap hloc, ok_bind]
  have hpresent : (collectLocal loc N).keys.insertionSort (· ≤ ·) = presentExperts loc N := rfl
  have hzero : (if (layout blockSize N gs).length = 0 then blockSize else (layout blockSize N gs).length) = em :=
    hem.symm
  simp only [hpresent, hsum, hzero, hloop]
  rfl

omit hblock in
lemma moeAlignBlockSizeWithMap_error {i : ℕ} (hi : i < N) {text : String}
    (herror : localExpert expertMap (topkIdsFlat i) = .error text) :
    ∃ text, moeAlignBlockSizeWithMap topkIdsFlat N blockSize expertMap = .error text := by
  have hlocal : ∃ text, perLocal topkIdsFlat N expertMap = .error text := by
    cases hperLocal : perLocal topkIdsFlat N expertMap with
    | error text => exact ⟨text, rfl⟩
    | ok d =>
      obtain ⟨_, _, hsplit⟩ := append_of_mem (mem_range.mpr hi)
      unfold perLocal at hperLocal
      rw [hsplit, foldlM_append] at hperLocal
      obtain ⟨_, _, hrest⟩ := bind_ok.mp hperLocal
      rw [foldlM_cons, herror] at hrest
      cases hrest
  obtain ⟨text, htext⟩ := hlocal
  refine ⟨text, ?_⟩
  unfold moeAlignBlockSizeWithMap
  rw [htext]
  rfl

end

end VKernels.Moe
