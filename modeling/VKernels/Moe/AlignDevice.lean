import VKernels.Moe.AlignWithMap

/-!
# Block alignment on the device

`moe_align_block_size_kernel` of `kernels/moe_fused.hip` behind `vk_hip_moe_align_block_size` of `capi/hip_capi.cpp`.
One block of threads; the parts between two barriers touch shared memory at the thread's own index, except for the
histogram, whose atomic additions come in any order.  A sum of `int`s that is out of range is undefined.

* `vkHipMoeAlignBlockSize` — the checks; `threads` — the threads of the launch.
* `EntryOk` — the routing entry names an expert, or the map skips it.

## Results

* `deviceKernel_eq` — the kernel writes the groups of all local experts in order.
* `device_align_iff` — the kernel's buffers are those of `moe_align_block_size_with_map` exactly if every entry is in
  range and no padded count overflows.
-/

namespace VKernels.Moe

open Comm (bind_ok)
open Blocks Grouping
open List
open Function (update update_of_ne update_self)
open Option (bind_eq_bind bind_some)

/-! ## The C entry -/

inductive Status
  | ok
  | invalidArgument
  | unsupported
  deriving DecidableEq

/-- `vk_hip_moe_align_block_size`: `null` says which of the routing buffers are missing, `nullEM` whether `out_EM` is. -/
def vkHipMoeAlignBlockSize (M topK blockSize numExperts localN maxEM : ℤ) (null nullEM : Bool) : Status :=
  if blockSize ≤ 0 then .invalidArgument
  else if M < 0 ∨ topK < 0 ∨ numExperts < 0 ∨ localN < 0 ∨ maxEM < 0 then .invalidArgument
  else if maxEM = 0 ∨ maxEM % blockSize ≠ 0 then .invalidArgument
  else if localN > numExperts then .invalidArgument
  else if nullEM then .invalidArgument
  else if M > 0 ∧ null then .invalidArgument
  else if M * topK > 1024 then .unsupported
  else .ok

def threads (N localN : ℕ) : ℕ := min (max (((if N > localN then N else localN) + 63) / 64 * 64) 64) 1024

lemma le_threads {N : ℕ} (hN : N ≤ 1024) (localN : ℕ) : N ≤ threads N localN := by
  unfold threads
  split <;> omega

/-! ## The kernel -/

/-- A sum of `int`s. -/
def int32 (x : ℕ) : Option ℕ := if x < 2 ^ 31 then some x else none

variable (topkIds : ℕ → ℤ) (expertMap : Option (List ℤ))

section

variable (numExperts localN N blockSize maxEM : ℕ)

/-- `s_le[i]`. -/
def deviceLocal (i : ℕ) : ℤ :=
  let ge := topkIds i
  let le : ℤ := if ge < 0 ∨ ge ≥ numExperts then -1 else
    match expertMap with
    | some map => map.getD ge.toNat 0
    | none => ge
  if le < 0 ∨ le ≥ localN then -1 else le

/-- `my_le` of a thread. -/
def myLocal (tid : ℕ) : ℤ := if tid < N then deviceLocal topkIds expertMap numExperts localN tid else -1

/-- `s_count` after the threads' additions in this order. -/
def histogram (order : List ℕ) : ℕ → ℕ :=
  order.foldl (fun count tid =>
    let le := myLocal topkIds expertMap numExperts localN N tid
    if le ≥ 0 then update count le.toNat (count le.toNat + 1) else count) fun _ => 0

/-- The rows of an expert. -/
def devicePadded (cnt : ℕ) : Option ℕ :=
  if cnt = 0 then some 0 else do
    let sum ← int32 (cnt + blockSize)
    int32 ((sum - 1) / blockSize * blockSize)

/-- Phase B: `s_offset` and the rows of all experts. -/
def prefixOffsets (count : ℕ → ℕ) : Option ((ℕ → ℕ) × ℕ) :=
  (List.range localN).foldlM (fun (offset, em) e => do
    let padded ← devicePadded blockSize (count e)
    let next ← int32 (em + padded)
    return (update offset e em, next)) (fun _ => 0, 0)

/-- Phase C: `sorted_ids` and `s_rank`. -/
def scatter (offset : ℕ → ℕ) : List ℕ × (ℕ → ℕ) :=
  (List.range N).foldl (fun (sorted, rank) i =>
    let le := deviceLocal topkIds expertMap numExperts localN i
    if le < 0 then (sorted, rank) else
      let pos := offset le.toNat + rank le.toNat
      (if pos < maxEM then sorted.set pos i else sorted, update rank le.toNat (rank le.toNat + 1)))
    (List.replicate maxEM N, fun _ => 0)

/-- Phase C: `expert_ids` and `blk_idx`. -/
def writeExperts (count : ℕ → ℕ) : Option (List ℤ × ℕ) :=
  let maxBlocks := maxEM / blockSize
  (List.range localN).foldlM (fun (experts, blkIdx) e => do
    let cnt := count e
    if cnt = 0 then return (experts, blkIdx) else
      let padded ← devicePadded blockSize cnt
      let nblocks := padded / blockSize
      return (List.range nblocks).foldl (fun (experts, blkIdx) b =>
        if blkIdx < maxBlocks then (if b * blockSize < cnt then experts.set blkIdx (e : ℤ) else experts, blkIdx + 1)
        else (experts, blkIdx)) (experts, blkIdx)) (List.replicate maxBlocks (-1), 0)

/-- Returns `sorted_ids`, `expert_ids` and `out_EM`. -/
def deviceKernel (order : List ℕ) : Option (List ℕ × List ℤ × ℕ) := do
  let count := histogram topkIds expertMap numExperts localN N order
  let (offset, em) ← prefixOffsets localN blockSize count
  let em := if em = 0 then blockSize else em
  let em := if em > maxEM then maxEM else em
  let (sorted, _) := scatter topkIds expertMap numExperts localN N maxEM offset
  let (experts, _) ← writeExperts localN blockSize maxEM count
  return (sorted, experts, em)

end

/-! ## The phases -/

section

variable (numExperts localN N : ℕ) {blockSize maxEM : ℕ}

lemma deviceLocal_range (i : ℕ) : deviceLocal topkIds expertMap numExperts localN i = -1 ∨
    0 ≤ deviceLocal topkIds expertMap numExperts localN i ∧
      deviceLocal topkIds expertMap numExperts localN i < localN := by
  unfold deviceLocal
  dsimp only
  split <;> omega

/-- The flat indices below `k` of an expert. -/
def ranked (k e : ℕ) : List ℕ :=
  (List.range k).filter fun i => deviceLocal topkIds expertMap numExperts localN i = (e : ℤ)

lemma ranked_succ (k e : ℕ) : ranked topkIds expertMap numExperts localN (k + 1) e =
    if deviceLocal topkIds expertMap numExperts localN k = (e : ℤ)
    then ranked topkIds expertMap numExperts localN k e ++ [k] else ranked topkIds expertMap numExperts localN k e := by
  unfold ranked
  rw [range_succ, filter_append]
  split
  · rename_i h
    simp [h]
  · rename_i h
    simp [h]

/-- **The histogram** counts, whatever the order of the additions. -/
theorem histogram_eq {order : List ℕ} {nthr : ℕ} (horder : order.Perm (range nthr)) (hN : N ≤ nthr) (e : ℕ) :
    histogram topkIds expertMap numExperts localN N order e =
      (ranked topkIds expertMap numExperts localN N e).length := by
  have hfold : ∀ (l : List ℕ) (count : ℕ → ℕ), l.foldl (fun count tid =>
      let le := myLocal topkIds expertMap numExperts localN N tid
      if le ≥ 0 then update count le.toNat (count le.toNat + 1) else count) count e =
        count e + (l.filter fun tid => myLocal topkIds expertMap numExperts localN N tid = (e : ℤ)).length := by
    intro l
    induction l with
    | nil => exact fun count => rfl
    | cons tid l ih =>
      intro _
      rw [foldl_cons, ih]
      by_cases htid : myLocal topkIds expertMap numExperts localN N tid = (e : ℤ)
      · have hnonneg : myLocal topkIds expertMap numExperts localN N tid ≥ 0 := by omega
        rw [filter_cons_of_pos (by simpa using htid), length_cons]
        rw [if_pos hnonneg, htid, Int.toNat_natCast, update_self]
        omega
      · rw [filter_cons_of_neg (by simpa using htid)]
        split
        · have hne : e ≠ (myLocal topkIds expertMap numExperts localN N tid).toNat := by omega
          rw [update_of_ne hne]
        · rfl
  have hlocal : (range nthr).filter (fun tid => decide (myLocal topkIds expertMap numExperts localN N tid = (e : ℤ))) =
      ranked topkIds expertMap numExperts localN N e := by
    obtain ⟨k, rfl⟩ := Nat.exists_eq_add_of_le hN
    rw [range_add, filter_append]
    have hbelow : (range N).filter (fun tid => decide (myLocal topkIds expertMap numExperts localN N tid = (e : ℤ))) =
        ranked topkIds expertMap numExperts localN N e := by
      refine filter_congr fun tid htid => ?_
      rw [myLocal, if_pos (mem_range.mp htid)]
    have habove : ((range k).map (N + ·)).filter
        (fun tid => decide (myLocal topkIds expertMap numExperts localN N tid = (e : ℤ))) = [] := by
      refine filter_eq_nil_iff.mpr fun tid htid => ?_
      obtain ⟨j, _, rfl⟩ := mem_map.mp htid
      rw [myLocal, if_neg (by omega)]
      simp only [decide_eq_true_eq]
      omega
    rw [hbelow, habove, append_nil]
  unfold histogram
  rw [hfold, zero_add, (horder.filter _).length_eq, hlocal]

/-- The rows of the experts below `n`. -/
def rowsBelow (blockSize : ℕ) (count : ℕ → ℕ) (n : ℕ) : ℕ :=
  ((List.range n).map fun e => blocksFor blockSize (count e) * blockSize).sum

lemma rowsBelow_succ (blockSize : ℕ) (count : ℕ → ℕ) (n : ℕ) :
    rowsBelow blockSize count (n + 1) = rowsBelow blockSize count n + blocksFor blockSize (count n) * blockSize := by
  unfold rowsBelow
  rw [range_succ, map_append, sum_append]
  simp

variable {n cnt : ℕ}

lemma rowsBelow_mono (blockSize : ℕ) (count : ℕ → ℕ) {m : ℕ} (h : m ≤ n) :
    rowsBelow blockSize count m ≤ rowsBelow blockSize count n := by
  induction n, h using Nat.le_induction with
  | base => exact le_rfl
  | succ n _ ih =>
    rw [rowsBelow_succ]
    omega

/-- No padded count overflows. -/
def Fits (blockSize cnt : ℕ) : Prop := cnt = 0 ∨ cnt + blockSize < 2 ^ 31

lemma devicePadded_eq (hblock : 0 < blockSize) (hfits : Fits blockSize cnt)
    (hrows : blocksFor blockSize cnt * blockSize < 2 ^ 31) :
    devicePadded blockSize cnt = some (blocksFor blockSize cnt * blockSize) := by
  unfold devicePadded
  split
  · rename_i hzero
    rw [hzero, blocksFor_zero hblock, Nat.zero_mul]
  · rename_i hne
    have hsum : int32 (cnt + blockSize) = some (cnt + blockSize) := if_pos (hfits.resolve_left hne)
    have hmul : int32 ((cnt + blockSize - 1) / blockSize * blockSize) =
        some ((cnt + blockSize - 1) / blockSize * blockSize) := if_pos hrows
    simp only [hsum, bind_eq_bind, bind_some, hmul]
    rfl

lemma devicePadded_none (h : ¬ Fits blockSize cnt) : devicePadded blockSize cnt = none := by
  unfold Fits at h
  rw [not_or] at h
  have hsum : int32 (cnt + blockSize) = none := if_neg h.2
  unfold devicePadded
  rw [if_neg h.1, hsum]
  rfl

/-- **Phase B**: exclusive sums. -/
theorem prefixOffsets_eq (hblock : 0 < blockSize) {count : ℕ → ℕ} (hfits : ∀ e < n, Fits blockSize (count e))
    (hrows : rowsBelow blockSize count n < 2 ^ 31) :
    ∃ offset, prefixOffsets n blockSize count = some (offset, rowsBelow blockSize count n) ∧
      ∀ e < n, offset e = rowsBelow blockSize count e := by
  induction n with
  | zero => exact ⟨fun _ => 0, rfl, fun e he => absurd he (Nat.not_lt_zero e)⟩
  | succ n ih =>
    rw [rowsBelow_succ] at hrows
    obtain ⟨offset, hpre, hoffset⟩ := ih (fun e he => hfits e (Nat.lt_succ_of_lt he)) (by omega)
    refine ⟨update offset n (rowsBelow blockSize count n), ?_, fun e he => ?_⟩
    · have hpadded := devicePadded_eq hblock (hfits n (Nat.lt_succ_self n)) (by omega)
      have hnext : int32 (rowsBelow blockSize count n + blocksFor blockSize (count n) * blockSize) =
          some (rowsBelow blockSize count (n + 1)) := by
        rw [rowsBelow_succ]
        exact if_pos hrows
      unfold prefixOffsets at hpre ⊢
      rw [range_succ, foldlM_append, hpre]
      simp only [bind_eq_bind, bind_some, foldlM_cons, hpadded, hnext, foldlM_nil]
      rfl
    · by_cases hen : e = n
      · rw [hen, update_self]
      · rw [update_of_ne hen]
        exact hoffset e (by omega)

lemma prefixOffsets_none {count : ℕ → ℕ} {e : ℕ} (he : e < n) (h : ¬ Fits blockSize (count e)) :
    prefixOffsets n blockSize count = none := by
  obtain ⟨_, _, hsplit⟩ := append_of_mem (mem_range.mpr he)
  unfold prefixOffsets
  rw [hsplit, foldlM_append]
  refine Option.bind_eq_none_iff.mpr fun s _ => ?_
  rw [foldlM_cons, devicePadded_none h]
  rfl

/-- The rows of an expert after the entries below `k`. -/
def filled (blockSize : ℕ) (count : ℕ → ℕ) (k e : ℕ) : List ℕ :=
  ranked topkIds expertMap numExperts localN k e ++ List.replicate
    (blocksFor blockSize (count e) * blockSize - (ranked topkIds expertMap numExperts localN k e).length) N

lemma filled_length {count : ℕ → ℕ} {k e : ℕ}
    (hle : (ranked topkIds expertMap numExperts localN k e).length ≤ blocksFor blockSize (count e) * blockSize) :
    (filled topkIds expertMap numExperts localN N blockSize count k e).length =
      blocksFor blockSize (count e) * blockSize := by
  rw [filled, length_append, length_replicate]
  omega

lemma flatMap_filled_length {count : ℕ → ℕ} {k : ℕ}
    (hle : ∀ e, (ranked topkIds expertMap numExperts localN k e).length ≤ blocksFor blockSize (count e) * blockSize)
    (n : ℕ) : ((range n).flatMap (filled topkIds expertMap numExperts localN N blockSize count k)).length =
      rowsBelow blockSize count n := by
  rw [length_flatMap, rowsBelow]
  congr 1
  exact map_congr_left fun e _ => filled_length topkIds expertMap numExperts localN N (hle e)

lemma ranked_length_mono {k N : ℕ} (h : k ≤ N) (e : ℕ) : (ranked topkIds expertMap numExperts localN k e).length ≤
      (ranked topkIds expertMap numExperts localN N e).length :=
  ((range_sublist.mpr h).filter _).length_le

/-- **Phase C** writes every entry at its rank among those of its expert. -/
theorem scatter_eq (hblock : 0 < blockSize) {count offset : ℕ → ℕ}
    (hcount : ∀ e, count e = (ranked topkIds expertMap numExperts localN N e).length)
    (hoffset : ∀ e < localN, offset e = rowsBelow blockSize count e) (hmax : rowsBelow blockSize count localN ≤ maxEM) :
    (scatter topkIds expertMap numExperts localN N maxEM offset).1 =
      (range localN).flatMap (filled topkIds expertMap numExperts localN N blockSize count N) ++
        replicate (maxEM - rowsBelow blockSize count localN) N := by
  have hcap : ∀ k ≤ N, ∀ e, (ranked topkIds expertMap numExperts localN k e).length ≤
      blocksFor blockSize (count e) * blockSize := fun k hk e => by
    have := ranked_length_mono topkIds expertMap numExperts localN hk e
    have := le_blocksFor hblock (count e)
    have := hcount e
    omega
  have hloop : ∀ k ≤ N, (range k).foldl (fun (s : List ℕ × (ℕ → ℕ)) i =>
      let le := deviceLocal topkIds expertMap numExperts localN i
      if le < 0 then (s.1, s.2) else
        let pos := offset le.toNat + s.2 le.toNat
        (if pos < maxEM then s.1.set pos i else s.1, update s.2 le.toNat (s.2 le.toNat + 1)))
      (replicate maxEM N, fun _ => 0) =
      ((range localN).flatMap (filled topkIds expertMap numExperts localN N blockSize count k) ++
        replicate (maxEM - rowsBelow blockSize count localN) N,
        fun e => (ranked topkIds expertMap numExperts localN k e).length) := by
    intro k
    induction k with
    | zero =>
      intro _
      have hreplicate : (range localN).flatMap (filled topkIds expertMap numExperts localN N blockSize count 0) =
          replicate (rowsBelow blockSize count localN) N := by
        rw [eq_replicate_iff]
        refine ⟨flatMap_filled_length topkIds expertMap numExperts localN N (hcap 0 (Nat.zero_le N)) localN, ?_⟩
        intro x hx
        obtain ⟨e, _, hxe⟩ := mem_flatMap.mp hx
        exact eq_of_mem_replicate hxe
      rw [hreplicate, replicate_append_replicate, Nat.add_sub_cancel' hmax]
      rfl
    | succ k ih =>
      intro hk
      rw [range_succ, foldl_concat, ih (Nat.le_of_succ_le hk)]
      dsimp only
      split
      · -- the entry is skipped
        have hsame : ranked topkIds expertMap numExperts localN (k + 1) = ranked topkIds expertMap numExperts localN k := by
          funext e
          rw [ranked_succ, if_neg (by omega)]
        have hfilled : filled topkIds expertMap numExperts localN N blockSize count (k + 1) =
            filled topkIds expertMap numExperts localN N blockSize count k := by
          funext e
          rw [filled, filled, hsame]
        rw [hfilled, hsame]
      · have hlocal := (deviceLocal_range topkIds expertMap numExperts localN k).resolve_left (by omega)
        generalize he : (deviceLocal topkIds expertMap numExperts localN k).toNat = e
        have hlt : e < localN := by omega
        have hself : ranked topkIds expertMap numExperts localN (k + 1) e =
            ranked topkIds expertMap numExperts localN k e ++ [k] := by
          rw [ranked_succ, if_pos (by omega)]
        have hother : ∀ e' ≠ e, ranked topkIds expertMap numExperts localN (k + 1) e' =
            ranked topkIds expertMap numExperts localN k e' := by
          intro e' hne
          rw [ranked_succ, if_neg (by omega)]
        have hroom : (ranked topkIds expertMap numExperts localN k e).length <
            blocksFor blockSize (count e) * blockSize := by
          have hnext := hcap (k + 1) hk e
          rw [hself, length_append, length_singleton] at hnext
          omega
        have hbelow := rowsBelow_mono blockSize count hlt
        rw [rowsBelow_succ] at hbelow
        have hpos : offset e + (ranked topkIds expertMap numExperts localN k e).length < maxEM := by
          rw [hoffset e hlt]
          omega
        have hlength := flatMap_filled_length topkIds expertMap numExperts localN N (hcap k (Nat.le_of_succ_le hk))
        have hfill : (filled topkIds expertMap numExperts localN N blockSize count k e).set
            (ranked topkIds expertMap numExperts localN k e).length k =
              filled topkIds expertMap numExperts localN N blockSize count (k + 1) e := by
          rw [filled, filled, hself]
          exact fillTo_set hroom
        have hset : ((range localN).flatMap (filled topkIds expertMap numExperts localN N blockSize count k)).set
            (((range e).flatMap (filled topkIds expertMap numExperts localN N blockSize count k)).length +
              (ranked topkIds expertMap numExperts localN k e).length) k =
            (range localN).flatMap (filled topkIds expertMap numExperts localN N blockSize count (k + 1)) := by
          refine set_flatMap_range hlt ?_ hfill.symm fun e' hne => by rw [filled, filled, hother e' hne]
          rw [filled_length topkIds expertMap numExperts localN N (hcap k (Nat.le_of_succ_le hk) e)]
          exact hroom
        refine Prod.ext ?_ ?_
        · rw [if_pos hpos, set_append_left _ _ (by rw [hlength, hoffset e hlt]; omega), hoffset e hlt, ← hlength,
            hset]
        · funext e'
          dsimp only
          by_cases hne : e' = e
          · rw [hne, update_self, hself, length_append, length_singleton]
          · rw [update_of_ne hne, hother e' hne]
  exact congrArg Prod.fst (hloop N le_rfl)

lemma foldl_blocks (hblock : 0 < blockSize) {experts : List ℤ} {maxBlocks e : ℕ} :
    ∀ k ≤ blocksFor blockSize cnt, experts.length + k ≤ maxBlocks → (range k).foldl (fun (s : List ℤ × ℕ) b =>
        if s.2 < maxBlocks then (if b * blockSize < cnt then s.1.set s.2 (e : ℤ) else s.1, s.2 + 1)
        else (s.1, s.2)) (experts ++ replicate (maxBlocks - experts.length) (-1), experts.length) =
      ((experts ++ replicate k (e : ℤ)) ++ replicate (maxBlocks - (experts.length + k)) (-1), experts.length + k) := by
  intro k
  induction k with
  | zero =>
    intro _ _
    simp
  | succ k ih =>
    intro hk hmax
    have hreal : k * blockSize < cnt := block_start_lt hblock hk
    have hlength : (experts ++ replicate k (e : ℤ)).length = experts.length + k := by simp
    have hfill : ((experts ++ replicate k (e : ℤ)) ++ replicate (maxBlocks - (experts.length + k)) (-1)).set
        (experts.length + k) (e : ℤ) = (experts ++ replicate (k + 1) (e : ℤ)) ++
          replicate (maxBlocks - (experts.length + (k + 1))) (-1) := by
      have hnext : (experts ++ replicate k (e : ℤ)) ++ [(e : ℤ)] = experts ++ replicate (k + 1) (e : ℤ) := by
        rw [append_assoc, ← replicate_succ']
      have hset : (experts ++ replicate k (e : ℤ)).length < maxBlocks := by omega
      have hfill := fillTo_set (x := (e : ℤ)) (p := (-1 : ℤ)) hset
      rwa [hlength, hnext, length_append, length_replicate] at hfill
    rw [range_succ, foldl_concat, ih (by omega) (by omega),
      if_pos (show experts.length + k < maxBlocks by omega), if_pos hreal, hfill]
    rfl

lemma layout_routedGroups (n : ℕ) :
    layout blockSize N (routedGroups (deviceLocal topkIds expertMap numExperts localN) N n) =
      (range n).flatMap fun e => fillUp blockSize N (ranked topkIds expertMap numExperts localN N e) := by
  rw [layout, routedGroups, groups, flatMap_map, flatMap_map]
  rfl

lemma table_routedGroups (n : ℕ) :
    table blockSize (routedGroups (deviceLocal topkIds expertMap numExperts localN) N n) =
      (range n).flatMap fun e => replicate
        (blocksFor blockSize (ranked topkIds expertMap numExperts localN N e).length) (e : ℤ) := by
  rw [table, routedGroups, groups, flatMap_map, flatMap_map]
  rfl

/-- **Phase C** writes the expert of every block. -/
theorem writeExperts_eq (hblock : 0 < blockSize) {count : ℕ → ℕ}
    (hcount : ∀ e, count e = (ranked topkIds expertMap numExperts localN N e).length)
    (hfits : ∀ e < n, Fits blockSize (count e)) (hint : maxEM < 2 ^ 31) (hmax : rowsBelow blockSize count n ≤ maxEM) :
    ∃ blkIdx, writeExperts n blockSize maxEM count =
      some (table blockSize (routedGroups (deviceLocal topkIds expertMap numExperts localN) N n) ++ replicate
        (maxEM / blockSize -
          (table blockSize (routedGroups (deviceLocal topkIds expertMap numExperts localN) N n)).length) (-1),
        blkIdx) := by
  have hloop : ∀ m ≤ n, (range m).foldlM (fun (s : List ℤ × ℕ) e => (do
      let cnt := count e
      if cnt = 0 then return (s.1, s.2) else
        let padded ← devicePadded blockSize cnt
        let nblocks := padded / blockSize
        return (range nblocks).foldl (fun (s : List ℤ × ℕ) b =>
          if s.2 < maxEM / blockSize then (if b * blockSize < cnt then s.1.set s.2 (e : ℤ) else s.1, s.2 + 1)
          else (s.1, s.2)) (s.1, s.2) : Option _)) (replicate (maxEM / blockSize) (-1), 0) =
      some (table blockSize (routedGroups (deviceLocal topkIds expertMap numExperts localN) N m) ++ replicate
        (maxEM / blockSize -
          (table blockSize (routedGroups (deviceLocal topkIds expertMap numExperts localN) N m)).length) (-1),
        (table blockSize (routedGroups (deviceLocal topkIds expertMap numExperts localN) N m)).length) := by
    intro m
    induction m with
    | zero => exact fun _ => rfl
    | succ m ih =>
      intro hm
      have hbelow := rowsBelow_mono blockSize count hm
      rw [rowsBelow_succ] at hbelow
      have htable : table blockSize (routedGroups (deviceLocal topkIds expertMap numExperts localN) N (m + 1)) =
          table blockSize (routedGroups (deviceLocal topkIds expertMap numExperts localN) N m) ++
            replicate (blocksFor blockSize (count m)) (m : ℤ) := by
        rw [table_routedGroups, table_routedGroups, range_succ, flatMap_append, flatMap_singleton, hcount]
      have hblocks : ∀ m, (table blockSize (routedGroups (deviceLocal topkIds expertMap numExperts localN) N m)).length *
          blockSize = rowsBelow blockSize count m := by
        intro m
        rw [table_routedGroups, length_flatMap, rowsBelow, ← sum_map_mul_right]
        simp [length_replicate, hcount]
      rw [range_succ, foldlM_append, ih (by omega)]
      simp only [bind_eq_bind, bind_some, foldlM_cons, foldlM_nil]
      by_cases hzero : count m = 0
      · rw [htable, hzero, blocksFor_zero hblock, if_pos rfl, replicate_zero, append_nil]
        rfl
      · have hpadded := devicePadded_eq hblock (hfits m (by omega)) (by omega)
        have hroom : (table blockSize (routedGroups (deviceLocal topkIds expertMap numExperts localN) N m)).length +
            blocksFor blockSize (count m) ≤ maxEM / blockSize := by
          rw [Nat.le_div_iff_mul_le hblock, Nat.add_mul, hblocks]
          omega
        rw [if_neg hzero, hpadded]
        simp only [bind_some, Nat.mul_div_cancel _ hblock]
        rw [foldl_blocks hblock _ le_rfl hroom, htable, length_append, length_replicate]
        rfl
  exact ⟨_, hloop n le_rfl⟩

lemma deviceKernel_eq (hblock : 0 < blockSize) {order : List ℕ} {nthr : ℕ} (horder : order.Perm (range nthr))
    (hN : N ≤ nthr) (hfits : ∀ e < localN, Fits blockSize (ranked topkIds expertMap numExperts localN N e).length)
    (hint : maxEM < 2 ^ 31) (hone : blockSize ≤ maxEM) {gs : List (ℤ × List ℕ)}
    (hgs : gs = routedGroups (deviceLocal topkIds expertMap numExperts localN) N localN)
    (hmax : (layout blockSize N gs).length ≤ maxEM) :
    deviceKernel topkIds expertMap numExperts localN N blockSize maxEM order =
      some (alignedRows N blockSize gs maxEM, alignedExperts blockSize gs maxEM, rowsEM N blockSize gs) := by
  have hcount := histogram_eq topkIds expertMap numExperts localN N horder hN
  have hlayout : layout blockSize N gs = (range localN).flatMap (filled topkIds expertMap numExperts localN N
      blockSize (histogram topkIds expertMap numExperts localN N order) N) := by
    rw [hgs, layout_routedGroups]
    refine flatMap_congr fun e _ => ?_
    rw [filled, fillUp, hcount]
  have hrows : (layout blockSize N gs).length =
      rowsBelow blockSize (histogram topkIds expertMap numExperts localN N order) localN := by
    rw [hlayout]
    exact flatMap_filled_length topkIds expertMap numExperts localN N
      (fun e => by rw [hcount]; exact le_blocksFor hblock _) localN
  rw [hrows] at hmax
  have hfits' : ∀ e < localN, Fits blockSize (histogram topkIds expertMap numExperts localN N order e) := by
    intro e he
    rw [hcount]
    exact hfits e he
  obtain ⟨_, hpre, hoffset⟩ := prefixOffsets_eq hblock hfits' (by omega)
  have hscatter := scatter_eq topkIds expertMap numExperts localN N hblock hcount hoffset hmax
  obtain ⟨_, hwrite⟩ := writeExperts_eq topkIds expertMap numExperts localN N hblock hcount hfits' hint hmax
  have hem : (if (if (layout blockSize N gs).length = 0 then blockSize else (layout blockSize N gs).length) > maxEM
      then maxEM else if (layout blockSize N gs).length = 0 then blockSize else (layout blockSize N gs).length) =
      rowsEM N blockSize gs := by
    refine if_neg (Nat.not_lt.mpr ?_)
    split <;> omega
  unfold deviceKernel
  simp only [hpre, hwrite, bind_eq_bind, bind_some, ← hrows, hem]
  rw [hscatter, alignedRows, hlayout, alignedExperts, hgs, ← hlayout, ← hrows]
  rfl

lemma scatter_mem {offset : ℕ → ℕ} {i : ℕ} (hi : i ∈ (scatter topkIds expertMap numExperts localN N maxEM offset).1) :
    i = N ∨ 0 ≤ deviceLocal topkIds expertMap numExperts localN i := by
  have hloop : ∀ (l : List ℕ) (s : List ℕ × (ℕ → ℕ)),
      (∀ j ∈ s.1, j = N ∨ 0 ≤ deviceLocal topkIds expertMap numExperts localN j) →
      ∀ j ∈ (l.foldl (fun (s : List ℕ × (ℕ → ℕ)) i =>
        let le := deviceLocal topkIds expertMap numExperts localN i
        if le < 0 then (s.1, s.2) else
          let pos := offset le.toNat + s.2 le.toNat
          (if pos < maxEM then s.1.set pos i else s.1, update s.2 le.toNat (s.2 le.toNat + 1))) s).1,
        j = N ∨ 0 ≤ deviceLocal topkIds expertMap numExperts localN j := by
    intro l
    induction l with
    | nil => exact fun s hs => hs
    | cons k l ih =>
      intro s hs
      refine ih _ ?_
      dsimp only
      split
      · exact hs
      · split
        · intro j hj
          rcases mem_or_eq_of_mem_set hj with hj | rfl
          · exact hs j hj
          · exact .inr (by omega)
        · exact hs
  exact hloop _ _ (fun j hj => .inl (eq_of_mem_replicate hj)) i hi

end

/-! ## Host and device -/

section

variable (numExperts localN N : ℕ)

def EntryOk (i : ℕ) : Prop :=
  match expertMap with
  | none => 0 ≤ topkIds i ∧ topkIds i < numExperts ∧ topkIds i < localN
  | some map =>
    (0 ≤ topkIds i ∧ topkIds i < numExperts ∧
      (map.getD (topkIds i).toNat 0 = -1 ∨
        0 ≤ map.getD (topkIds i).toNat 0 ∧ map.getD (topkIds i).toNat 0 < localN)) ∨
    (-numExperts ≤ topkIds i ∧ topkIds i < 0 ∧ map.getD (topkIds i + numExperts).toNat 0 = -1)

instance (i : ℕ) : Decidable (EntryOk topkIds expertMap numExperts localN i) :=
  match expertMap with
  | none => inferInstanceAs (Decidable (0 ≤ topkIds i ∧ topkIds i < numExperts ∧ topkIds i < localN))
  | some map => inferInstanceAs (Decidable (
    (0 ≤ topkIds i ∧ topkIds i < numExperts ∧
      (map.getD (topkIds i).toNat 0 = -1 ∨
        0 ≤ map.getD (topkIds i).toNat 0 ∧ map.getD (topkIds i).toNat 0 < localN)) ∨
    (-numExperts ≤ topkIds i ∧ topkIds i < 0 ∧ map.getD (topkIds i + numExperts).toNat 0 = -1)))

/-- The local expert of an entry, as the device sees it. -/
def keptLocal (i : ℕ) : Option ℤ :=
  let le := deviceLocal topkIds expertMap numExperts localN i
  if le < 0 then none else some le

variable (hmap : ∀ map, expertMap = some map → map.length = numExperts)
include hmap

lemma localExpert_of_entryOk {i : ℕ} (h : EntryOk topkIds expertMap numExperts localN i) :
    localExpert expertMap (topkIds i) = .ok (keptLocal topkIds expertMap numExperts localN i) := by
  cases expertMap with
  | none =>
    obtain ⟨h0, hne, hl⟩ := h
    have hdevice : deviceLocal topkIds none numExperts localN i = topkIds i := by
      unfold deviceLocal
      dsimp only
      rw [if_neg (show ¬ (topkIds i < 0 ∨ topkIds i ≥ numExperts) by omega)]
      exact if_neg (by omega)
    unfold keptLocal
    rw [hdevice, if_neg (by omega)]
    rfl
  | some map =>
    have hlen := hmap map rfl
    rcases h with ⟨h0, hne, hvalue⟩ | ⟨hlo, hneg, hskip⟩
    · have hindex : npIndex map (topkIds i) = .ok (map.getD (topkIds i).toNat 0) := by
        unfold npIndex
        rw [if_neg (show ¬ topkIds i < 0 by omega)]
        exact if_pos (by omega)
      have hdevice : deviceLocal topkIds (some map) numExperts localN i = map.getD (topkIds i).toNat 0 := by
        unfold deviceLocal
        dsimp only
        split <;> omega
      unfold localExpert keptLocal
      dsimp only
      rw [hindex, hdevice]
      show Except.ok _ = Except.ok _
      rcases hvalue with hskip | ⟨hv, _⟩
      · rw [if_pos hskip, if_pos (by omega)]
      · rw [if_neg (by omega), if_neg (by omega)]
    · have hindex : npIndex map (topkIds i) = .ok (-1) := by
        unfold npIndex
        rw [if_pos hneg, hlen, ← hskip]
        exact if_pos (by omega)
      have hdevice : deviceLocal topkIds (some map) numExperts localN i = -1 := by
        unfold deviceLocal
        dsimp only
        rw [if_pos (show topkIds i < 0 ∨ topkIds i ≥ numExperts from .inl hneg)]
        exact if_pos (.inl (by decide))
      unfold localExpert keptLocal
      dsimp only
      rw [hindex, hdevice]
      rfl

lemma localExpert_of_not_entryOk {i : ℕ} (h : ¬ EntryOk topkIds expertMap numExperts localN i) :
    deviceLocal topkIds expertMap numExperts localN i = -1 ∧
      ((∃ text, localExpert expertMap (topkIds i) = .error text) ∨
        ∃ e, localExpert expertMap (topkIds i) = .ok (some e)) := by
  cases expertMap with
  | none =>
    refine ⟨?_, .inr ⟨topkIds i, rfl⟩⟩
    simp only [EntryOk] at h
    unfold deviceLocal
    dsimp only
    split
    · exact if_pos (.inl (by decide))
    · exact if_pos (by omega)
  | some map =>
    have hlen := hmap map rfl
    simp only [EntryOk] at h
    constructor
    · unfold deviceLocal
      dsimp only
      split
      · exact if_pos (.inl (by decide))
      · exact if_pos (by omega)
    · unfold localExpert
      dsimp only
      rcases npIndex_cases map (topkIds i) with ⟨text, htext⟩ | ⟨h0, hlt, hvalue⟩ | ⟨hlo, hneg, hvalue⟩
      · rw [htext]
        exact .inl ⟨text, rfl⟩
      · rw [hvalue]
        have hkept : map.getD (topkIds i).toNat 0 ≠ -1 := fun hskip => h (.inl ⟨h0, by omega, .inl hskip⟩)
        exact .inr ⟨_, congrArg Except.ok (if_neg hkept)⟩
      · rw [hvalue]
        rw [hlen] at hlo ⊢
        have hkept : map.getD (topkIds i + numExperts).toNat 0 ≠ -1 := fun hskip => h (.inr ⟨hlo, hneg, hskip⟩)
        exact .inr ⟨_, congrArg Except.ok (if_neg hkept)⟩

omit hmap in
lemma filter_routedGroups : ((routedGroups (deviceLocal topkIds expertMap numExperts localN) N localN).filter
      fun g => g.2 ≠ []) = localGroups (keptLocal topkIds expertMap numExperts localN) N
        (presentExperts (keptLocal topkIds expertMap numExperts localN) N) := by
  have hkept : ∀ i (e : ℤ), 0 ≤ e → (keptLocal topkIds expertMap numExperts localN i = some e ↔
      deviceLocal topkIds expertMap numExperts localN i = e) := by
    intro i e he
    unfold keptLocal
    dsimp only
    split
    · constructor
      · intro h
        cases h
      · intro h
        omega
    · exact ⟨fun h => Option.some.inj h, fun h => congrArg some h⟩
  have hsame : ∀ e ∈ (range localN).map fun e : ℕ => (e : ℤ),
      (range N).filter (fun i => deviceLocal topkIds expertMap numExperts localN i = e) =
        (range N).filter (fun i => keptLocal topkIds expertMap numExperts localN i = some e) := by
    intro e he
    refine filter_congr fun i _ => ?_
    simp [hkept i e ((mem_expertKeys localN).mp he).1]
  have hkeys : (((range localN).map fun e : ℕ => (e : ℤ)).filter fun e =>
      (range N).filter (fun i => keptLocal topkIds expertMap numExperts localN i = some e) ≠ []) =
      presentExperts (keptLocal topkIds expertMap numExperts localN) N := by
    have hmem : ∀ e, (e ∈ (((range localN).map fun e : ℕ => (e : ℤ)).filter fun e =>
        (range N).filter (fun i => keptLocal topkIds expertMap numExperts localN i = some e) ≠ [])) ↔
        e ∈ presentExperts (keptLocal topkIds expertMap numExperts localN) N := by
      intro e
      rw [mem_presentExperts, mem_filter, mem_expertKeys]
      simp only [ne_eq, filter_eq_nil_iff, mem_range, decide_eq_true_eq, not_forall, not_not, exists_prop]
      constructor
      · rintro ⟨_, i, hi, hloc⟩
        exact ⟨i, hi, hloc⟩
      · rintro ⟨i, hi, hloc⟩
        refine ⟨?_, i, hi, hloc⟩
        unfold keptLocal at hloc
        dsimp only at hloc
        split at hloc
        · cases hloc
        · cases hloc
          exact (deviceLocal_range topkIds expertMap numExperts localN i).resolve_left (by omega)
    have hpairwise := (expertKeys_pairwise localN).filter fun e =>
      decide ((range N).filter (fun i => keptLocal topkIds expertMap numExperts localN i = some e) ≠ [])
    have hpresent := presentExperts_pairwise (keptLocal topkIds expertMap numExperts localN) N
    have hperm := (perm_ext_iff_of_nodup (hpairwise.imp fun h => ne_of_lt h)
      (hpresent.imp fun h => ne_of_lt h)).mpr hmem
    exact hperm.eq_of_pairwise (fun a b _ _ hab hba => absurd hba (lt_asymm hab)) hpairwise hpresent
  unfold routedGroups groups localGroups
  rw [filter_map, ← hkeys]
  have hfilter : ((range localN).map fun e : ℕ => (e : ℤ)).filter ((fun g : ℤ × List ℕ => decide (g.2 ≠ [])) ∘ fun k =>
        (k, (range N).filter fun x => deviceLocal topkIds expertMap numExperts localN x = k)) =
      ((range localN).map fun e : ℕ => (e : ℤ)).filter fun e =>
        (range N).filter (fun i => keptLocal topkIds expertMap numExperts localN i = some e) ≠ [] := by
    refine filter_congr fun e he => ?_
    show decide ((range N).filter (fun x => deviceLocal topkIds expertMap numExperts localN x = e) ≠ []) = _
    rw [hsame e he]
  rw [hfilter]
  refine map_congr_left fun e he => ?_
  rw [hsame e (mem_of_mem_filter he)]

/-- The kernel's buffers are those of the host, followed by padding. -/
def DeviceMatches (blockSize maxEM : ℕ) (order : List ℕ) : Prop :=
  ∃ sorted experts em, moeAlignBlockSizeWithMap topkIds N blockSize expertMap = .ok (sorted, experts, em) ∧
    deviceKernel topkIds expertMap numExperts localN N blockSize maxEM order =
      some (sorted ++ List.replicate (maxEM - em) N,
        experts ++ List.replicate (maxEM / blockSize - em / blockSize) (-1), em)

/-- The entries with the local expert of entry `i`. -/
def sharing (i : ℕ) : List ℕ :=
  (List.range N).filter fun j => deviceLocal topkIds expertMap numExperts localN j =
    deviceLocal topkIds expertMap numExperts localN i

/-- Every entry names an expert of this rank or is skipped by the map, and no padded count overflows. -/
def RoutingOk (blockSize : ℕ) : Prop :=
  (∀ i < N, EntryOk topkIds expertMap numExperts localN i) ∧
    ∀ i < N, 0 ≤ deviceLocal topkIds expertMap numExperts localN i →
      (sharing topkIds expertMap numExperts localN N i).length + blockSize < 2 ^ 31

variable {topkIds expertMap numExperts localN N} {blockSize maxEM nthr : ℕ} {order : List ℕ}

omit hmap in
lemma fits_of_sharing (hshare : ∀ i < N, 0 ≤ deviceLocal topkIds expertMap numExperts localN i →
    (sharing topkIds expertMap numExperts localN N i).length + blockSize < 2 ^ 31) (e : ℕ) :
    Fits blockSize (ranked topkIds expertMap numExperts localN N e).length := by
  by_cases hempty : ranked topkIds expertMap numExperts localN N e = []
  · exact .inl (by rw [hempty]; rfl)
  · obtain ⟨i, hi⟩ := exists_mem_of_ne_nil _ hempty
    obtain ⟨hi, hlocal⟩ := mem_filter.mp hi
    simp only [decide_eq_true_eq] at hlocal
    have hlt := hshare i (mem_range.mp hi) (by omega)
    unfold sharing at hlt
    rw [hlocal] at hlt
    exact .inr hlt

lemma matches_of_routingOk (hblock : 0 < blockSize) (horder : order.Perm (range nthr)) (hN : N ≤ nthr)
    (hint : maxEM < 2 ^ 31) (hone : blockSize ≤ maxEM)
    (hcap : ∀ sorted experts em, moeAlignBlockSizeWithMap topkIds N blockSize expertMap = .ok (sorted, experts, em) →
      em ≤ maxEM) (hok : RoutingOk topkIds expertMap numExperts localN N blockSize) :
    DeviceMatches topkIds expertMap numExperts localN N blockSize maxEM order := by
  have hhost := moeAlignBlockSizeWithMap_eq topkIds N expertMap hblock
    (fun i hi => localExpert_of_entryOk topkIds expertMap numExperts localN hmap (hok.1 i hi)) rfl rfl
  have hfilter := filter_routedGroups topkIds expertMap numExperts localN N
  have hle := hcap _ _ _ hhost
  rw [← hfilter] at hhost hle
  have hrows : ∀ gs : List (ℤ × List ℕ), rowsEM N blockSize (gs.filter fun g => g.2 ≠ []) = rowsEM N blockSize gs := by
    intro gs
    rw [rowsEM, rowsEM, layout_filter hblock]
  have hsorted : ∀ (gs : List (ℤ × List ℕ)) (em : ℕ),
      alignedRows N blockSize (gs.filter fun g => g.2 ≠ []) em = alignedRows N blockSize gs em := by
    intro gs em
    rw [alignedRows, alignedRows, layout_filter hblock]
  have hexperts : ∀ (gs : List (ℤ × List ℕ)) (em : ℕ),
      alignedExperts blockSize (gs.filter fun g => g.2 ≠ []) em = alignedExperts blockSize gs em := by
    intro gs _
    rw [alignedExperts, alignedExperts, table_filter hblock]
  rw [hrows, hsorted, hexperts] at hhost
  rw [hrows] at hle
  generalize hgs : routedGroups _ N localN = gs at hhost hle
  have hge : (layout blockSize N gs).length ≤ rowsEM N blockSize gs := rowsEM_ge N gs
  have hkernel := deviceKernel_eq topkIds expertMap numExperts localN N hblock horder hN
    (fun e _ => fits_of_sharing hok.2 e) hint hone hgs.symm (hge.trans hle)
  refine ⟨_, _, _, hhost, ?_⟩
  have htable := table_length_le N hblock gs
  have hdiv : rowsEM N blockSize gs / blockSize ≤ maxEM / blockSize := Nat.div_le_div_right hle
  rw [hkernel, alignedRows, alignedRows, alignedExperts, alignedExperts, append_assoc, append_assoc,
    replicate_append_replicate, replicate_append_replicate]
  have hpad : rowsEM N blockSize gs - (layout blockSize N gs).length + (maxEM - rowsEM N blockSize gs) =
      maxEM - (layout blockSize N gs).length := by omega
  have hpadE : rowsEM N blockSize gs / blockSize - (table blockSize gs).length +
      (maxEM / blockSize - rowsEM N blockSize gs / blockSize) = maxEM / blockSize - (table blockSize gs).length := by
    omega
  rw [hpad, hpadE]

lemma routingOk_of_matches (hblock : 0 < blockSize) (horder : order.Perm (range nthr)) (hN : N ≤ nthr)
    (h : DeviceMatches topkIds expertMap numExperts localN N blockSize maxEM order) :
    RoutingOk topkIds expertMap numExperts localN N blockSize := by
  obtain ⟨_, _, _, hhost, hkernel⟩ := h
  constructor
  · intro i hi
    by_contra hbad
    obtain ⟨hskip, hlookup⟩ := localExpert_of_not_entryOk topkIds expertMap numExperts localN hmap hbad
    have hall : ∀ j < N, ∃ loc, localExpert expertMap (topkIds j) = .ok loc := by
      intro j hj
      cases hloc : localExpert expertMap _ with
      | ok loc => exact ⟨loc, rfl⟩
      | error text =>
        obtain ⟨text, htext⟩ : ∃ text, moeAlignBlockSizeWithMap topkIds N blockSize expertMap = .error text :=
          moeAlignBlockSizeWithMap_error topkIds N expertMap hj hloc
        rw [htext] at hhost
        cases hhost
    rcases hlookup with ⟨_, htext⟩ | ⟨e, he⟩
    · obtain ⟨loc, hloc⟩ := hall i hi
      rw [hloc] at htext
      cases htext
    · -- the host places the entry
      have hchoose : ∀ j < N, localExpert expertMap (topkIds j) =
          .ok (((localExpert expertMap (topkIds j)).toOption).getD none) := by
        intro j hj
        obtain ⟨_, hloc⟩ := hall j hj
        rw [hloc]
        rfl
      have heq := moeAlignBlockSizeWithMap_eq topkIds N expertMap hblock hchoose rfl rfl
      rw [hhost] at heq
      cases heq
      have hloc : ((localExpert expertMap (topkIds i)).toOption).getD none = some e := by
        rw [he]
        rfl
      have hplaced : i ∈ layout blockSize N (localGroups
          (fun j => ((localExpert expertMap (topkIds j)).toOption).getD none) N (presentExperts
            (fun j => ((localExpert expertMap (topkIds j)).toOption).getD none) N)) := by
        refine mem_flatMap.mpr ⟨_, mem_map.mpr ⟨e, ?_, rfl⟩, mem_append_left _ ?_⟩
        · exact (mem_presentExperts _ N).mpr ⟨i, hi, hloc⟩
        · exact mem_filter.mpr ⟨mem_range.mpr hi, by simpa using hloc⟩
      -- the device does not
      unfold deviceKernel at hkernel
      simp only [bind_eq_bind, Option.bind_eq_some_iff] at hkernel
      obtain ⟨p, _, x, _, hresult⟩ := hkernel
      have hbuffer := congrArg (fun r => r.map Prod.fst) hresult
      have hmem : i ∈ (scatter topkIds expertMap numExperts localN N maxEM p.1).1 := by
        have hfst : (scatter topkIds expertMap numExperts localN N maxEM p.1).1 = _ := Option.some.inj hbuffer
        rw [hfst]
        exact mem_append_left _ (mem_append_left _ hplaced)
      rcases scatter_mem topkIds expertMap numExperts localN N hmem with heq | hnonneg
      · omega
      · omega
  · intro i hi hlocal
    by_contra hover
    have hrange := (deviceLocal_range topkIds expertMap numExperts localN i).resolve_left (by omega)
    have hcount := histogram_eq topkIds expertMap numExperts localN N horder hN
      (deviceLocal topkIds expertMap numExperts localN i).toNat
    have hranked : ranked topkIds expertMap numExperts localN N
        (deviceLocal topkIds expertMap numExperts localN i).toNat =
          sharing topkIds expertMap numExperts localN N i := by
      unfold ranked sharing
      rw [Int.toNat_of_nonneg hlocal]
    have hmember : i ∈ sharing topkIds expertMap numExperts localN N i := mem_filter.mpr ⟨mem_range.mpr hi, by simp⟩
    have hpos := length_pos_of_mem hmember
    rw [hranked] at hcount
    have hfits : ¬ Fits blockSize (histogram topkIds expertMap numExperts localN N order
        (deviceLocal topkIds expertMap numExperts localN i).toNat) := by
      rw [hcount]
      rintro (hzero | hlt)
      · omega
      · exact hover hlt
    have hlt : (deviceLocal topkIds expertMap numExperts localN i).toNat < localN := by omega
    have hnone := prefixOffsets_none hlt hfits
    unfold deviceKernel at hkernel
    simp only [hnone] at hkernel
    cases hkernel

end

lemma accepted {M topK blockSize numExperts localN maxEM : ℕ} {null nullEM : Bool}
    (h : vkHipMoeAlignBlockSize M topK blockSize numExperts localN maxEM null nullEM = .ok) :
    0 < blockSize ∧ blockSize ≤ maxEM ∧ M * topK ≤ 1024 := by
  unfold vkHipMoeAlignBlockSize at h
  split at h
  · cases h
  · split at h
    · cases h
    · split at h
      · cases h
      · rename_i hblock _ hmax
        rw [not_or, not_not] at hmax
        have hdvd : blockSize ∣ maxEM := Int.natCast_dvd_natCast.mp (Int.dvd_of_emod_eq_zero hmax.2)
        have hle : blockSize ≤ maxEM := Nat.le_of_dvd (by omega) hdvd
        have hN : ¬ ((M : ℤ) * topK > 1024) := by
          intro hN
          split at h
          · cases h
          · split at h
            · cases h
            · split at h
              · cases h
              · cases h
        refine ⟨by omega, hle, ?_⟩
        exact_mod_cast not_lt.mp hN

/-- **Host and device**: an accepted call whose capacity is at least the rows of the host writes the host's buffers,
    in any order of the additions, exactly if the routing is in range. -/
theorem device_align_iff (topkIds : ℕ → ℤ) (expertMap : Option (List ℤ))
    (M topK blockSize numExperts localN maxEM : ℕ) (null nullEM : Bool)
    (hmap : ∀ map, expertMap = some map → map.length = numExperts)
    (haccept : vkHipMoeAlignBlockSize M topK blockSize numExperts localN maxEM null nullEM = .ok)
    (hint : maxEM < 2 ^ 31) (hcap : ∀ sorted experts em,
      moeAlignBlockSizeWithMap topkIds (M * topK) blockSize expertMap = .ok (sorted, experts, em) → em ≤ maxEM) :
    (∀ order : List ℕ, order.Perm (List.range (threads (M * topK) localN)) →
      DeviceMatches topkIds expertMap numExperts localN (M * topK) blockSize maxEM order) ↔
      RoutingOk topkIds expertMap numExperts localN (M * topK) blockSize := by
  obtain ⟨hblock, hone, hN⟩ := accepted haccept
  have hthreads := le_threads hN localN
  constructor
  · intro h
    exact routingOk_of_matches hmap hblock (List.Perm.refl _) hthreads (h _ (List.Perm.refl _))
  · intro hok _ horder
    exact matches_of_routingOk hmap hblock horder hthreads hint hone hcap hok

/-- Three tokens, two of them for the second expert. -/
theorem device_align_iff_three :
    DeviceMatches (fun i => if i = 1 then 0 else 1) (some [0, 1]) 2 2 (3 * 1) 2 4 (List.range 64) :=
  (device_align_iff (fun i => if i = 1 then 0 else 1) (some [0, 1]) 3 1 2 2 2 4 false false
    (by rintro _ ⟨⟩; rfl) (by decide) (by decide) (by
      intro _ _ _ h
      have hem : moeAlignBlockSizeWithMap (fun i => if i = 1 then 0 else 1) (3 * 1) 2 (some [0, 1]) =
          .ok ([1, 3, 0, 2], [0, 1], 4) := rfl
      cases h
      exact le_rfl)).mpr ⟨by decide, by decide⟩ (range 64) (List.Perm.refl _)

/-- A negative id: the host looks it up from the end of the map, the device skips it. -/
theorem negative_id_differs : vkHipMoeAlignBlockSize 1 1 2 1 1 2 false false = .ok ∧
      moeAlignBlockSizeWithMap (fun _ => -1) (1 * 1) 2 (some [0]) = .ok ([0, 1], [0], 2) ∧
      deviceKernel (fun _ => -1) (some [0]) 1 1 (1 * 1) 2 2 (List.range (threads (1 * 1) 1)) = some ([1, 1], [-1], 2) ∧
      ¬ DeviceMatches (fun _ => -1) (some [0]) 1 1 (1 * 1) 2 2 (List.range (threads (1 * 1) 1)) := by
  have hhost : moeAlignBlockSizeWithMap (fun _ => -1) (1 * 1) 2 (some [0]) = .ok ([0, 1], [0], 2) := rfl
  have hdevice : deviceKernel (fun _ => -1) (some [0]) 1 1 (1 * 1) 2 2 (range (threads (1 * 1) 1)) =
      some ([1, 1], [-1], 2) := by decide
  refine ⟨by decide, hhost, hdevice, ?_⟩
  rintro ⟨_, _, _, h, h'⟩
  cases h
  exact absurd h' (by decide)

end VKernels.Moe
