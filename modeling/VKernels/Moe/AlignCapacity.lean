import VKernels.Moe.AlignDevice
import VKernels.Moe.CaptureScratch

/-!
# Capacity of the alignment

The bounds of `vllm_experts.py` on the rows of `moe_align_block_size_with_map`, and what `apply` does with them.

* `maxEmHost`, `gpuRequests`, `cpuRequests` — the capacity that the device align is handed, and the scratch that `apply`
  asks for in its two branches.

## Results

* `rows_le_worst`, `worst_le_bound` — no routing has more rows, and the bound of the shape covers them.
* `worst_attained` — the routing of one token to every expert but the last, and of the others to the last.
* `capacity_iff` — all capacities hold for all routings of a shape exactly if the pinned one covers the worst.
-/

namespace VKernels.Moe

open Grouping
open List

/-! ## The bounds -/

/-- `max_em_count`. -/
def maxEmCount (maxM topK localN : ℕ) : ℕ := (maxM * topK + localN + 63) / 64 * 64

/-- `_align_em_bound`. -/
def alignEmBound (M topK localN blockSize : ℕ) : ℕ :=
  let N := M * topK
  if N ≤ 0 then blockSize else
    let head := min N localN * blockSize
    if N ≤ localN then head else
      let rem := (N - localN + blockSize - 1) / blockSize * blockSize
      head + rem

/-- `max_EM_host` of `apply`. -/
def maxEmHost (maxM M topK localN blockSize : ℕ) : ℕ :=
  min (alignEmBound M topK localN blockSize) (maxEmCount maxM topK localN)

inductive ScratchKey
  | sids (topK localN : ℕ)
  | eids (topK localN : ℕ)
  | outEm (topK localN : ℕ)
  deriving DecidableEq

/-- `torch.int32`, the type of all three. -/
inductive ScratchType
  | int32
  deriving DecidableEq

section

variable (dev : Device) (maxM M topK localN blockSize : ℕ)

def sidsCall (count : ℕ) : GetCall ScratchKey ScratchType :=
  ⟨.sids topK localN, count, .int32, dev, some (maxEmCount maxM topK localN : ℕ), "sids"⟩

def eidsCall (count : ℕ) : GetCall ScratchKey ScratchType :=
  ⟨.eids topK localN, count, .int32, dev, some (maxEmCount maxM topK localN : ℕ), "eids"⟩

def outEmCall : GetCall ScratchKey ScratchType := ⟨.outEm topK localN, 1, .int32, dev, some 1, "out_em"⟩

def gpuRequests : List (GetCall ScratchKey ScratchType) :=
  [sidsCall dev maxM topK localN (maxEmHost maxM M topK localN blockSize),
    eidsCall dev maxM topK localN (maxEmHost maxM M topK localN blockSize / blockSize), outEmCall dev topK localN]

def cpuRequests (em : ℕ) : List (GetCall ScratchKey ScratchType) :=
  [sidsCall dev maxM topK localN em, eidsCall dev maxM topK localN em]

/-- After the warm-up every buffer has at least the elements of its capacity. -/
def Pinned (w : World ScratchKey ScratchType) : Prop :=
  ∀ c ∈ [sidsCall dev maxM topK localN 0, eidsCall dev maxM topK localN 0, outEmCall dev topK localN],
    ∃ store, w.scratch.buffers.get? c.slot = some store ∧ ∀ capacity, c.capacity = some capacity →
      capacity ≤ store.numel

end

/-! ## The worst routing -/

/-- The rows of the worst routing of `N` entries to `localN` experts. -/
def worstRows (N localN blockSize : ℕ) : ℕ :=
  if N = 0 ∨ localN = 0 then blockSize
  else (min N localN + (N - min N localN) / blockSize) * blockSize

lemma add_div_le_add {a b d : ℕ} (hd : 0 < d) : (a + b) / d ≤ a + b / d := by
  have hle : a + b ≤ b + a * d := by
    have := Nat.le_mul_of_pos_right a hd
    omega
  calc (a + b) / d ≤ (b + a * d) / d := Nat.div_le_div_right hle
    _ = a + b / d := by rw [Nat.add_mul_div_right _ _ hd, add_comm]

section

variable {blockSize : ℕ} (hblock : 0 < blockSize)
include hblock

lemma worst_le_bound (M topK localN : ℕ) :
    worstRows (M * topK) localN blockSize ≤ alignEmBound M topK localN blockSize := by
  unfold worstRows alignEmBound
  by_cases hN : M * topK = 0
  · rw [if_pos (.inl hN), if_pos (by omega)]
  · rw [if_neg (show ¬ M * topK ≤ 0 by omega)]
    by_cases hlocal : localN = 0
    · rw [if_pos (.inr hlocal), hlocal, if_neg (by omega), Nat.min_zero, Nat.zero_mul, Nat.zero_add, Nat.sub_zero]
      have hone : 1 ≤ (M * topK + blockSize - 1) / blockSize := by
        rw [Nat.le_div_iff_mul_le hblock]
        omega
      calc blockSize = 1 * blockSize := (one_mul blockSize).symm
        _ ≤ (M * topK + blockSize - 1) / blockSize * blockSize := Nat.mul_le_mul_right _ hone
    · rw [if_neg (by omega)]
      by_cases hle : M * topK ≤ localN
      · rw [if_pos hle, Nat.min_eq_left hle, Nat.sub_self, Nat.zero_div, Nat.add_zero]
      · rw [if_neg hle, min_eq_right (by omega), add_mul]
        have hdiv : (M * topK - localN) / blockSize ≤ (M * topK - localN + blockSize - 1) / blockSize :=
          Nat.div_le_div_right (by omega)
        exact Nat.add_le_add_left (Nat.mul_le_mul_right _ hdiv) _

variable {N localN : ℕ}

lemma blocks_le_worst {L T : ℕ} (hLT : L ≤ T) (hTN : T ≤ N) (hL : L ≤ localN) :
    L + (T - L) / blockSize ≤ min N localN + (N - min N localN) / blockSize := by
  have hsplit : N - L = (min N localN - L) + (N - min N localN) := by omega
  have htotal : (T - L) / blockSize ≤ (N - L) / blockSize := Nat.div_le_div_right (by omega)
  have hadd : (N - L) / blockSize ≤ min N localN - L + (N - min N localN) / blockSize := by
    rw [hsplit]
    exact add_div_le_add hblock
  omega

lemma rows_le_worst {loc : ℕ → Option ℤ} (hloc : ∀ i < N, ∀ e, loc i = some e → 0 ≤ e ∧ e < localN) :
    rowsEM N blockSize (localGroups loc N (presentExperts loc N)) ≤ worstRows N localN blockSize := by
  generalize hks : presentExperts loc N = ks
  have hmem : ∀ e, e ∈ ks ↔ ∃ i < N, loc i = some e := fun e => hks ▸ mem_presentExperts loc N
  have hnodup : ks.Nodup := by
    rw [← hks]
    exact (presentExperts_pairwise loc N).imp fun h => ne_of_lt h
  have hnonempty : ∀ g ∈ localGroups loc N ks, g.2 ≠ [] := by
    intro g hg
    obtain ⟨e, he, rfl⟩ := mem_map.mp hg
    obtain ⟨i, hi, hie⟩ := (hmem e).mp he
    exact ne_nil_of_mem (mem_filter.mpr ⟨mem_range.mpr hi, by simpa using hie⟩)
  have hlength : (localGroups loc N ks).length = ks.length := length_map _
  have htokens : ((localGroups loc N ks).flatMap Prod.snd).length ≤ N := by
    have hgroups : (localGroups loc N ks).flatMap Prod.snd = (groups loc (range N) (ks.map some)).flatMap Prod.snd := by
      rw [localGroups, groups, flatMap_map, map_map, flatMap_map]
      rfl
    have hle : ((groups loc (range N) (ks.map some)).flatMap Prod.snd).length ≤ (range N).length :=
      groups_length_le (hnodup.map (Option.some_injective ℤ)) nodup_range
    rwa [length_range, ← hgroups] at hle
  have hexperts : ks.length ≤ localN := by
    have hsub : ks ⊆ (range localN).map fun e : ℕ => (e : ℤ) := by
      intro e he
      obtain ⟨i, hi, hie⟩ := (hmem e).mp he
      exact (mem_expertKeys localN).mpr (hloc i hi e hie)
    have hle := (subperm_of_subset hnodup hsub).length_le
    rwa [length_map, length_range] at hle
  obtain ⟨hLT, htable⟩ := table_length_le_of_nonempty hblock hnonempty
  rw [hlength] at hLT htable
  have hblocks := htable.trans (blocks_le_worst hblock hLT htokens hexperts)
  have hrows := Nat.mul_le_mul_right blockSize hblocks
  rw [← layout_length hblock N] at hrows
  unfold rowsEM worstRows
  by_cases hnone : N = 0 ∨ localN = 0
  · rw [if_pos hnone]
    have hks : ks = [] := by
      rcases hnone with h | h
      · exact eq_nil_of_length_eq_zero (by omega)
      · exact eq_nil_of_length_eq_zero (by omega)
    rw [hks]
    exact le_rfl
  · split
    · have hmin : 1 ≤ min N localN := by omega
      have hone : 1 ≤ min N localN + (N - min N localN) / blockSize := hmin.trans (Nat.le_add_right _ _)
      calc blockSize = 1 * blockSize := (one_mul blockSize).symm
        _ ≤ _ := Nat.mul_le_mul_right _ hone
    · exact hrows

/-- One token for every expert but the last, and the others for the last. -/
def spreadIds (N localN i : ℕ) : ℤ := (min i (min N localN - 1) : ℕ)

omit hblock in
lemma presentExperts_spread {N localN : ℕ} (hN : 0 < N) (hlocal : 0 < localN) :
    presentExperts (fun i => some (spreadIds N localN i)) N = (range (min N localN)).map fun e : ℕ => (e : ℤ) := by
  have hpresent := presentExperts_pairwise (fun i => some (spreadIds N localN i)) N
  have hkeys := expertKeys_pairwise (min N localN)
  have hmem : ∀ e, e ∈ presentExperts (fun i => some (spreadIds N localN i)) N ↔
      e ∈ (range (min N localN)).map fun e : ℕ => (e : ℤ) := by
    intro e
    rw [mem_presentExperts, mem_expertKeys]
    constructor
    · rintro ⟨i, _, hi⟩
      have he := Option.some.inj hi
      unfold spreadIds at he
      omega
    · rintro ⟨h0, hlt⟩
      refine ⟨e.toNat, by omega, ?_⟩
      have hspread : spreadIds N localN e.toNat = e := by
        unfold spreadIds
        omega
      rw [hspread]
  have hperm := (perm_ext_iff_of_nodup (hpresent.imp fun h => ne_of_lt h) (hkeys.imp fun h => ne_of_lt h)).mpr hmem
  exact hperm.eq_of_pairwise (fun a b _ _ hab hba => absurd hba (lt_asymm hab)) hpresent hkeys

lemma worst_attained (hN : 0 < N) (hlocal : 0 < localN) :
    worstRows N localN blockSize ≤ rowsEM N blockSize (localGroups (fun i => some (spreadIds N localN i)) N
      (presentExperts (fun i => some (spreadIds N localN i)) N)) := by
  rw [presentExperts_spread hN hlocal]
  refine le_trans ?_ (rowsEM_ge N _)
  rw [layout_length hblock, worstRows, if_neg (by omega)]
  refine Nat.mul_le_mul_right _ ?_
  have hlength : (table blockSize (localGroups (fun i => some (spreadIds N localN i)) N
      ((range (min N localN)).map fun e : ℕ => (e : ℤ)))).length =
      ((range (min N localN)).map fun e : ℕ => blocksFor blockSize
        ((range N).filter fun i => some (spreadIds N localN i) = some (e : ℤ)).length).sum := by
    rw [table, localGroups, length_flatMap, map_map, map_map]
    congr 1
    refine map_congr_left fun e _ => ?_
    simp
  have hblocks : ∀ {m n : ℕ}, m ≤ n → blocksFor blockSize m ≤ blocksFor blockSize n :=
    fun h => Nat.div_le_div_right (by omega)
  obtain ⟨L, hL⟩ : ∃ L, min N localN = L + 1 := ⟨min N localN - 1, by omega⟩
  have hfirst : ∀ e < L, 1 ≤ blocksFor blockSize
      ((range N).filter fun i => some (spreadIds N localN i) = some (e : ℤ)).length := by
    intro e he
    have hspread : spreadIds N localN e = e := by
      unfold spreadIds
      omega
    have hmem : e ∈ (range N).filter fun i => some (spreadIds N localN i) = some (e : ℤ) :=
      mem_filter.mpr ⟨mem_range.mpr (by omega), by simp [hspread]⟩
    have hone : blocksFor blockSize 1 = 1 := by
      rw [blocksFor_of_pos hblock Nat.one_pos, Nat.sub_self, Nat.zero_div]
    calc 1 = blocksFor blockSize 1 := hone.symm
      _ ≤ _ := hblocks (length_pos_of_mem hmem)
  have hlast : 1 + (N - (L + 1)) / blockSize ≤ blocksFor blockSize
      ((range N).filter fun i => some (spreadIds N localN i) = some (L : ℤ)).length := by
    have hsub : ((range (N - L)).map (L + ·)).Sublist
        ((range N).filter fun i => some (spreadIds N localN i) = some (L : ℤ)) := by
      have hrange : range N = range L ++ (range (N - L)).map (L + ·) := by
        rw [← range_add, Nat.add_sub_cancel' (by omega)]
      have hkeep : ((range (N - L)).map (L + ·)).filter
          (fun i => some (spreadIds N localN i) = some (L : ℤ)) = (range (N - L)).map (L + ·) := by
        refine filter_eq_self.mpr fun i hi => ?_
        obtain ⟨j, _, rfl⟩ := mem_map.mp hi
        have hspread : spreadIds N localN (L + j) = L := by
          unfold spreadIds
          omega
        simp [hspread]
      rw [hrange, filter_append, hkeep]
      exact sublist_append_right _ _
    have hle := hsub.length_le
    rw [length_map, length_range] at hle
    calc 1 + (N - (L + 1)) / blockSize = blocksFor blockSize (N - L) := by
          rw [blocksFor_of_pos hblock (by omega), Nat.sub_sub]
      _ ≤ _ := hblocks hle
  have hsum : L ≤ ((range L).map fun e : ℕ => blocksFor blockSize
      ((range N).filter fun i => some (spreadIds N localN i) = some (e : ℤ)).length).sum := by
    have hle := card_nsmul_le_sum ((range L).map fun e : ℕ => blocksFor blockSize
      ((range N).filter fun i => some _ = some (e : ℤ)).length) 1 (by
        intro x hx
        obtain ⟨e, he, rfl⟩ := mem_map.mp hx
        exact hfirst e (mem_range.mp he))
    simpa using hle
  rw [hlength, hL, range_succ, map_append, sum_append, map_singleton, sum_singleton]
  omega

end

/-! ## What the capacities promise -/

/-- What a routing with `em` rows is promised. -/
structure Covered (maxM M topK localN blockSize em : ℕ) : Prop where
  bound : em ≤ alignEmBound M topK localN blockSize
  capacity : em ≤ maxEmCount maxM topK localN
  handed : em ≤ maxEmHost maxM M topK localN blockSize
  /-- No scratch grows after the warm-up, whether or not a capture is active. -/
  scratch : ∀ dev (w : World ScratchKey ScratchType), Pinned dev maxM topK localN w →
    ∀ c ∈ gpuRequests dev maxM M topK localN blockSize ++ cpuRequests dev maxM topK localN em,
      ∀ reprKey outOfMemory, ∃ view, (w.get reprKey c outOfMemory).1 = .ok view ∧
        (w.get reprKey c outOfMemory).2.scratch = w.scratch

/-- Every routing of the shape, whose local experts are in range, is covered, and the device align drops none of it. -/
def CapacityPromise (maxM M topK localN blockSize : ℕ) : Prop :=
  ∀ (topkIds : ℕ → ℤ) (expertMap : Option (List ℤ)),
    (∀ i < M * topK, ∀ e, localExpert expertMap (topkIds i) = .ok (some e) → 0 ≤ e ∧ e < localN) →
    ∀ sorted experts em,
      moeAlignBlockSizeWithMap topkIds (M * topK) blockSize expertMap = .ok (sorted, experts, em) →
      Covered maxM M topK localN blockSize em ∧
      ∀ numExperts, (∀ map, expertMap = some map → map.length = numExperts) → M * topK ≤ 1024 →
        (∀ i < M * topK, EntryOk topkIds expertMap numExperts localN i) →
        ∀ order : List ℕ, order.Perm (List.range (threads (M * topK) localN)) →
          DeviceMatches topkIds expertMap numExperts localN (M * topK) blockSize
            (maxEmHost maxM M topK localN blockSize) order

lemma get_pinned {w : World ScratchKey ScratchType} {c : GetCall ScratchKey ScratchType}
    {store : Tensor ScratchType} (hstore : w.scratch.buffers.get? c.slot = some store) (hcount : 0 ≤ c.count)
    (hle : c.count ≤ store.numel) (reprKey : ScratchKey → String) (outOfMemory : Option String) :
    ∃ view, (w.get reprKey c outOfMemory).1 = .ok view ∧ (w.get reprKey c outOfMemory).2.scratch = w.scratch := by
  rw [get_hit reprKey hstore hcount hle]
  exact ⟨_, rfl, rfl⟩

lemma covered_of_le {maxM M topK localN blockSize em : ℕ} (hbound : em ≤ alignEmBound M topK localN blockSize)
    (hcap : em ≤ maxEmCount maxM topK localN) : Covered maxM M topK localN blockSize em where
  bound := hbound
  capacity := hcap
  handed := le_min hbound hcap
  scratch := by
    intro dev w hpinned c hc reprKey outOfMemory
    have hhost : maxEmHost maxM M topK localN blockSize ≤ maxEmCount maxM topK localN := min_le_right _ _
    have hblocks : maxEmHost maxM M topK localN blockSize / blockSize ≤ maxEmCount maxM topK localN :=
      (Nat.div_le_self _ _).trans hhost
    obtain ⟨sids, hsids, hsidsLe⟩ := hpinned (sidsCall dev maxM topK localN 0) (by simp)
    obtain ⟨eids, heids, heidsLe⟩ := hpinned (eidsCall dev maxM topK localN 0) (by simp)
    obtain ⟨outEm, houtEm, houtEmLe⟩ := hpinned (outEmCall dev topK localN) (by simp)
    have hs := hsidsLe _ rfl
    have he := heidsLe _ rfl
    have ho := houtEmLe _ rfl
    have hsidsGet : ∀ count ≤ maxEmCount maxM topK localN, ∃ view,
        (w.get reprKey (sidsCall dev maxM topK localN count) outOfMemory).1 = .ok view ∧
          (w.get reprKey _ outOfMemory).2.scratch = w.scratch := fun count hle =>
      get_pinned (c := sidsCall dev maxM topK localN count) hsids (Int.natCast_nonneg count) (by show (count : ℤ) ≤ sids.numel; omega) reprKey outOfMemory
    have heidsGet : ∀ count ≤ maxEmCount maxM topK localN, ∃ view,
        (w.get reprKey (eidsCall dev maxM topK localN count) outOfMemory).1 = .ok view ∧
          (w.get reprKey _ outOfMemory).2.scratch = w.scratch := fun count hle =>
      get_pinned (c := eidsCall dev maxM topK localN count) heids (Int.natCast_nonneg count) (by show (count : ℤ) ≤ eids.numel; omega) reprKey outOfMemory
    simp only [gpuRequests, cpuRequests, cons_append, nil_append, mem_cons, not_mem_nil, or_false] at hc
    rcases hc with rfl | rfl | rfl | rfl | rfl
    · exact hsidsGet _ hhost
    · exact heidsGet _ hblocks
    · exact get_pinned houtEm (show (0 : ℤ) ≤ 1 by decide) (by show (1 : ℤ) ≤ outEm.numel; omega) reprKey outOfMemory
    · exact hsidsGet _ hcap
    · exact heidsGet _ hcap

lemma worst_le_of_promise {maxM M topK localN blockSize : ℕ} (hpos : 0 < blockSize)
    (h : CapacityPromise maxM M topK localN blockSize) :
    worstRows (M * topK) localN blockSize ≤ maxEmCount maxM topK localN := by
  by_cases hnone : M * topK = 0 ∨ localN = 0
  · -- nothing is routed
    have hskip : ∀ i < M * topK, localExpert (some [-1]) ((fun _ => 0 : ℕ → ℤ) i) = .ok ((fun _ => none) i) :=
      fun i _ => rfl
    have hhost := moeAlignBlockSizeWithMap_eq (fun _ => 0) _ _ hpos hskip rfl rfl
    have hcovered := (h _ _ (fun i hi e he => by rw [hskip i hi] at he; cases he) _ _ _ hhost).1.capacity
    have hpresent : presentExperts (fun _ => none) (M * topK) = [] := by
      refine eq_nil_iff_forall_not_mem.mpr fun e he => ?_
      obtain ⟨i, _, hi⟩ := (mem_presentExperts _ _).mp he
      cases hi
    rw [hpresent] at hcovered
    rw [worstRows, if_pos hnone]
    exact hcovered
  · have hspread : ∀ i < M * topK, localExpert none (spreadIds (M * topK) localN i) =
        .ok ((fun i => some (spreadIds (M * topK) localN i)) i) := fun i _ => rfl
    have hhost := moeAlignBlockSizeWithMap_eq _ _ none hpos hspread rfl rfl
    have hrange : ∀ i < M * topK, ∀ e, localExpert none (spreadIds (M * topK) localN i) = .ok (some e) →
        0 ≤ e ∧ e < localN := by
      intro i _ e he
      cases he
      unfold spreadIds
      omega
    have hcovered := (h _ _ hrange _ _ _ hhost).1.capacity
    exact (worst_attained hpos (by omega) (by omega)).trans hcovered
/-- **The capacities** of a shape hold for all its routings exactly if the pinned one covers the worst routing; the
    bound of the shape always does. -/
theorem capacity_iff (maxM M topK localN blockSize : ℕ) (hblock : blockSize = 16 ∨ blockSize = 64) :
    worstRows (M * topK) localN blockSize ≤ alignEmBound M topK localN blockSize ∧
    (CapacityPromise maxM M topK localN blockSize ↔
      worstRows (M * topK) localN blockSize ≤ maxEmCount maxM topK localN) := by
  have hpos : 0 < blockSize := by omega
  refine ⟨worst_le_bound hpos M topK localN, fun h => ?_, fun h => ?_⟩
  · exact worst_le_of_promise hpos h
  · intro topkIds expertMap hrange sorted experts em hhost
    have hall : ∀ i < M * topK, localExpert expertMap (topkIds i) =
        .ok (((localExpert expertMap (topkIds i)).toOption).getD none) := by
      intro i hi
      cases hloc : localExpert expertMap (topkIds i) with
      | ok loc => rfl
      | error text =>
        obtain ⟨_, htext⟩ : ∃ text, moeAlignBlockSizeWithMap topkIds (M * topK) blockSize expertMap = .error text :=
          moeAlignBlockSizeWithMap_error topkIds (M * topK) expertMap hi hloc
        rw [htext] at hhost
        cases hhost
    have heq := moeAlignBlockSizeWithMap_eq topkIds (M * topK) expertMap hpos hall rfl rfl
    have hlocal : ∀ i < M * topK, ∀ e, ((localExpert expertMap (topkIds i)).toOption).getD none = some e →
        0 ≤ e ∧ e < localN := fun i hi e he => hrange i hi e (by rw [hall i hi, he])
    have hworst := rows_le_worst hpos hlocal
    have hem := hhost
    rw [heq] at hem
    cases hem
    have hcovered := covered_of_le (hworst.trans (worst_le_bound hpos M topK localN)) (hworst.trans h)
    refine ⟨hcovered, fun numExperts hmap hN hok order horder => ?_⟩
    have hbig : alignEmBound M topK localN blockSize < 2 ^ 31 := by
      unfold alignEmBound
      dsimp only
      have hmin : min (M * topK) localN * blockSize ≤ 1024 * 64 := Nat.mul_le_mul (by omega) (by omega)
      split
      · omega
      · split
        · omega
        · have := Nat.div_mul_le_self (M * topK - localN + blockSize - 1) blockSize
          omega
    have hone : blockSize ≤ maxEmHost maxM M topK localN blockSize := by
      refine le_trans ?_ hcovered.handed
      exact Nat.le_of_dvd (rowsEM_pos (M * topK) hpos _) (rowsEM_dvd (M * topK) hpos _)
    refine matches_of_routingOk hmap hpos horder (le_threads hN localN)
      (lt_of_le_of_lt (min_le_left _ _) hbig) hone ?_ ⟨hok, fun i hi _ => ?_⟩
    · intro _ _ _ hother
      rw [heq] at hother
      cases hother
      exact hcovered.handed
    · have hle := length_filter_le (fun j => decide (deviceLocal topkIds expertMap numExperts localN j =
        deviceLocal topkIds expertMap numExperts localN i)) (range (M * topK))
      rw [length_range] at hle
      unfold sharing
      omega

theorem capacity_iff_decode : worstRows (32 * 8) 16 16 ≤ alignEmBound 32 8 16 16 ∧
    (CapacityPromise 8192 32 8 16 16 ↔ worstRows (32 * 8) 16 16 ≤ maxEmCount 8192 8 16) :=
  capacity_iff 8192 32 8 16 16 (.inl rfl)

/-- Eight tokens for eight experts: twice the pinned capacity. -/
theorem one_token_each_exceeds : ¬ CapacityPromise 4 4 2 8 16 := by
  intro h
  have hworst : worstRows (4 * 2) 8 16 = 128 := by decide
  have hcap : maxEmCount 4 2 8 = 64 := by decide
  have hle := worst_le_of_promise (by decide) h
  omega

end VKernels.Moe
