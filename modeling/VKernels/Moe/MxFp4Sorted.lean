import VKernels.Lib.TileLoops
import VKernels.Moe.AlignBlockSize
import VKernels.Moe.MxFp4Rows

/-!
# Sorted rows of the MXFP4 kernels

The gather, the fused gather and quantisation, and the scatter of `kernels/moe_aux.cpp`, over the aligned ids of
`moe_align_block_size`. Sums are exact and the `int` products do not overflow.

* `sortedRow` — the row that a sorted position stands for: a token's, or zeros.

## Results

* `sortedIds_of_align` — the ids that an alignment leaves.
* `fused_of_even`, `fused_straddles` — the fused kernel for groups of even and of odd size.
* `scatterReduce_sum`, `sum_token_rows`, `reduces_sorted` — what the scatter adds, and over sorted ids.
* `sorted_movement_iff` — the two together, for every routing.
-/

namespace VKernels.Moe.MxFp4

open Comm (expects expects_of expects_ok)
open Finset
open MaskedStores LocalActions Binary32
open List hiding cons mem_range range sum sum_eq_zero

/-! ## The kernels -/

def sortStores (A : ℕ → ℕ) (ids : ℕ → ℤ) (N : ℤ) (hidden topK EM : ℕ) : List (ℕ × ℕ) :=
  (List.range EM).flatMap fun r =>
    if IsReal ids N r then
      (List.range hidden).map fun j => (r * hidden + j, A ((ids r).toNat / topK * hidden + j))
    else (List.range hidden).map fun j => (r * hidden + j, 0)

/-- `mxfp4_moe_sort`. -/
def mxfp4MoeSort (A : ℕ → ℕ) (ids : ℕ → ℤ) (M hidden topK EM : ℤ) : Except String (List (ℕ × ℕ)) := do
  expects (M ≥ 0 ∧ hidden ≥ 0 ∧ topK > 0 ∧ EM ≥ 0) "M, hidden, top_k, EM must be valid"
    "M >= 0 && hidden >= 0 && top_k > 0 && EM >= 0"
  return sortStores A ids (M * topK) hidden.toNat topK.toNat EM.toNat

/-- A padding row: zero nibbles, scales `0xFF`. -/
def paddingRow (pk sc hidden groupSize : ℕ) : List Access :=
  (List.range (hidden / 2)).map (fun j => Access.store (.packed (pk + j)) 0) ++
    (List.range (hidden / groupSize)).map fun g => Access.store (.scale (sc + g)) 0xFF

/-- The rows of a fused call. -/
def sortedQuantRows (A : ℕ → ℕ) (ids : ℕ → ℤ) (N : ℤ) (hidden groupSize topK EM : ℕ) : List (List Access) :=
  (List.range EM).map fun r =>
    if IsReal ids N r then
      quantRow A ((ids r).toNat / topK * hidden) (r * (hidden / 2)) (r * (hidden / groupSize)) hidden groupSize
    else paddingRow (r * (hidden / 2)) (r * (hidden / groupSize)) hidden groupSize

/-- `mxfp4_moe_sorted_quant`. -/
def mxfp4MoeSortedQuant (A : ℕ → ℕ) (ids : ℕ → ℤ) (M hidden groupSize topK EM : ℤ) :
    Except String (List (List Access)) := do
  expects (M ≥ 0 ∧ hidden ≥ 0) "M and hidden must be non-negative" "M >= 0 && hidden >= 0"
  expects (topK > 0) "top_k must be positive" "top_k > 0"
  expects (EM ≥ 0) "EM must be non-negative" "EM >= 0"
  expects (groupSize > 0) "group_size must be positive" "group_size > 0"
  expects (hidden.tmod groupSize = 0) "hidden must be a multiple of group_size" "hidden % group_size == 0"
  expects (hidden.tmod 2 = 0) "hidden must be even (two nibbles per byte)" "hidden % 2 == 0"
  return sortedQuantRows A ids (M * topK) hidden.toNat groupSize.toNat topK.toNat EM.toNat

variable {R : Type} [Semiring R]

def scatterRow (part W : ℕ → R) (ids : ℕ → ℤ) (N : ℤ) (width topK : ℕ) (out : ℕ → R) (r : ℕ) : ℕ → R :=
  if IsReal ids N r then
    let dst := (ids r).toNat / topK * width
    (List.range width).foldl (fun out j => Function.update out (dst + j) (out (dst + j) + part (r * width + j) * W r)) out
  else out

/-- `mxfp4_moe_scatter_reduce`. -/
def mxfp4MoeScatterReduce (part W : ℕ → R) (ids : ℕ → ℤ) (out : ℕ → R) (M width topK EM : ℤ) :
    Except String (ℕ → R) := do
  expects (M ≥ 0 ∧ width ≥ 0 ∧ topK > 0 ∧ EM ≥ 0) "M, width, top_k, EM must be valid"
    "M >= 0 && width >= 0 && top_k > 0 && EM >= 0"
  return (List.range EM.toNat).foldl (scatterRow part W ids (M * topK) width.toNat topK.toNat) out

/-! ## What is promised -/

/-- Whatever the activations and the three buffers hold, the fused call leaves, byte by byte and scale by scale of every
sorted row, what the gather and the quantiser leave. -/
def FusedExact (ids : ℕ → ℤ) (M hidden groupSize topK EM : ℤ) : Prop :=
  ∀ (A gathered : ℕ → ℕ) (mem mem' : Place → ℕ), ∃ fused moved composed,
    mxfp4MoeSortedQuant A ids M hidden groupSize topK EM = .ok fused ∧
    mxfp4MoeSort A ids M hidden topK EM = .ok moved ∧
    mxfp4MoeQuant (assign moved gathered) EM hidden groupSize = .ok composed ∧
    ∀ r < EM.toNat,
      (∀ j < hidden.toNat / 2, assign (storesOf fused.flatten) mem (.packed (r * (hidden.toNat / 2) + j)) =
        assign (storesOf composed.flatten) mem' (.packed (r * (hidden.toNat / 2) + j))) ∧
      ∀ g < hidden.toNat / groupSize.toNat,
        assign (storesOf fused.flatten) mem (.scale (r * (hidden.toNat / groupSize.toNat) + g)) =
          assign (storesOf composed.flatten) mem' (.scale (r * (hidden.toNat / groupSize.toNat) + g))

/-- Flat index `i` has an expert. -/
def Routed (topkIds : ℕ → ℤ) (numExperts i : ℕ) : Prop := 0 ≤ topkIds i ∧ topkIds i < numExperts

instance (topkIds : ℕ → ℤ) (numExperts i : ℕ) : Decidable (Routed topkIds numExperts i) :=
  inferInstanceAs (Decidable (_ ∧ _))

/-- Every routed index has one sorted row, no other row is real, and the scatter adds to a token's output the weighted
rows of its routed indices; all `topK` of them where all have an expert. -/
structure Reduces (R : Type) [Semiring R] (topkIds : ℕ → ℤ) (numExperts : ℕ) (sorted : List ℕ) (M topK width em : ℕ) :
    Prop where
  row : ∀ i < M * topK, Routed topkIds numExperts i → ∀ r < em, sorted.getD r 0 = i ↔ r = sorted.idxOf i
  exists_row : ∀ i < M * topK, Routed topkIds numExperts i → sorted.idxOf i < em
  sum : ∀ part W out : ℕ → R, ∃ out',
    mxfp4MoeScatterReduce part W (fun r => (sorted.getD r 0 : ℤ)) out M width topK em = .ok out' ∧
    ∀ t < M, ∀ j < width, out' (t * width + j) = out (t * width + j) +
      ∑ sel ∈ range topK, if Routed topkIds numExperts (t * topK + sel) then
        part (sorted.idxOf (t * topK + sel) * width + j) * W (sorted.idxOf (t * topK + sel)) else 0
  all : (∀ i < M * topK, Routed topkIds numExperts i) → ∀ part W out : ℕ → R, ∃ out',
    mxfp4MoeScatterReduce part W (fun r => (sorted.getD r 0 : ℤ)) out M width topK em = .ok out' ∧
    ∀ t < M, ∀ j < width, out' (t * width + j) = out (t * width + j) +
      ∑ sel ∈ range topK,
        part (sorted.idxOf (t * topK + sel) * width + j) * W (sorted.idxOf (t * topK + sel))

/-! ## Sorted rows -/

section

variable {A A' : ℕ → ℕ} {row row' gs g j : ℕ}

lemma groupAmax_congr {x y : ℕ → Single} {n : ℕ} (h : ∀ i < n, x i = y i) : groupAmax x n = groupAmax y n := by
  refine foldl_ext _ _ _ fun amax i hi => ?_
  rw [h i (mem_range.mp hi)]

lemma scaleAt_congr (h : ∀ i < gs, A (row + (g * gs + i)) = A' (row' + (g * gs + i))) :
    scaleAt A row gs g = scaleAt A' row' gs g := by
  unfold scaleAt
  rw [groupAmax_congr fun i hi => congrArg bf16ToFloat (h i hi)]

lemma codeAt_congr {hidden k : ℕ} (hdiv : gs ∣ hidden) (hk : k < hidden)
    (h : ∀ k < hidden, A (row + k) = A' (row' + k)) : codeAt A row gs k = codeAt A' row' gs k := by
  have hend : k / gs * gs + gs ≤ hidden := by
    obtain ⟨n, rfl⟩ := hdiv
    have hlt : k / gs < n := Nat.div_lt_of_lt_mul hk
    rw [← Nat.succ_mul, mul_comm gs]
    exact Nat.mul_le_mul_right gs hlt
  unfold codeAt
  rw [scaleAt_congr fun i hi => h _ (by omega), h k hk]

lemma byteAt_congr {hidden : ℕ} (hdiv : gs ∣ hidden) (hj : 2 * j + 1 < hidden)
    (h : ∀ k < hidden, A (row + k) = A' (row' + k)) : byteAt A row gs j = byteAt A' row' gs j := by
  unfold byteAt
  rw [codeAt_congr hdiv hj h, codeAt_congr hdiv (by omega) h]

lemma bf16_zero : bf16ToFloat 0 = ⟨false, .fin 0⟩ := by
  norm_num [bf16ToFloat, Single.ofBits, magnitudeOf]

lemma scaleAt_zeros (h : ∀ i < gs, A (row + (g * gs + i)) = 0) : (scaleAt A row gs g).1 = 0xFF := by
  have hfinite : ∀ i < gs, (bf16ToFloat (A (row + (g * gs + i)))).Finite 0 := fun i hi => by
    rw [h i hi, bf16_zero]
    rfl
  obtain ⟨amax, hamax, -, -, hmem⟩ := groupAmax_fin hfinite
  have hzero : amax = 0 := by
    rcases hmem with h0 | ⟨_, _, h0⟩
    · exact h0
    · exact h0.symm
  unfold scaleAt
  rw [hamax, hzero, groupScale_zero]

lemma byteAt_zeros : byteAt (fun _ => 0) row gs j = 0 := by
  have hcode (k : ℕ) : codeAt (fun _ => 0) row gs k = 0 := by
    unfold codeAt groupNibble
    rw [if_pos (scaleAt_zeros fun _ _ => rfl)]
  unfold byteAt
  rw [hcode, hcode]
  rfl

end

def sortedRow (A : ℕ → ℕ) (ids : ℕ → ℤ) (N : ℤ) (hidden topK r k : ℕ) : ℕ :=
  if IsReal ids N r then A ((ids r).toNat / topK * hidden + k) else 0

section

variable {A gathered : ℕ → ℕ} {ids : ℕ → ℤ} {N : ℤ} {hidden topK EM gs h n r : ℕ}

lemma mem_sortStores {i v : ℕ} : (i, v) ∈ sortStores A ids N hidden topK EM ↔
    ∃ r < EM, ∃ j < hidden, i = r * hidden + j ∧ v = sortedRow A ids N hidden topK r j := by
  unfold sortStores sortedRow
  rw [mem_flatMap]
  refine exists_congr fun r => and_congr List.mem_range ?_
  split
  · rw [List.mem_map]
    exact exists_congr fun j => and_congr List.mem_range (by rw [Prod.mk.injEq, eq_comm, eq_comm (b := v)])
  · rw [List.mem_map]
    exact exists_congr fun j => and_congr List.mem_range (by rw [Prod.mk.injEq, eq_comm, eq_comm (b := v)])

/-- **The gather** leaves the sorted rows. -/
theorem gathered_eq (hr : r < EM) {k : ℕ} (hk : k < hidden) :
    assign (sortStores A ids N hidden topK EM) gathered (r * hidden + k) = sortedRow A ids N hidden topK r k :=
  assign_grid id (fun r k => sortedRow A ids N hidden topK r k) (fun _ _ => mem_sortStores) hr hk gathered

lemma getD_sortedQuantRows (hr : r < EM) : (sortedQuantRows A ids N hidden gs topK EM).getD r [] =
    if IsReal ids N r then quantRow A ((ids r).toNat / topK * hidden) (r * (hidden / 2)) (r * (hidden / gs)) hidden gs
    else paddingRow (r * (hidden / 2)) (r * (hidden / gs)) hidden gs := by
  unfold sortedQuantRows
  rw [getD_eq_getElem _ _ (by simpa using hr), getElem_map, getElem_range]

lemma packed_mem_paddingRow {pk sc i v : ℕ} : Access.store (.packed i) v ∈ paddingRow pk sc hidden gs ↔
    ∃ j < hidden / 2, i = pk + j ∧ v = 0 := by
  unfold paddingRow
  simp only [mem_append, List.mem_map, List.mem_range, Access.store.injEq, Place.packed.injEq, reduceCtorEq,
    false_and, and_false, exists_false, or_false]
  exact exists_congr fun j => and_congr_right fun _ => and_congr eq_comm eq_comm

lemma scale_mem_paddingRow {pk sc i v : ℕ} : Access.store (.scale i) v ∈ paddingRow pk sc hidden gs ↔
    ∃ g < hidden / gs, i = sc + g ∧ v = 0xFF := by
  unfold paddingRow
  simp only [mem_append, List.mem_map, List.mem_range, Access.store.injEq, Place.scale.injEq, reduceCtorEq,
    false_and, and_false, exists_false, false_or]
  exact exists_congr fun j => and_congr_right fun _ => and_congr eq_comm eq_comm

lemma sortedQuantRows_bytes (A : ℕ → ℕ) (ids : ℕ → ℤ) (N : ℤ) (topK : ℕ) (hh : 0 < h) (mem : Place → ℕ) (hr : r < EM) :
    (∀ j < n * h, assign (storesOf (sortedQuantRows A ids N (n * (2 * h)) (2 * h) topK EM).flatten) mem
        (.packed (r * (n * h) + j)) = byteAt (sortedRow A ids N (n * (2 * h)) topK r) 0 (2 * h) j) ∧
    ∀ g < n, assign (storesOf (sortedQuantRows A ids N (n * (2 * h)) (2 * h) topK EM).flatten) mem
        (.scale (r * n + g)) = (scaleAt (sortedRow A ids N (n * (2 * h)) topK r) 0 (2 * h) g).1 := by
  obtain ⟨hgroups, hbytes⟩ := row_widths (n := n) hh
  have hlength : (sortedQuantRows A ids N (n * (2 * h)) (2 * h) topK EM).length = EM := by simp [sortedQuantRows]
  have hreal {r : ℕ} (hreal : IsReal ids N r) (k : ℕ) :
      A ((ids r).toNat / topK * (n * (2 * h)) + k) = sortedRow A ids N (n * (2 * h)) topK r (0 + k) := by
    rw [zero_add, sortedRow, if_pos hreal]
  have hpadding {r : ℕ} (hpad : ¬IsReal ids N r) : sortedRow A ids N (n * (2 * h)) topK r = fun _ => 0 := by
    funext k
    exact if_neg hpad
  constructor
  · intro j hj
    refine assign_grid Place.packed (fun r j => byteAt (sortedRow A ids N (n * (2 * h)) topK r) 0 (2 * h) j)
      (fun i v => ?_) hr hj mem
    rw [mem_storesOf_flatten, hlength]
    refine exists_congr fun r => and_congr_right fun hr => ?_
    rw [getD_sortedQuantRows hr, hbytes]
    split
    · rename_i hrow
      rw [packed_mem_quantRow hh]
      refine exists_congr fun j => and_congr_right fun hj => and_congr_right fun _ => ?_
      rw [byteAt_congr (Dvd.intro_left n rfl) (show 2 * j + 1 < n * (2 * h) by omega)
        fun k _ => hreal hrow k]
    · rename_i hrow
      rw [packed_mem_paddingRow, hbytes]
      refine exists_congr fun j => and_congr_right fun hj => and_congr_right fun _ => ?_
      rw [hpadding hrow, byteAt_zeros]
  · intro g hg
    refine assign_grid Place.scale (fun r g => (scaleAt (sortedRow A ids N (n * (2 * h)) topK r) 0 (2 * h) g).1)
      (fun i v => ?_) hr hg mem
    rw [mem_storesOf_flatten, hlength]
    refine exists_congr fun r => and_congr_right fun hr => ?_
    rw [getD_sortedQuantRows hr, hgroups]
    split
    · rename_i hrow
      rw [scale_mem_quantRow, hgroups]
      refine exists_congr fun g => and_congr_right fun _ => and_congr_right fun _ => ?_
      rw [scaleAt_congr fun i _ => hreal hrow _]
    · rename_i hrow
      rw [scale_mem_paddingRow, hgroups]
      refine exists_congr fun g => and_congr_right fun _ => and_congr_right fun _ => ?_
      rw [hpadding hrow, scaleAt_zeros fun _ _ => rfl]

lemma fused_of_even (hh : 0 < h) (mem mem' : Place → ℕ) (hr : r < EM) :
    (∀ j < n * h, assign (storesOf (sortedQuantRows A ids N (n * (2 * h)) (2 * h) topK EM).flatten) mem
        (.packed (r * (n * h) + j)) =
      assign (storesOf (quantRows (assign (sortStores A ids N (n * (2 * h)) topK EM) gathered) EM (n * (2 * h))
        (2 * h)).flatten) mem' (.packed (r * (n * h) + j))) ∧
    ∀ g < n, assign (storesOf (sortedQuantRows A ids N (n * (2 * h)) (2 * h) topK EM).flatten) mem
        (.scale (r * n + g)) =
      assign (storesOf (quantRows (assign (sortStores A ids N (n * (2 * h)) topK EM) gathered) EM (n * (2 * h))
        (2 * h)).flatten) mem' (.scale (r * n + g)) := by
  have hdouble : n * (2 * h) = 2 * (n * h) := mul_left_comm n 2 h
  obtain ⟨hpacked, hscale⟩ := sortedQuantRows_bytes A ids N topK (n := n) hh mem hr
  obtain ⟨hpacked', hscale'⟩ := quantRows_bytes (A := assign _ gathered)
    (n := n) hh mem' hr
  have hrow (k : ℕ) (hk : k < n * (2 * h)) :
      assign (sortStores A ids N (n * (2 * h)) topK EM) gathered (r * (n * (2 * h)) + k) =
        sortedRow A ids N (n * (2 * h)) topK r (0 + k) := by
    rw [zero_add]
    exact gathered_eq hr hk
  refine ⟨fun j hj => ?_, fun g hg => ?_⟩
  · rw [hpacked j hj, hpacked' j hj]
    exact (byteAt_congr (Dvd.intro_left n rfl) (by omega) hrow).symm
  · rw [hscale g hg, hscale' g hg]
    have hend := (group_end (h := h) hg).1
    rw [scaleAt_congr fun i hi => hrow _ (by omega)]

end

/-! ## Groups of odd size -/

section

variable {A : ℕ → ℕ} {row pk sc hidden gs : ℕ}

lemma packed_within (heven : 2 ∣ hidden) {i v : ℕ}
    (hstore : Access.store (.packed i) v ∈ quantRow A row pk sc hidden gs) : pk ≤ i ∧ i < pk + hidden / 2 := by
  obtain ⟨g, hg, hmem⟩ := mem_quantRow.mp hstore
  have hend := (Blocks.block_le hg gs).trans (Nat.div_mul_le_self hidden gs)
  obtain ⟨_, _, heq⟩ | heq | ⟨_, p, hp, heq⟩ | ⟨_, p, hp, heq | heq | heq⟩ := mem_quantGroup.mp hmem
  · cases heq
  · cases heq
  · obtain ⟨hplace, -⟩ := Access.store.inj heq
    obtain rfl := Place.packed.inj hplace
    omega
  · cases heq
  · cases heq
  · obtain ⟨hplace, -⟩ := Access.store.inj heq
    obtain rfl := Place.packed.inj hplace
    omega

lemma last_byte_of_zeros (heven : 2 ∣ hidden) (hodd : gs % 2 = 1)
    (hzeros : ∀ k < hidden, A (row + k) = 0) {i v : ℕ}
    (hstore : Access.store (.packed i) v ∈ quantRow A row pk sc hidden gs) : i < pk + (hidden / 2 - 1) := by
  obtain ⟨g, hg, hmem⟩ := mem_quantRow.mp hstore
  have hend := (Blocks.block_le hg gs).trans (Nat.div_mul_le_self hidden gs)
  have hscale : (scaleAt A row gs g).1 = 0xFF := scaleAt_zeros fun i hi => hzeros _ (by omega)
  obtain ⟨_, _, heq⟩ | heq | ⟨_, p, hp, heq⟩ | ⟨hreal, _⟩ := mem_quantGroup.mp hmem
  · cases heq
  · cases heq
  · obtain ⟨hplace, -⟩ := Access.store.inj heq
    obtain rfl := Place.packed.inj hplace
    omega
  · exact absurd hscale hreal

lemma scale_of_ones {x : ℕ → Single} {n : ℕ} (hn : 0 < n) (hones : ∀ i < n, (x i).Finite 1) :
    groupScale (groupAmax x n) = (126, ⟨false, .fin (1 / 2)⟩) := by
  obtain ⟨amax, hamax, hnonneg, hle, hmem⟩ := groupAmax_fin hones
  have hone : amax = 1 := by
    rcases hmem with h0 | ⟨_, _, h1⟩
    · have := hle 0 hn
      linarith
    · exact h1.symm
  have hclog : Int.clog 2 ((1 : ℚ) / mxFp4Max) = -1 := by
    rw [Int.clog_of_right_le_one 2 (by norm_num [mxFp4Max])]
    norm_num [mxFp4Max]
  rw [hamax, hone]
  unfold groupScale
  dsimp only
  rw [if_pos one_pos, hclog]
  show (126, ue8m0ToFloat 126) = _
  have hpower := ofBits_power (e := 126) (by norm_num) (by norm_num)
  norm_num at hpower
  rw [ue8m0ToFloat, if_neg (by norm_num), hpower]

lemma suffix_flatMap_range {α : Type} (f : ℕ → List α) (n : ℕ) : f n <:+ (List.range (n + 1)).flatMap f := by
  rw [range_succ, flatMap_append, flatMap_singleton]
  exact suffix_append _ _

lemma quantRows_last {e n p : ℕ} {A : ℕ → ℕ}
    (hreal : (scaleAt A (e * ((n + 1) * (2 * p + 1))) (2 * p + 1) n).1 ≠ 0xFF) :
    [Access.store (.packed (e * ((n + 1) * (2 * p + 1) / 2) + (n * (2 * p + 1) / 2 + 2 * p / 2)))
      (pair (floatToFp4Nib (quotient (bf16ToFloat (A (e * ((n + 1) * (2 * p + 1)) + (n * (2 * p + 1) + 2 * p + 1))))
          (scaleAt A (e * ((n + 1) * (2 * p + 1))) (2 * p + 1) n).2))
        (floatToFp4Nib (quotient (bf16ToFloat (A (e * ((n + 1) * (2 * p + 1)) + (n * (2 * p + 1) + 2 * p))))
          (scaleAt A (e * ((n + 1) * (2 * p + 1))) (2 * p + 1) n).2)))] <:+
      (quantRows A (e + 1) ((n + 1) * (2 * p + 1)) (2 * p + 1)).flatten := by
  have hrow : quantRow A (e * ((n + 1) * (2 * p + 1))) (e * ((n + 1) * (2 * p + 1) / 2))
      (e * ((n + 1) * (2 * p + 1) / (2 * p + 1))) ((n + 1) * (2 * p + 1)) (2 * p + 1) <:+
        (quantRows A (e + 1) ((n + 1) * (2 * p + 1)) (2 * p + 1)).flatten := by
    unfold quantRows
    exact suffix_flatMap_range (fun m => quantRow A (m * ((n + 1) * (2 * p + 1))) (m * ((n + 1) * (2 * p + 1) / 2))
      (m * ((n + 1) * (2 * p + 1) / (2 * p + 1))) _ _) e
  refine IsSuffix.trans ?_ hrow
  unfold quantRow
  rw [Nat.mul_div_cancel _ (by omega)]
  refine IsSuffix.trans ?_ (suffix_flatMap_range _ n)
  unfold quantGroup
  dsimp only
  rw [if_neg hreal, show (2 * p + 1 + 1) / 2 = p + 1 by omega]
  refine IsSuffix.trans ?_ (suffix_append _ _)
  refine IsSuffix.trans ?_ (suffix_cons _ _)
  refine IsSuffix.trans ?_ (suffix_flatMap_range _ p)
  exact suffix_append [_, _] _

lemma assign_last {l : List Access} {q : Place} {v : ℕ} (hlast : [Access.store q v] <:+ l) (mem : Place → ℕ) :
    assign (storesOf l) mem q = v := by
  obtain ⟨front, rfl⟩ := hlast
  have hsplit : storesOf (front ++ [Access.store q v]) = storesOf front ++ [(q, v)] := filterMap_append
  rw [hsplit]
  generalize storesOf front = stores
  induction stores generalizing mem with
  | nil => exact Function.update_self q v mem
  | cons st stores ih => exact ih (Function.update mem st.1 st.2)

lemma bf16_one : bf16ToFloat (127 <<< 7) = ⟨false, .fin 1⟩ := by
  have hpower := ofBits_power (e := 127) (by norm_num) (by norm_num)
  exact hpower

lemma nibbles_at_half : floatToFp4Nib (quotient ⟨false, .fin 1⟩ ⟨false, .fin (1 / 2)⟩) = 4 ∧
    floatToFp4Nib (quotient ⟨false, .fin 0⟩ ⟨false, .fin (1 / 2)⟩) = 0 := by
  constructor
  · norm_num [floatToFp4Nib, quotient, magnitudeCode, gt_fin]
  · norm_num [floatToFp4Nib, quotient, magnitudeCode, gt_fin]

variable {ids : ℕ → ℤ} {N : ℤ} {topK e : ℕ}

lemma gathered_after {gathered : ℕ → ℕ} {k : ℕ} :
    assign (sortStores A ids N hidden topK (e + 1)) gathered (e * hidden + hidden + k) =
      gathered (e * hidden + hidden + k) := by
  refine assign_frame (fun h => ?_) gathered
  obtain ⟨⟨i, v⟩, hin, heq⟩ := mem_map.mp h
  obtain ⟨r, hr, j, hj, rfl, -⟩ := mem_sortStores.mp hin
  have hle := Nat.mul_le_mul_right hidden (Nat.le_of_lt_succ hr)
  omega

/-- **Where the last row is real**, the composition's last byte depends on what lies behind the gathered rows. -/
theorem composed_last_real {n p c : ℕ} (hreal : IsReal ids N e) (mem : Place → ℕ) :
    assign (storesOf (quantRows (assign (sortStores (fun _ => 127 <<< 7) ids N ((n + 1) * (2 * p + 1)) topK (e + 1))
        fun _ => c) (e + 1) ((n + 1) * (2 * p + 1)) (2 * p + 1)).flatten) mem
      (.packed (e * ((n + 1) * (2 * p + 1) / 2) + (n * (2 * p + 1) / 2 + 2 * p / 2))) =
      pair (floatToFp4Nib (quotient (bf16ToFloat c) ⟨false, .fin (1 / 2)⟩)) 4 := by
  generalize hB : assign (sortStores (fun _ => 127 <<< 7) ids N _ topK (e + 1)) (fun _ => c) = B
  have hsucc : (n + 1) * (2 * p + 1) = n * (2 * p + 1) + (2 * p + 1) := Nat.succ_mul n _
  have hones (k : ℕ) (hk : k < (n + 1) * (2 * p + 1)) : B (e * ((n + 1) * (2 * p + 1)) + k) = 127 <<< 7 := by
    rw [← hB, gathered_eq (Nat.lt_succ_self e) hk, sortedRow, if_pos hreal]
  have hafter : B (e * ((n + 1) * (2 * p + 1)) + (n * (2 * p + 1) + 2 * p + 1)) = c := by
    have hindex : e * ((n + 1) * (2 * p + 1)) + (n * (2 * p + 1) + 2 * p + 1) =
        e * ((n + 1) * (2 * p + 1)) + (n + 1) * (2 * p + 1) + 0 := by omega
    rw [hindex, ← hB, gathered_after]
  have hscale : scaleAt B (e * ((n + 1) * (2 * p + 1))) (2 * p + 1) n = (126, ⟨false, .fin (1 / 2)⟩) := by
    refine scale_of_ones (by omega) fun i hi => ?_
    rw [hones _ (by omega), bf16_one]
    rfl
  have hlast := quantRows_last (e := e) (n := n) (p := p) (A := B) (by rw [hscale]; norm_num)
  rw [hscale, hafter, hones _ (by omega), bf16_one, nibbles_at_half.1] at hlast
  exact assign_last hlast mem

/-- **Where the last row is padding**, the composition leaves its last byte alone. -/
theorem composed_last_padding {gathered : ℕ → ℕ} (heven : 2 ∣ hidden) (hodd : gs % 2 = 1)
    (hpad : ¬IsReal ids N e) (mem : Place → ℕ) :
    assign (storesOf (quantRows (assign (sortStores A ids N hidden topK (e + 1)) gathered) (e + 1) hidden gs).flatten)
      mem (.packed (e * (hidden / 2) + (hidden / 2 - 1))) = mem (.packed (e * (hidden / 2) + (hidden / 2 - 1))) := by
  refine assign_frame (fun h => ?_) mem
  obtain ⟨⟨q, v⟩, hin, heq⟩ := mem_map.mp h
  have heq : q = .packed (e * (hidden / 2) + (hidden / 2 - 1)) := heq
  subst heq
  obtain ⟨r, hr, hstore⟩ := mem_storesOf_flatten.mp hin
  have hr : r < e + 1 := by simpa [quantRows] using hr
  rw [getD_quantRows hr] at hstore
  rcases Nat.lt_succ_iff_lt_or_eq.mp hr with hlt | rfl
  · have hwithin := (packed_within heven hstore).2
    have hle := Blocks.block_le hlt (hidden / 2)
    omega
  · have hzeros : ∀ k < hidden, assign (sortStores A ids N hidden topK (r + 1)) gathered (r * hidden + k) = 0 := by
      intro k hk
      rw [gathered_eq (Nat.lt_succ_self r) hk, sortedRow, if_neg hpad]
    have := last_byte_of_zeros heven hodd hzeros hstore
    omega

lemma fused_straddles (ids : ℕ → ℤ) (N : ℤ) (topK e : ℕ) (hdiv : gs ∣ hidden) (heven : 2 ∣ hidden) (hodd : gs % 2 = 1) (hpos : 0 < hidden)
    (hfused : ∀ (A gathered : ℕ → ℕ) (mem mem' : Place → ℕ), ∀ j < hidden / 2,
      assign (storesOf (sortedQuantRows A ids N hidden gs topK (e + 1)).flatten) mem (.packed (e * (hidden / 2) + j)) =
        assign (storesOf (quantRows (assign (sortStores A ids N hidden topK (e + 1)) gathered) (e + 1) hidden gs).flatten)
          mem' (.packed (e * (hidden / 2) + j))) : False := by
  have hhalf : hidden / 2 - 1 < hidden / 2 := by omega
  by_cases hreal : IsReal ids N e
  · obtain ⟨m, rfl⟩ := hdiv
    obtain ⟨p, rfl⟩ : ∃ p, gs = 2 * p + 1 := ⟨gs / 2, by omega⟩
    obtain ⟨n, rfl⟩ : ∃ n, m = n + 1 := ⟨m - 1, by
      have := Nat.pos_of_mul_pos_left hpos
      omega⟩
    rw [Nat.mul_comm] at *
    have hsucc : (n + 1) * (2 * p + 1) = n * (2 * p + 1) + (2 * p + 1) := Nat.succ_mul n _
    have hlast : (n + 1) * (2 * p + 1) / 2 - 1 = n * (2 * p + 1) / 2 + 2 * p / 2 := by omega
    have hzero := hfused (fun _ => 127 <<< 7) (fun _ => 0) (fun _ => 0) (fun _ => 0) _ hhalf
    have hone := hfused (fun _ => 127 <<< 7) (fun _ => 127 <<< 7) (fun _ => 0) (fun _ => 0) _ hhalf
    rw [hlast, composed_last_real hreal, bf16_zero, nibbles_at_half.2] at hzero
    rw [hlast, composed_last_real hreal, bf16_one, nibbles_at_half.1, hzero] at hone
    revert hone
    decide
  · have hzero := hfused (fun _ => 0) (fun _ => 0) (fun _ => 0) (fun _ => 0) _ hhalf
    have hone := hfused (fun _ => 0) (fun _ => 0) (fun _ => 0) (fun _ => 1) _ hhalf
    rw [composed_last_padding heven hodd hreal] at hzero hone
    rw [hzero] at hone
    exact absurd hone (by norm_num)

end

/-! ## The scatter -/

section

variable {part W : ℕ → R} {ids : ℕ → ℤ} {N : ℤ} {width topK : ℕ}

lemma scatterLoop_read (g : ℕ → R) (dst n x : ℕ) (out : ℕ → R) :
    (List.range n).foldl (fun out j => Function.update out (dst + j) (out (dst + j) + g j)) out x =
      if dst ≤ x ∧ x < dst + n then out x + g (x - dst) else out x := by
  induction n with
  | zero => rw [if_neg (by omega)]; rfl
  | succ n ih =>
    rw [range_succ, foldl_concat]
    by_cases hx : x = dst + n
    · subst hx
      rw [if_neg (by omega)] at ih
      rw [Function.update_self, ih, if_pos ⟨by omega, by omega⟩, Nat.add_sub_cancel_left]
    · rw [Function.update_of_ne hx, ih]
      by_cases hin : dst ≤ x ∧ x < dst + n
      · rw [if_pos hin, if_pos ⟨hin.1, by omega⟩]
      · rw [if_neg hin, if_neg (by omega)]

lemma scatterRow_read (out : ℕ → R) (r t : ℕ) {j : ℕ} (hj : j < width) :
    scatterRow part W ids N width topK out r (t * width + j) = out (t * width + j) +
      if IsReal ids N r ∧ (ids r).toNat / topK = t then part (r * width + j) * W r else 0 := by
  unfold scatterRow
  by_cases hreal : IsReal ids N r
  · rw [if_pos hreal, scatterLoop_read]
    by_cases ht : (ids r).toNat / topK = t
    · rw [ht, if_pos ⟨by omega, by omega⟩, if_pos ⟨hreal, rfl⟩, Nat.add_sub_cancel_left]
    · have hother : ¬((ids r).toNat / topK * width ≤ t * width + j ∧
          t * width + j < (ids r).toNat / topK * width + width) := by
        rcases lt_or_gt_of_ne ht with hlt | hgt
        · have := Blocks.block_le hlt width
          omega
        · have := Blocks.block_le hgt width
          omega
      rw [if_neg hother, if_neg fun h => ht h.2, add_zero]
  · rw [if_neg hreal, if_neg fun h => hreal h.1, add_zero]

lemma scatterReduce_sum (out : ℕ → R) (em t : ℕ) {j : ℕ} (hj : j < width) :
    (List.range em).foldl (scatterRow part W ids N width topK) out (t * width + j) = out (t * width + j) +
      ∑ r ∈ range em, if IsReal ids N r ∧ (ids r).toNat / topK = t then part (r * width + j) * W r else 0 :=
  TileLoops.foldl_add (fun out : ℕ → R => out _) (fun out r => scatterRow_read out r t hj) em out

end

/-! ## Over aligned ids -/

lemma place_unique {l : List ℕ} {i : ℕ} (honce : l.count i = 1) : ∀ {r s : ℕ}, l[r]? = some i → l[s]? = some i →
    r = s := by
  induction l with
  | nil => simp at honce
  | cons a l ih =>
    have hhead {s : ℕ} (ha : a = i) (hs : l[s]? = some i) : False := by
      have hpos := count_pos_iff.mpr (mem_of_getElem? hs)
      rw [ha, count_cons_self] at honce
      omega
    intro r s hr hs
    cases r with
    | zero =>
      cases s with
      | zero => rfl
      | succ s =>
        exact (hhead (by simpa using hr) (by simpa using hs)).elim
    | succ r =>
      cases s with
      | zero => exact (hhead (by simpa using hs) (by simpa using hr)).elim
      | succ s =>
        have hne : a ≠ i := fun ha => hhead ha (by simpa using hr)
        rw [count_cons_of_ne hne] at honce
        exact congrArg Nat.succ (ih honce (by simpa using hr) (by simpa using hs))

section

variable {topkIds : ℕ → ℤ} {M topK blockSize numExperts em : ℕ} {sorted : List ℕ}

/-- The sorted ids: the layout, and whatever the buffer holds behind it. -/
structure SortedIds (topkIds : ℕ → ℤ) (M topK numExperts em : ℕ) (sorted : List ℕ) : Prop where
  length : em ≤ sorted.length
  row : ∀ i < M * topK, Routed topkIds numExperts i → ∀ r < em, sorted.getD r 0 = i ↔ r = sorted.idxOf i
  exists_row : ∀ i < M * topK, Routed topkIds numExperts i → sorted.idxOf i < em
  only : ∀ r < em, sorted.getD r 0 = M * topK ∨ sorted.getD r 0 < M * topK ∧ Routed topkIds numExperts (sorted.getD r 0)

lemma sortedIds_of_align (hblock : 0 < blockSize) {sorted₀ : List ℕ} {experts₀ experts : List ℤ}
    (halign : moeAlignBlockSize topkIds M topK blockSize numExperts sorted₀ experts₀ = .ok (em, sorted, experts)) :
    SortedIds topkIds M topK numExperts em sorted := by
  obtain ⟨hem, htake⟩ := moeAlignBlockSize_ok topkIds M topK numExperts hblock halign
  have haligned := paddedIds_aligned topkIds M topK numExperts hblock
  rw [← htake] at haligned hem
  have hlength : em ≤ sorted.length := by
    rw [length_take] at hem
    omega
  have hget (r : ℕ) (hr : r < em) : (sorted.take em)[r]? = some (sorted.getD r 0) := by
    rw [getElem?_take_of_lt hr, getElem?_eq_getElem (by omega), getD_eq_getElem]
  have hplace (i : ℕ) (hi : i < M * topK) (hrouted : Routed topkIds numExperts i) :
      sorted.idxOf i < em ∧ (sorted.take em)[sorted.idxOf i]? = some i := by
    have honce := haligned.once i hi hrouted.1 hrouted.2
    have hmem : i ∈ sorted.take em := count_pos_iff.mp (by omega)
    have hlead : sorted.idxOf i = (sorted.take em).idxOf i := by
      conv_lhs => rw [← take_append_drop em sorted]
      exact idxOf_append_of_mem hmem
    have hlt := idxOf_lt_length_of_mem hmem
    have hin : sorted.idxOf i < em := by
      omega
    refine ⟨hin, ?_⟩
    rw [hlead, getElem?_eq_getElem hlt, getElem_idxOf hlt]
  refine ⟨hlength, fun i hi hrouted r hr => ⟨fun heq => ?_, fun heq => ?_⟩, fun i hi hrouted => (hplace i hi hrouted).1,
    fun r hr => haligned.only _ (mem_of_getElem? (hget r hr))⟩
  · exact place_unique (haligned.once i hi hrouted.1 hrouted.2) (by rw [hget r hr, heq]) (hplace i hi hrouted).2
  · have hat := (hplace i hi hrouted).2
    rw [← heq, hget r hr] at hat
    exact Option.some.inj hat

lemma sum_token_rows {R : Type} [AddCommMonoid R] (h : SortedIds topkIds M topK numExperts em sorted)
    (htopK : 0 < topK) {t : ℕ} (ht : t < M) (F : ℕ → R) :
    (∑ r ∈ range em, if sorted.getD r 0 < M * topK ∧ sorted.getD r 0 / topK = t then F r else 0) = ∑ sel ∈ range topK,
        if Routed topkIds numExperts (t * topK + sel) then F (sorted.idxOf (t * topK + sel)) else 0 := by
  have hend : t * topK + topK ≤ M * topK := by
    rw [← Nat.succ_mul]
    exact Nat.mul_le_mul_right topK ht
  -- a real row of the token has one selection
  have hrow (r : ℕ) : (if sorted.getD r 0 < M * topK ∧ sorted.getD r 0 / topK = t then F r else 0) =
      ∑ sel ∈ range topK, if sorted.getD r 0 = t * topK + sel then F r else 0 := by
    generalize sorted.getD r 0 = i
    by_cases htoken : i < M * topK ∧ i / topK = t
    · have hsplit : i = t * topK + i % topK := by
        rw [← htoken.2]
        exact (Nat.div_add_mod' i topK).symm
      have hmod := Nat.mod_lt i htopK
      rw [if_pos htoken, sum_eq_single _ (fun sel _ hne => if_neg (by omega))
        fun hnot => absurd (mem_range.mpr hmod) hnot, if_pos hsplit]
    · rw [if_neg htoken, sum_eq_zero fun sel hsel => if_neg fun heq => htoken ?_]
      have hsel := mem_range.mp hsel
      refine ⟨by omega, ?_⟩
      rw [heq, Blocks.block_div t hsel]
  rw [sum_congr rfl fun r _ => hrow r, sum_comm]
  refine sum_congr rfl fun sel hsel => ?_
  have hi : t * topK + sel < M * topK := by
    have := mem_range.mp hsel
    omega
  -- and a routed index one row
  by_cases hrouted : Routed topkIds numExperts (t * topK + sel)
  · have hplace := h.exists_row _ hi hrouted
    rw [if_pos hrouted, sum_eq_single _
      (fun r hr hne => if_neg fun heq => hne ((h.row _ hi hrouted r (mem_range.mp hr)).mp heq))
      fun hnot => absurd (mem_range.mpr hplace) hnot,
      if_pos ((h.row _ hi hrouted _ hplace).mpr rfl)]
  · rw [if_neg hrouted]
    refine sum_eq_zero fun r hr => if_neg fun heq => hrouted ?_
    rcases h.only r (mem_range.mp hr) with hpad | ⟨-, hreal⟩
    · omega
    · rwa [heq] at hreal

lemma reduces_sorted {R : Type} [Semiring R] (h : SortedIds topkIds M topK numExperts em sorted) (htopK : 0 < topK)
    (width : ℕ) : Reduces R topkIds numExperts sorted M topK width em := by
  have hsum (part W out : ℕ → R) : ∃ out',
      mxfp4MoeScatterReduce part W (fun r => (sorted.getD r 0 : ℤ)) out M width topK em = .ok out' ∧
      ∀ t < M, ∀ j < width, out' (t * width + j) = out (t * width + j) +
        ∑ sel ∈ range topK, if Routed topkIds numExperts (t * topK + sel) then
          part (sorted.idxOf (t * topK + sel) * width + j) * W (sorted.idxOf (t * topK + sel)) else 0 := by
    refine ⟨_, expects_ok.mpr ⟨⟨by omega, by omega, by omega, by omega⟩, rfl⟩, fun t ht j hj => ?_⟩
    rw [Int.toNat_natCast, Int.toNat_natCast, Int.toNat_natCast, scatterReduce_sum out em t hj,
      ← sum_token_rows h htopK ht fun r => part (r * width + j) * W r]
    congr 1
    refine sum_congr rfl fun r _ => ?_
    have hreal : IsReal (fun r => (sorted.getD r 0 : ℤ)) ((M : ℤ) * topK) r ↔ sorted.getD r 0 < M * topK := by
      show ¬((sorted.getD r 0 : ℤ) < 0 ∨ (sorted.getD r 0 : ℤ) ≥ (M : ℤ) * topK) ↔ _
      omega
    rw [Int.toNat_natCast]
    simp only [hreal]
  refine ⟨h.row, h.exists_row, hsum, fun hall part W out => ?_⟩
  obtain ⟨out', hcall, hout⟩ := hsum part W out
  refine ⟨out', hcall, fun t ht j hj => ?_⟩
  rw [hout t ht j hj]
  congr 1
  refine sum_congr rfl fun sel hsel => if_pos (hall _ ?_)
  have hlt := mem_range.mp hsel
  have hend : t * topK + topK ≤ M * topK := by
    rw [← Nat.succ_mul]
    exact Nat.mul_le_mul_right topK ht
  omega

end

/-! ## The two together -/

lemma fused_accepted {ids : ℕ → ℤ} {M hidden gs topK EM : ℤ} {A : ℕ → ℕ} {fused : List (List Access)}
    (hok : mxfp4MoeSortedQuant A ids M hidden gs topK EM = .ok fused) :
    (M ≥ 0 ∧ hidden ≥ 0) ∧ topK > 0 ∧ EM ≥ 0 ∧ gs > 0 ∧ hidden.tmod gs = 0 ∧ hidden.tmod 2 = 0 := by
  obtain ⟨hnonneg, hok⟩ := expects_ok.mp hok
  obtain ⟨htopK, hok⟩ := expects_ok.mp hok
  obtain ⟨hEM, hok⟩ := expects_ok.mp hok
  obtain ⟨hgs, hok⟩ := expects_ok.mp hok
  obtain ⟨hdiv, hok⟩ := expects_ok.mp hok
  obtain ⟨heven, -⟩ := expects_ok.mp hok
  exact ⟨hnonneg, htopK, hEM, hgs, hdiv, heven⟩

lemma fusedExact_iff {ids : ℕ → ℤ} {M hidden gs topK EM : ℤ} {A₀ : ℕ → ℕ} {fused₀ : List (List Access)}
    (hok : mxfp4MoeSortedQuant A₀ ids M hidden gs topK EM = .ok fused₀) :
    FusedExact ids M hidden gs topK EM ↔ EM = 0 ∨ hidden = 0 ∨ gs % 2 = 0 := by
  obtain ⟨hnonneg, htopK, hEM, hgs, hdiv, heven⟩ := fused_accepted hok
  obtain ⟨hpos, hdvd, hdvd2⟩ := accepted_sizes hnonneg.2 hgs hdiv heven
  have hfused (A : ℕ → ℕ) : mxfp4MoeSortedQuant A ids M hidden gs topK EM =
      .ok (sortedQuantRows A ids (M * topK) hidden.toNat gs.toNat topK.toNat EM.toNat) :=
    expects_ok.mpr ⟨hnonneg, expects_ok.mpr ⟨htopK, expects_ok.mpr ⟨hEM, expects_ok.mpr ⟨hgs,
      expects_ok.mpr ⟨hdiv, expects_ok.mpr ⟨heven, rfl⟩⟩⟩⟩⟩⟩
  have hmoved (A : ℕ → ℕ) : mxfp4MoeSort A ids M hidden topK EM =
      .ok (sortStores A ids (M * topK) hidden.toNat topK.toNat EM.toNat) :=
    expects_ok.mpr ⟨⟨hnonneg.1, hnonneg.2, htopK, hEM⟩, rfl⟩
  have hcomposed (A : ℕ → ℕ) : mxfp4MoeQuant A EM hidden gs = .ok (quantRows A EM.toNat hidden.toNat gs.toNat) :=
    expects_ok.mpr ⟨⟨hEM, hnonneg.2⟩, expects_ok.mpr ⟨hgs, expects_ok.mpr ⟨hdiv,
      expects_ok.mpr ⟨heven, rfl⟩⟩⟩⟩
  constructor
  · intro hexact
    by_contra hnot
    obtain ⟨e, he⟩ : ∃ e, EM.toNat = e + 1 := ⟨EM.toNat - 1, by omega⟩
    refine fused_straddles ids (M * topK) topK.toNat e hdvd hdvd2 (by omega) (by omega)
      fun A gathered mem mem' j hj => ?_
    obtain ⟨_, _, _, hf, hm, hc, hrows⟩ := hexact A gathered mem mem'
    rw [hfused] at hf
    rw [hmoved] at hm
    obtain rfl := Except.ok.inj hf
    obtain rfl := Except.ok.inj hm
    rw [hcomposed] at hc
    obtain rfl := Except.ok.inj hc
    rw [he] at hrows
    exact (hrows e (Nat.lt_succ_self e)).1 j hj
  · intro hcond A _ mem mem'
    refine ⟨_, _, _, hfused A, hmoved A, hcomposed _, fun r hr => ?_⟩
    rcases hcond with h0 | h0 | hgsEven
    · omega
    · have hzero : hidden.toNat = 0 := by omega
      rw [hzero, Nat.zero_div]
      refine ⟨fun j hj => absurd hj (Nat.not_lt_zero j), fun g hg => ?_⟩
      rw [Nat.zero_div] at hg
      exact absurd hg (Nat.not_lt_zero g)
    · obtain ⟨h, n, hgsEq, hhidden⟩ := even_sizes hdvd (by omega)
      have hh : 0 < h := by omega
      obtain ⟨hgroups, hbytes⟩ := row_widths (n := n) hh
      rw [hgsEq, hhidden, hgroups, hbytes]
      exact fused_of_even hh mem mem' hr

/-- **Sorted rows, moved.** For every routing and the sorted ids of its alignment, and every call that is accepted: the
fused kernel leaves what the gather and the quantiser leave, and the scatter gives every token the weighted sum of its
rows, each once, if and only if there are no sorted rows, no elements, or groups of even size. -/
theorem sorted_movement_iff {R : Type} [Semiring R] {topkIds : ℕ → ℤ} {M topK blockSize numExperts em : ℕ}
    (hblock : 0 < blockSize) {sorted₀ sorted : List ℕ} {experts₀ experts : List ℤ}
    (halign : moeAlignBlockSize topkIds M topK blockSize numExperts sorted₀ experts₀ = .ok (em, sorted, experts))
    {hidden gs : ℤ} {A : ℕ → ℕ} {fused : List (List Access)}
    (hok : mxfp4MoeSortedQuant A (fun r => (sorted.getD r 0 : ℤ)) M hidden gs topK em = .ok fused) :
    (FusedExact (fun r => (sorted.getD r 0 : ℤ)) M hidden gs topK em ∧
        ∀ width, Reduces R topkIds numExperts sorted M topK width em) ↔ em = 0 ∨ hidden = 0 ∨ gs % 2 = 0 := by
  have htopK : 0 < topK := by
    have := (fused_accepted hok).2.1
    omega
  have hreduces (width : ℕ) : Reduces R topkIds numExperts sorted M topK width em :=
    reduces_sorted (sortedIds_of_align hblock halign) htopK width
  rw [fusedExact_iff hok, and_iff_left hreduces]
  exact or_congr (by omega) Iff.rfl

/-- One token to the one expert, rows of two elements in one group. -/
theorem sorted_movement_one : FusedExact (fun r => ([0].getD r 0 : ℕ)) (1 : ℕ) 2 2 (1 : ℕ) (1 : ℕ) ∧
      ∀ width, Reduces ℚ (fun _ => 0) 1 [0] 1 1 width 1 := by
  have halign : moeAlignBlockSize (fun _ => 0) 1 1 1 1 [0] [0] = .ok (1, [0], [0]) := rfl
  have hok : mxfp4MoeSortedQuant (fun _ => 0) (fun r => ([0].getD r 0 : ℕ)) (1 : ℕ) 2 2 (1 : ℕ) (1 : ℕ) = .ok _ := rfl
  exact (sorted_movement_iff one_pos halign hok).mpr (by norm_num)

/-- The same with groups of one element: accepted, but the two differ. -/
theorem sorted_movement_odd : moeAlignBlockSize (fun _ => 0) 1 1 1 1 [0] [0] = .ok (1, [0], [0]) ∧
    (∃ fused, mxfp4MoeSortedQuant (fun _ => 0) (fun r => ([0].getD r 0 : ℕ)) 1 2 1 1 1 = .ok fused) ∧
    ¬FusedExact (fun r => ([0].getD r 0 : ℕ)) 1 2 1 1 1 := by
  have hok : mxfp4MoeSortedQuant (fun _ => 0) (fun r => ([0].getD r 0 : ℕ)) 1 2 1 1 1 = .ok _ := rfl
  refine ⟨rfl, ⟨_, hok⟩, fun hexact => ?_⟩
  have hcond := (fusedExact_iff hok).mp hexact
  norm_num at hcond

end VKernels.Moe.MxFp4
