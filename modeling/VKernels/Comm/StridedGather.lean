import VKernels.Comm.Gather

/-!
# Strided gathers over the whole range of `size_t`

`stage_runs_2d` of `comm/p2p_gather.cpp` for sources that are any 64-bit values, not real objects
only.

* `WordRun2D` — a caller's tile; `stageRaw2d` is the round of the staging loop on it.

## Results

* `stageWordRuns2d_ok` — what an accepted list has checked.
* `rows_apart_iff` — two rows under wrapping addresses are apart when their cyclic distance is at
  least a row on either side.
* `strided_safe_iff` — the destination promises always hold; the source promise holds exactly when no
  tile's source wraps, or the wrapped rows happen to miss.
-/

namespace VKernels.Comm

open List

/-! ## Staging -/

/-- `Gather2DRun`, every field any 64-bit value. -/
structure WordRun2D where
  src : ℕ
  srcStride : ℕ
  dstOffset : ℕ
  dstStride : ℕ
  width : ℕ
  height : ℕ
  words : src < 2 ^ 64 ∧ srcStride < 2 ^ 64 ∧ dstOffset < 2 ^ 64 ∧ dstStride < 2 ^ 64 ∧
    width < 2 ^ 64 ∧ height < 2 ^ 64

def stageRaw2d (dst : DstSpan) (out : List StagedRun2D × List (ℕ × ℕ))
    (src srcStride dstOffset dstStride width height : ℕ) : Except String (List StagedRun2D × List (ℕ × ℕ)) :=
  if width = 0 ∨ height = 0 then .ok out else do
    expects (width ≤ srcStride) "width must not exceed src_stride" "g.width <= g.src_stride"
    expects (width ≤ dstStride) "width must not exceed dst_stride" "g.width <= g.dst_stride"
    expects (src ≠ 0) "src must be non-null for a non-empty tile" "g.src != nullptr"
    let off := dstOffset
    expects (off ≤ dst.size) "2-D run starts past dst capacity" "off <= dst_capacity"
    let rows := height - 1
    expects (rows ≤ (dst.size - off) / dstStride) "2-D row stride exceeds dst capacity"
      "rows <= (dst_capacity - off) / g.dst_stride"
    let rowSpan := wrap (rows * dstStride)
    expects (width ≤ dst.size - off - rowSpan) "2-D run exceeds dst capacity"
      "g.width <= dst_capacity - off - row_span"
    let srcSpan := wrap (rows * srcStride)
    let sLo := src
    let sHi := wrap (sLo + srcSpan + width)
    let dLo := wrap (dst.data + off)
    let dHi := wrap (dLo + rowSpan + width)
    expects (sHi ≤ dLo ∨ dHi ≤ sLo) "2-D src and dst ranges must not overlap"
      "s_hi <= d_lo || s_lo >= d_hi"
    return (out.1 ++ [⟨src, off, srcStride, dstStride, width, height⟩], out.2 ++ [(dLo, dHi)])

def stageWordRun2d (dst : DstSpan) (out : List StagedRun2D × List (ℕ × ℕ)) (g : WordRun2D) :
    Except String (List StagedRun2D × List (ℕ × ℕ)) :=
  stageRaw2d dst out g.src g.srcStride g.dstOffset g.dstStride g.width g.height

def stageWordRuns2d (dst : DstSpan) (runs : Option (List WordRun2D)) (numRuns : ℕ) :
    Except String (List StagedRun2D) := do
  expects (numRuns = 0 ∨ runs.isSome) "runs must be non-null" "num_runs == 0 || runs != nullptr"
  let (out, dstBoxes) ← ((runs.getD []).take numRuns).foldlM (stageWordRun2d dst) ([], [])
  checkSpans "output tiles must be disjoint" "dst_boxes[i - 1].second <= dst_boxes[i].first"
    (dstBoxes.mergeSort spanLe)
  return out

/-- Byte `x` of source row `y`: `r.src + y * r.src_stride + x`. -/
def StagedRun2D.srcByte (r : StagedRun2D) (y x : ℕ) : ℕ := wrap (r.src + y * r.srcStride + x)

/-- Byte `x` of destination row `y`: `base + r.dst_offset + y * r.dst_stride + x`. -/
def StagedRun2D.dstByte (dst : DstSpan) (r : StagedRun2D) (y x : ℕ) : ℕ :=
  wrap (dst.data + r.dstOffset + y * r.dstStride + x)

/-! ## What is promised -/

/-- No two tiles write a common byte. -/
def RowsDisjoint (dst : DstSpan) (r s : StagedRun2D) : Prop :=
  ∀ y < r.height, ∀ x < r.width, ∀ z < s.height, ∀ v < s.width,
    r.dstByte dst y x ≠ s.dstByte dst z v

/-- No source row meets a destination row of the same tile. -/
def SourceApart (dst : DstSpan) (r : StagedRun2D) : Prop :=
  ∀ y < r.height, ∀ x < r.width, ∀ z < r.height, ∀ v < r.width, r.srcByte y x ≠ r.dstByte dst z v

/-- The promises of the validator. -/
structure StridedSafe (dst : DstSpan) (runs : List StagedRun2D) : Prop where
  inside : ∀ r ∈ runs, ∀ y < r.height, ∀ x < r.width,
    dst.data ≤ r.dstByte dst y x ∧ r.dstByte dst y x < dst.data + dst.size
  disjoint : runs.Pairwise (RowsDisjoint dst)
  apart : ∀ r ∈ runs, SourceApart dst r

namespace WordRun2D

variable (dst : DstSpan) (g : WordRun2D)

def NonEmpty : Prop := g.width ≠ 0 ∧ g.height ≠ 0

instance : Decidable g.NonEmpty := by
  unfold NonEmpty
  infer_instance

def staged : StagedRun2D := ⟨g.src, g.dstOffset, g.srcStride, g.dstStride, g.width, g.height⟩

/-- The source box ends inside the address space. -/
def Unwrapped : Prop := g.src + (g.height - 1) * g.srcStride + g.width < 2 ^ 64

/-- From the first byte of destination row `z` up to source row `y`, around the address space. -/
def rowGap (y z : ℕ) : ℕ :=
  wrap (g.src + y * g.srcStride + (2 ^ 64 - (dst.data + g.dstOffset + z * g.dstStride)))

/-- Every source row is at least a row away from every destination row, on either side. -/
def RowsMiss : Prop :=
  ∀ y < g.height, ∀ z < g.height, g.width ≤ g.rowGap dst y z ∧ g.rowGap dst y z + g.width ≤ 2 ^ 64

/-- What the round has checked of a tile that is not empty. -/
structure Accepted : Prop where
  width_le : g.width ≤ g.dstStride
  inside : g.dstOffset + (g.height - 1) * g.dstStride + g.width ≤ dst.size
  boxes : wrap (g.src + (g.height - 1) * g.srcStride + g.width) ≤ dst.data + g.dstOffset ∨
    dst.data + g.dstOffset + (g.height - 1) * g.dstStride + g.width ≤ g.src

end WordRun2D

/-! ## What acceptance means -/

open WordRun2D (NonEmpty staged)

section

variable {dst : DstSpan} {g : WordRun2D}

lemma stageWordRun2d_ok {out out' : List StagedRun2D × List (ℕ × ℕ)} (hne : g.NonEmpty)
    (h : stageWordRun2d dst out g = .ok out') :
    g.Accepted dst ∧ out' = (out.1 ++ [g.staged], out.2 ++ [g.staged.dstBox dst.data]) := by
  have hempty : ¬ (g.width = 0 ∨ g.height = 0) := fun h0 => h0.elim hne.1 hne.2
  unfold stageWordRun2d stageRaw2d at h
  rw [if_neg hempty] at h
  simp only [expects_ok] at h
  obtain ⟨_, hwd, _, hoff, hrows, hcap, hboxes, h⟩ := h
  cases h
  have hreal := dst.real
  -- no product of the destination wraps: the rows were bounded by a quotient first
  have hspan : (g.height - 1) * g.dstStride ≤ dst.size - g.dstOffset :=
    (Nat.mul_le_mul_right _ hrows).trans (Nat.div_mul_le_self _ _)
  rw [wrap_of_lt (n := (g.height - 1) * g.dstStride) (by omega)] at hcap
  have hinside : g.dstOffset + (g.height - 1) * g.dstStride + g.width ≤ dst.size := by
    omega
  have hlo : wrap (dst.data + g.dstOffset) = dst.data + g.dstOffset := wrap_of_lt (by omega)
  have hspan' : wrap ((g.height - 1) * g.dstStride) = (g.height - 1) * g.dstStride :=
    wrap_of_lt (by omega)
  have hhi : wrap (dst.data + g.dstOffset + (g.height - 1) * g.dstStride + g.width) =
      dst.data + g.dstOffset + (g.height - 1) * g.dstStride + g.width := wrap_of_lt (by omega)
  -- of the source only the sum as a whole is known, modulo the address space
  have hsrc : wrap (g.src + wrap ((g.height - 1) * g.srcStride) + g.width) =
      wrap (g.src + (g.height - 1) * g.srcStride + g.width) := by
    unfold wrap
    omega
  rw [hlo, hspan', hhi, hsrc] at hboxes
  refine ⟨⟨hwd, hinside, hboxes⟩, ?_⟩
  rw [hlo, hspan', hhi]
  rfl

lemma stageWordRun2d_empty {out out' : List StagedRun2D × List (ℕ × ℕ)} (hne : ¬ g.NonEmpty)
    (h : stageWordRun2d dst out g = .ok out') : out' = out := by
  have hempty : g.width = 0 ∨ g.height = 0 := by
    by_contra h0
    exact hne ⟨fun h => h0 (.inl h), fun h => h0 (.inr h)⟩
  unfold stageWordRun2d stageRaw2d at h
  rw [if_pos hempty] at h
  cases h
  rfl

lemma stageWordRuns2d_fold : ∀ {gs : List WordRun2D} {o o' : List StagedRun2D × List (ℕ × ℕ)},
    gs.foldlM (stageWordRun2d dst) o = .ok o' → (∀ g ∈ gs, g.NonEmpty → g.Accepted dst) ∧
      o'.1 = o.1 ++ (gs.filter NonEmpty).map staged ∧
      o'.2 = o.2 ++ ((gs.filter NonEmpty).map staged).map (·.dstBox dst.data)
  | [], o, o', h => by
    cases h
    simp
  | g :: gs, o, o', h => by
    obtain ⟨_, hround, hrest⟩ := bind_ok.mp h
    obtain ⟨hacc, h1, h2⟩ := stageWordRuns2d_fold hrest
    by_cases hne : g.NonEmpty
    · obtain ⟨hg, rfl⟩ := stageWordRun2d_ok hne hround
      refine ⟨fun g' hg' hne' => ?_, ?_, ?_⟩
      · rcases mem_cons.mp hg' with rfl | hg'
        · exact hg
        · exact hacc g' hg' hne'
      · simp [h1, hne]
      · simp [h2, hne]
    · obtain rfl := stageWordRun2d_empty hne hround
      refine ⟨fun g' hg' hne' => ?_, ?_, ?_⟩
      · rcases mem_cons.mp hg' with rfl | hg'
        · exact absurd hne' hne
        · exact hacc g' hg' hne'
      · simp [h1, hne]
      · simp [h2, hne]

lemma stageWordRuns2d_ok {runs : Option (List WordRun2D)} {numRuns : ℕ} {out : List StagedRun2D}
    (h : stageWordRuns2d dst runs numRuns = .ok out) :
    out = (((runs.getD []).take numRuns).filter NonEmpty).map staged ∧
      (∀ g ∈ (runs.getD []).take numRuns, g.NonEmpty → g.Accepted dst) ∧
      out.Pairwise fun r s => (r.dstBox dst.data).2 ≤ (s.dstBox dst.data).1 ∨
        (s.dstBox dst.data).2 ≤ (r.dstBox dst.data).1 := by
  obtain ⟨_, h⟩ := expects_ok.mp h
  obtain ⟨⟨_, _⟩, hfold, h⟩ := bind_ok.mp h
  obtain ⟨_, hspans, h⟩ := bind_ok.mp h
  cases h
  obtain ⟨hacc, hout, hboxes⟩ := stageWordRuns2d_fold hfold
  rw [nil_append] at hout hboxes
  rw [← hout] at hboxes
  dsimp only at hboxes hout
  subst hboxes
  refine ⟨hout, hacc, pairwise_map.mp (spans_disjoint ?_ hspans)⟩
  intro a ha
  obtain ⟨r, hr, rfl⟩ := mem_map.mp ha
  have hr : r ∈ (((runs.getD []).take numRuns).filter NonEmpty).map staged :=
    hout ▸ hr
  obtain ⟨g, hg, rfl⟩ := mem_map.mp hr
  have hne : g.NonEmpty := by simpa using (mem_filter.mp hg).2
  have : 0 < g.width := pos_of_ne_zero hne.1
  show dst.data + g.dstOffset < dst.data + g.dstOffset + (g.height - 1) * g.dstStride + g.width
  omega

/-! ## Rows under wrapping addresses -/

/-- **Two rows**: `n` bytes from `s` on, around the address space, and `n` bytes from `d` on, inside
    it.  They are apart when the way from `d` to `s` is at least a row, in both directions. -/
theorem rows_apart_iff {s d n : ℕ} (hn : 0 < n) (hd : d + n ≤ 2 ^ 64) : (∀ x < n, ∀ v < n, wrap (s + x) ≠ d + v) ↔
      n ≤ wrap (s + (2 ^ 64 - d)) ∧ wrap (s + (2 ^ 64 - d)) + n ≤ 2 ^ 64 := by
  unfold wrap
  constructor
  · intro h
    by_contra hnear
    by_cases hlow : (s + (2 ^ 64 - d)) % 2 ^ 64 < n
    · -- the source row starts inside the destination row
      exact h 0 hn _ hlow (by omega)
    · -- the destination row starts inside the source row
      exact h (2 ^ 64 - (s + (2 ^ 64 - d)) % 2 ^ 64) (by omega) 0 hn (by omega)
  · rintro ⟨hle, hge⟩ x hx v hv heq
    omega

lemma WordRun2D.Accepted.row_inside (h : g.Accepted dst) {y x : ℕ} (hy : y < g.height)
    (hx : x < g.width) : g.dstOffset + y * g.dstStride + x < dst.size := by
  have hrow : y * g.dstStride ≤ (g.height - 1) * g.dstStride := Nat.mul_le_mul_right _ (by omega)
  have := h.inside
  omega

lemma WordRun2D.Accepted.dstByte_eq (h : g.Accepted dst) {y x : ℕ} (hy : y < g.height) (hx : x < g.width) :
    g.staged.dstByte dst y x = dst.data + g.dstOffset + y * g.dstStride + x := by
  have := h.row_inside hy hx
  have := dst.real
  exact wrap_of_lt (by show dst.data + g.dstOffset + y * g.dstStride + x < 2 ^ 64; omega)

lemma WordRun2D.Accepted.apart_iff (h : g.Accepted dst) (hne : g.NonEmpty) :
    SourceApart dst g.staged ↔ g.RowsMiss dst := by
  have hw : 0 < g.width := pos_of_ne_zero hne.1
  have hend : ∀ z < g.height, dst.data + g.dstOffset + z * g.dstStride + g.width ≤ 2 ^ 64 := by
    intro z hz
    have := h.row_inside (x := g.width - 1) hz (by omega)
    have := dst.real
    omega
  constructor
  · intro hapart y hy z hz
    refine (rows_apart_iff hw (hend z hz)).mp fun x hx v hv heq => ?_
    apply hapart y hy x hx z hz v hv
    rw [h.dstByte_eq hz hv]
    exact heq
  · intro hmiss y hy x hx z hz v hv heq
    rw [h.dstByte_eq hz hv] at heq
    exact (rows_apart_iff hw (hend z hz)).mpr (hmiss y hy z hz) x hx v hv heq

lemma WordRun2D.Accepted.apart_of_unwrapped (h : g.Accepted dst) (hun : g.Unwrapped) : SourceApart dst g.staged := by
  intro y hy x hx z hz v hv heq
  change y < g.height at hy
  change x < g.width at hx
  change z < g.height at hz
  change v < g.width at hv
  unfold WordRun2D.Unwrapped at hun
  have hy' : y * g.srcStride ≤ (g.height - 1) * g.srcStride := Nat.mul_le_mul_right _ (by omega)
  have hz' : z * g.dstStride ≤ (g.height - 1) * g.dstStride := Nat.mul_le_mul_right _ (by omega)
  have hsrc : g.staged.srcByte y x = g.src + y * g.srcStride + x :=
    wrap_of_lt (by show g.src + y * g.srcStride + x < 2 ^ 64; omega)
  rw [hsrc, h.dstByte_eq hz hv] at heq
  have hboxes := h.boxes
  rw [wrap_of_lt hun] at hboxes
  rcases hboxes with hbefore | hafter <;> omega

end

/-- **Validation of strided gathers.**  Whatever the 64-bit fields of an accepted list, the bytes
    written lie in the capacity and distinct tiles write distinct bytes.  Source and destination of
    each tile are apart exactly when, of every tile, the source box does not wrap or its wrapped rows
    miss the destination rows. -/
theorem strided_safe_iff {dst : DstSpan} {runs : Option (List WordRun2D)} {numRuns : ℕ}
    {out : List StagedRun2D} (h : stageWordRuns2d dst runs numRuns = .ok out) :
    StridedSafe dst out ↔ ∀ g ∈ (runs.getD []).take numRuns, g.NonEmpty → g.Unwrapped ∨ g.RowsMiss dst := by
  obtain ⟨hout, hacc, hdis⟩ := stageWordRuns2d_ok h
  have hmem : ∀ r ∈ out, ∃ g ∈ (runs.getD []).take numRuns, g.NonEmpty ∧ r = g.staged := by
    intro r hr
    rw [hout] at hr
    obtain ⟨g, hg, rfl⟩ := mem_map.mp hr
    obtain ⟨hg, hne⟩ := mem_filter.mp hg
    exact ⟨g, hg, by simpa using hne, rfl⟩
  constructor
  · intro hsafe g hg hne
    have hstaged : g.staged ∈ out := by
      rw [hout]
      exact mem_map_of_mem (mem_filter.mpr ⟨hg, by simpa using hne⟩)
    exact .inr (((hacc g hg hne).apart_iff hne).mp (hsafe.apart _ hstaged))
  · intro hcond
    refine ⟨?_, ?_, ?_⟩
    · intro r hr y hy x hx
      obtain ⟨g, hg, hne, rfl⟩ := hmem r hr
      have := (hacc g hg hne).row_inside hy hx
      rw [(hacc g hg hne).dstByte_eq hy hx]
      omega
    · refine hdis.imp_of_mem fun {r s} hr hs hrs y hy x hx z hz v hv heq => ?_
      obtain ⟨g, hg, hne, rfl⟩ := hmem r hr
      obtain ⟨g', hg', hne', rfl⟩ := hmem s hs
      rw [(hacc g hg hne).dstByte_eq hy hx, (hacc g' hg' hne').dstByte_eq hz hv] at heq
      change y < g.height at hy
      change x < g.width at hx
      change z < g'.height at hz
      change v < g'.width at hv
      have hy' : y * g.dstStride ≤ (g.height - 1) * g.dstStride :=
        Nat.mul_le_mul_right _ (by omega)
      have hz' : z * g'.dstStride ≤ (g'.height - 1) * g'.dstStride :=
        Nat.mul_le_mul_right _ (by omega)
      simp only [StagedRun2D.dstBox, staged] at hrs
      omega
    · intro r hr
      obtain ⟨g, hg, hne, rfl⟩ := hmem r hr
      rcases hcond g hg hne with hun | hmiss
      · exact (hacc g hg hne).apart_of_unwrapped hun
      · exact ((hacc g hg hne).apart_iff hne).mpr hmiss

/-! ## Two tiles -/

/-- Sixteen bytes at address 100. -/
def sixteenBytes : DstSpan := ⟨100, 16, by decide⟩

lemma stageWordRuns2d_one {dst : DstSpan} {g : WordRun2D} {r : StagedRun2D} {box : ℕ × ℕ}
    (h : stageWordRun2d dst ([], []) g = .ok ([r], [box])) : stageWordRuns2d dst (some [g]) 1 = .ok [r] := by
  show (do
    let (out, dstBoxes) ← (stageWordRun2d dst ([], []) g >>= fun o => [].foldlM (stageWordRun2d dst) o)
    checkSpans _ _ (dstBoxes.mergeSort spanLe)
    return out) = _
  rw [h]
  show (do
    checkSpans _ _ ([box].mergeSort spanLe)
    return _) = _
  rw [mergeSort_singleton]
  rfl

/-- Two rows of eight bytes from an address behind them. -/
def behindTile : WordRun2D := ⟨200, 8, 0, 8, 8, 2, by decide⟩

theorem strided_safe_behind : StridedSafe sixteenBytes [behindTile.staged] := by
  refine (@strided_safe_iff sixteenBytes (some [behindTile]) 1 _
    (@stageWordRuns2d_one _ _ _ (100, 116) rfl)).mpr fun g hg _ => .inl ?_
  obtain rfl : g = behindTile := by simpa using hg
  show 200 + (2 - 1) * 8 + 8 < 2 ^ 64
  decide

/-- The same rows copied onto themselves: a stride of `2 ^ 64 - 8` moves the end of the source box
    to its start. -/
def backwardTile : WordRun2D := ⟨100, 2 ^ 64 - 8, 0, 8, 8, 2, by decide⟩

theorem strided_wrapped : stageWordRuns2d sixteenBytes (some [backwardTile]) 1 = .ok [backwardTile.staged] ∧
      ¬ StridedSafe sixteenBytes [backwardTile.staged] := by
  refine ⟨@stageWordRuns2d_one _ _ _ (100, 116) rfl, fun h => ?_⟩
  have := h.apart _ mem_cons_self 0 (by decide) 0 (by decide) 0 (by decide) 0 (by decide)
  exact this rfl

end VKernels.Comm
