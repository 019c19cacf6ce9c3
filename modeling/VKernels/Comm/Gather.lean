import VKernels.Comm.Host

/-!
# Run-list gather

Model of the host reference `comm/p2p_gather.cpp`: validation and staging of 1-D and 2-D run
lists, and the copies they stand for.

* `stageRuns1d`, `stageRuns2d` — the two validators, with their `size_t` arithmetic and messages.
* `StagedRun1D.copies`, `StagedRun2D.copies` — the `memcpy` of a run, the row copies of a tile.
* `copyAll1d`, `copyAll2d` — all of them in list order, as the single task of the gather does.

## Results

* `stageRuns1d_batches`, `stageRuns2d_batches` — what acceptance guarantees: no run disturbs
  itself, and no two runs write a common byte.
* `gather_order_independent_iff` — an accepted list delivers in every order, whole runs or single
  bytes, exactly when no run's source meets another run's destination.  The validators do not
  check that: `chained_runs_accepted`.
-/

namespace VKernels.Comm

open ByteCopies
open List

/-- `Span<std::uint8_t>`: a real object does not reach the end of the address space. -/
structure DstSpan where
  data : ℕ
  size : ℕ
  real : data + size < 2 ^ 64

/-! ## 1-D runs -/

structure StagedRun1D where
  src : ℕ
  dstOffset : ℕ
  length : ℕ
  deriving DecidableEq, Repr

/-- The caller's three arrays.  A source of a non-empty run is a real object. -/
structure RunList1D where
  srcPtrs : Arr ℕ
  dstOffsets : Arr ℕ
  lengths : Arr ℕ
  numRuns : ℕ
  real : ∀ i < numRuns, ∀ s l, srcPtrs = some s → lengths = some l → s i + l i < 2 ^ 64

def RunList1D.src (g : RunList1D) (i : ℕ) : ℕ := (g.srcPtrs.getD fun _ => 0) i
def RunList1D.off (g : RunList1D) (i : ℕ) : ℕ := (g.dstOffsets.getD fun _ => 0) i
def RunList1D.len (g : RunList1D) (i : ℕ) : ℕ := (g.lengths.getD fun _ => 0) i

/-- One round of the staging loop of `stage_runs_1d`. -/
def stageRun1d (dst : DstSpan) (g : RunList1D) (runs : List StagedRun1D) (i : ℕ) : Except String (List StagedRun1D) :=
  let len := g.len i
  let off := g.off i
  if len = 0 then .ok runs else do
    expects (off ≤ dst.size ∧ len ≤ dst.size - off) "run exceeds dst capacity"
      "off <= dst_capacity && (dst_capacity - off) >= len"
    let s := g.src i
    expects (s ≠ 0) "src_ptrs[i] must be non-null for a non-empty run" "s != nullptr"
    let su := s
    let du := wrap (dst.data + off)
    expects (wrap (su + len) ≤ du ∨ wrap (du + len) ≤ su) "src and dst ranges must not overlap"
      "su + len <= du || su >= du + len"
    return runs ++ [⟨s, off, len⟩]

/-- `std::pair` order of `std::sort`. -/
def spanLe (a b : ℕ × ℕ) : Bool := decide (a.1 < b.1 ∨ a.1 = b.1 ∧ a.2 ≤ b.2)

/-- Adjacent spans of a sorted list must not overlap. -/
def checkSpans (msg text : String) : List (ℕ × ℕ) → Except String Unit
  | a :: b :: l => do
      expects (a.2 ≤ b.1) msg text
      checkSpans msg text (b :: l)
  | _ => .ok ()

def stageRuns1d (dst : DstSpan) (g : RunList1D) : Except String (List StagedRun1D) := do
  expects (g.numRuns = 0 ∨ g.srcPtrs.isSome) "src_ptrs must be non-null"
    "num_runs == 0 || src_ptrs != nullptr"
  expects (g.numRuns = 0 ∨ g.dstOffsets.isSome) "dst_offsets must be non-null"
    "num_runs == 0 || dst_offsets != nullptr"
  expects (g.numRuns = 0 ∨ g.lengths.isSome) "lengths must be non-null"
    "num_runs == 0 || lengths != nullptr"
  let runs ← (List.range g.numRuns).foldlM (stageRun1d dst g) []
  let spans := (runs.map fun r => (r.dstOffset, r.dstOffset + r.length)).mergeSort spanLe
  checkSpans "output runs must be disjoint" "spans[i - 1].second <= spans[i].first" spans
  return runs

/-- `std::memcpy(base + r.dst_offset, r.src, r.length)`. -/
def StagedRun1D.copies (base : ℕ) (r : StagedRun1D) : List Copy :=
  [⟨base + r.dstOffset, r.src, r.length⟩]

def copyAll1d (runs : List StagedRun1D) (base : ℕ) : List Copy := runs.flatMap (·.copies base)

/-! ## 2-D runs -/

/-- The source of a non-empty tile is a real object. -/
structure Gather2DRun where
  src : ℕ
  srcStride : ℕ
  dstOffset : ℕ
  dstStride : ℕ
  width : ℕ
  height : ℕ
  real : width = 0 ∨ height = 0 ∨ src + (height - 1) * srcStride + width < 2 ^ 64

structure StagedRun2D where
  src : ℕ
  dstOffset : ℕ
  srcStride : ℕ
  dstStride : ℕ
  width : ℕ
  height : ℕ
  deriving DecidableEq, Repr

/-- One round of the staging loop of `stage_runs_2d`; the second list is `dst_boxes`. -/
def stageRun2d (dst : DstSpan) (out : List StagedRun2D × List (ℕ × ℕ)) (g : Gather2DRun) :
    Except String (List StagedRun2D × List (ℕ × ℕ)) :=
  if g.width = 0 ∨ g.height = 0 then .ok out else do
    expects (g.width ≤ g.srcStride) "width must not exceed src_stride" "g.width <= g.src_stride"
    expects (g.width ≤ g.dstStride) "width must not exceed dst_stride" "g.width <= g.dst_stride"
    expects (g.src ≠ 0) "src must be non-null for a non-empty tile" "g.src != nullptr"
    let off := g.dstOffset
    expects (off ≤ dst.size) "2-D run starts past dst capacity" "off <= dst_capacity"
    let rows := g.height - 1
    expects (rows ≤ (dst.size - off) / g.dstStride) "2-D row stride exceeds dst capacity"
      "rows <= (dst_capacity - off) / g.dst_stride"
    let rowSpan := wrap (rows * g.dstStride)
    expects (g.width ≤ dst.size - off - rowSpan) "2-D run exceeds dst capacity"
      "g.width <= dst_capacity - off - row_span"
    let srcSpan := wrap (rows * g.srcStride)
    let sLo := g.src
    let sHi := wrap (sLo + srcSpan + g.width)
    let dLo := wrap (dst.data + off)
    let dHi := wrap (dLo + rowSpan + g.width)
    expects (sHi ≤ dLo ∨ dHi ≤ sLo) "2-D src and dst ranges must not overlap"
      "s_hi <= d_lo || s_lo >= d_hi"
    return (out.1 ++ [⟨g.src, off, g.srcStride, g.dstStride, g.width, g.height⟩],
      out.2 ++ [(dLo, dHi)])

def stageRuns2d (dst : DstSpan) (runs : Option (List Gather2DRun)) (numRuns : ℕ) :
    Except String (List StagedRun2D) := do
  expects (numRuns = 0 ∨ runs.isSome) "runs must be non-null" "num_runs == 0 || runs != nullptr"
  let (out, dstBoxes) ← ((runs.getD []).take numRuns).foldlM (stageRun2d dst) ([], [])
  checkSpans "output tiles must be disjoint" "dst_boxes[i - 1].second <= dst_boxes[i].first"
    (dstBoxes.mergeSort spanLe)
  return out

def StagedRun2D.copies (base : ℕ) (r : StagedRun2D) : List Copy :=
  (List.range r.height).map fun y =>
    ⟨base + r.dstOffset + y * r.dstStride, r.src + y * r.srcStride, r.width⟩

def copyAll2d (runs : List StagedRun2D) (base : ℕ) : List Copy := runs.flatMap (·.copies base)

lemma checkSpans_ok {msg text : String} : ∀ {l : List (ℕ × ℕ)},
    checkSpans msg text l = .ok () → l.IsChain fun a b => a.2 ≤ b.1
  | [], _ => isChain_nil
  | [a], _ => isChain_singleton a
  | a :: b :: l, h => by
    obtain ⟨hab, hl⟩ := expects_ok.mp h
    exact (checkSpans_ok hl).cons_cons hab

lemma spans_disjoint {msg text : String} {l : List (ℕ × ℕ)} (hpos : ∀ a ∈ l, a.1 < a.2)
    (h : checkSpans msg text (l.mergeSort spanLe) = .ok ()) : l.Pairwise fun a b => a.2 ≤ b.1 ∨ b.2 ≤ a.1 := by
  have hp := mergeSort_perm l spanLe
  have hchain := checkSpans_ok h
  -- on non-empty spans "ends before" is transitive
  have hpair : (l.mergeSort spanLe).Pairwise fun a b => a.2 ≤ b.1 ∨ b.2 ≤ a.1 := by
    have hchain' : (l.mergeSort spanLe).IsChain fun a b => a.2 ≤ b.1 ∧ b.1 < b.2 := by
      refine hchain.imp_of_mem_imp ?_
      intro a b _ hb hab
      exact ⟨hab, hpos b (hp.mem_iff.mp hb)⟩
    have htrans : IsTrans (ℕ × ℕ) fun a b => a.2 ≤ b.1 ∧ b.1 < b.2 :=
      ⟨fun a b c hab hbc => ⟨by omega, hbc.2⟩⟩
    exact (isChain_iff_pairwise.mp hchain').imp fun h => .inl h.1
  exact hp.pairwise hpair fun h => h.symm

/-! ## What the 1-D validator accepts -/

/-- A staged run lies inside the destination and away from its own source. -/
structure StagedRun1D.Ok (dst : DstSpan) (r : StagedRun1D) : Prop where
  pos : 0 < r.length
  inside : r.dstOffset + r.length ≤ dst.size
  apart : r.src + r.length ≤ dst.data + r.dstOffset ∨
    dst.data + r.dstOffset + r.length ≤ r.src

lemma RunList1D.real_at (g : RunList1D) {i : ℕ} (hi : i < g.numRuns)
    (hs : g.srcPtrs.isSome) (hl : g.lengths.isSome) : g.src i + g.len i < 2 ^ 64 := by
  obtain ⟨s, hs⟩ := Option.isSome_iff_exists.mp hs
  obtain ⟨l, hl⟩ := Option.isSome_iff_exists.mp hl
  simpa [RunList1D.src, RunList1D.len, hs, hl] using g.real i hi s l hs hl

variable {dst : DstSpan} {r : StagedRun2D}

lemma stageRun1d_ok {g : RunList1D} {runs runs' : List StagedRun1D} {i : ℕ}
    (h : stageRun1d dst g runs i = .ok runs') (hreal : g.src i + g.len i < 2 ^ 64)
    (hruns : ∀ r ∈ runs, r.Ok dst) : ∀ r ∈ runs', r.Ok dst := by
  unfold stageRun1d at h
  dsimp only at h
  split at h
  · cases h
    exact hruns
  · obtain ⟨⟨hoff, hcap⟩, h⟩ := expects_ok.mp h
    simp only [expects_ok] at h
    obtain ⟨_, hapart, h⟩ := h
    cases h
    have hdst := dst.real
    rw [wrap_of_lt hreal, wrap_of_lt (n := dst.data + g.off i) (by omega),
      wrap_of_lt (by omega)] at hapart
    intro r hr
    rcases mem_append.mp hr with hr | hr
    · exact hruns r hr
    · rw [mem_singleton] at hr
      subst hr
      exact ⟨by show 0 < g.len i; omega, by show g.off i + g.len i ≤ dst.size; omega, hapart⟩

def batches1d (base : ℕ) (runs : List StagedRun1D) : List (List Copy) := runs.map (·.copies base)

lemma StagedRun1D.Ok.clean {r : StagedRun1D} (h : r.Ok dst) : Clean (r.copies dst.data) := by
  rintro a ⟨c, hc, hr⟩ ⟨d, hd, hw⟩
  unfold StagedRun1D.copies at hc hd
  rw [mem_singleton] at hc hd
  subst hc hd
  obtain ⟨_, _⟩ := hr
  obtain ⟨_, _⟩ := hw
  rcases h.apart with h | h <;> simp only at * <;> omega

lemma stageRuns1d_batches {g : RunList1D} {runs : List StagedRun1D}
    (h : stageRuns1d dst g = .ok runs) : Batches (batches1d dst.data runs) := by
  obtain ⟨hsrc, h⟩ := expects_ok.mp h
  simp only [expects_ok] at h
  obtain ⟨_, hlen, h⟩ := h
  obtain ⟨_, hfold, h⟩ := bind_ok.mp h
  obtain ⟨_, hspans, h⟩ := bind_ok.mp h
  cases h
  have hok : ∀ r ∈ runs, r.Ok dst := by
    refine foldlM_invariant (P := fun rs => ∀ r ∈ rs, r.Ok dst) ?_ hfold (by simp)
    intro s i hi _ hs hP
    have hin : i < g.numRuns := mem_range.mp hi
    have hreal := g.real_at hin (hsrc.resolve_left (by omega)) (hlen.resolve_left (by omega))
    exact stageRun1d_ok hs hreal hP
  have hdis := spans_disjoint (by
    intro a ha
    obtain ⟨r, hr, rfl⟩ := mem_map.mp ha
    have := (hok r hr).pos
    omega) hspans
  refine ⟨?_, ?_, ?_⟩
  · intro b hb
    obtain ⟨r, hr, rfl⟩ := mem_map.mp hb
    exact (hok r hr).clean
  · intro b hb
    obtain ⟨r, hr, rfl⟩ := mem_map.mp hb
    exact pairwise_singleton _ _
  · refine pairwise_map.mpr ((pairwise_map.mp hdis).imp fun {r s} hrs a => ?_)
    rintro ⟨c, hc, hca⟩ ⟨d, hd, hda⟩
    unfold StagedRun1D.copies at hc hd
    rw [mem_singleton] at hc hd
    subst hc hd
    obtain ⟨_, _⟩ := hca
    obtain ⟨_, _⟩ := hda
    simp only at *
    omega

/-! ## What the 2-D validator accepts -/

/-- The bytes from the first row's start to the last row's end. -/
def StagedRun2D.dstBox (base : ℕ) (r : StagedRun2D) : ℕ × ℕ :=
  (base + r.dstOffset, base + r.dstOffset + (r.height - 1) * r.dstStride + r.width)

/-- A staged tile lies inside the destination, its rows do not overlap, and its box is away from
    the box of its source. -/
structure StagedRun2D.Ok (dst : DstSpan) (r : StagedRun2D) : Prop where
  width_pos : 0 < r.width
  width_le : r.width ≤ r.dstStride
  inside : r.dstOffset + (r.height - 1) * r.dstStride + r.width ≤ dst.size
  apart : r.src + (r.height - 1) * r.srcStride + r.width ≤ (r.dstBox dst.data).1 ∨
    (r.dstBox dst.data).2 ≤ r.src

lemma stageRun2d_ok {out out' : List StagedRun2D × List (ℕ × ℕ)}
    {g : Gather2DRun} (h : stageRun2d dst out g = .ok out') (hruns : ∀ r ∈ out.1, r.Ok dst)
    (hbox : out.2 = out.1.map (·.dstBox dst.data)) :
    (∀ r ∈ out'.1, r.Ok dst) ∧ out'.2 = out'.1.map (·.dstBox dst.data) := by
  unfold stageRun2d at h
  split at h
  · cases h
    exact ⟨hruns, hbox⟩
  · rename_i hne
    obtain ⟨hws, h⟩ := expects_ok.mp h
    simp only [expects_ok] at h
    obtain ⟨hwd, _, hoff, hrows, hcap, hapart, h⟩ := h
    cases h
    have hdst := dst.real
    have hreal : g.src + (g.height - 1) * g.srcStride + g.width < 2 ^ 64 := by
      rcases g.real with hw | hh | hr
      · exact absurd (.inl hw) hne
      · exact absurd (.inr hh) hne
      · exact hr
    -- no product of the row arithmetic wraps
    have hspan : (g.height - 1) * g.dstStride ≤ dst.size - g.dstOffset :=
      (Nat.mul_le_mul_right _ hrows).trans (Nat.div_mul_le_self _ _)
    rw [wrap_of_lt (n := (g.height - 1) * g.dstStride) (by omega)] at hcap
    have hinside : g.dstOffset + (g.height - 1) * g.dstStride + g.width ≤ dst.size := by omega
    rw [wrap_of_lt (n := (g.height - 1) * g.dstStride) (by omega),
      wrap_of_lt (n := (g.height - 1) * g.srcStride) (by omega),
      wrap_of_lt (n := g.src + _ + g.width) hreal,
      wrap_of_lt (n := dst.data + g.dstOffset) (by omega), wrap_of_lt (by omega)] at hapart
    rw [wrap_of_lt (n := (g.height - 1) * g.dstStride) (by omega),
      wrap_of_lt (n := dst.data + g.dstOffset) (by omega), wrap_of_lt (by omega)]
    refine ⟨fun r hr => ?_, by simp [hbox, StagedRun2D.dstBox]⟩
    rcases mem_append.mp hr with hr | hr
    · exact hruns r hr
    · rw [mem_singleton] at hr
      subst hr
      exact ⟨by show 0 < g.width; omega, hwd, hinside, hapart⟩

/-- The batch of each tile: its rows. -/
def batches2d (base : ℕ) (runs : List StagedRun2D) : List (List Copy) := runs.map (·.copies base)

lemma StagedRun2D.writes_box {base a : ℕ} (h : Writes (r.copies base) a) :
    (r.dstBox base).1 ≤ a ∧ a < (r.dstBox base).2 := by
  obtain ⟨c, hc, hw⟩ := h
  obtain ⟨y, hy, rfl⟩ := mem_map.mp hc
  rw [mem_range] at hy
  obtain ⟨hle, hlt⟩ := hw
  have hrow : y * r.dstStride ≤ (r.height - 1) * r.dstStride := Nat.mul_le_mul_right _ (by omega)
  simp only at hle hlt
  exact ⟨by show base + r.dstOffset ≤ a; omega,
    by show a < base + r.dstOffset + (r.height - 1) * r.dstStride + r.width; omega⟩

lemma StagedRun2D.reads_box {base a : ℕ} (h : Reads (r.copies base) a) :
    r.src ≤ a ∧ a < r.src + (r.height - 1) * r.srcStride + r.width := by
  obtain ⟨c, hc, hr⟩ := h
  obtain ⟨y, hy, rfl⟩ := mem_map.mp hc
  rw [mem_range] at hy
  obtain ⟨hle, hlt⟩ := hr
  have hrow : y * r.srcStride ≤ (r.height - 1) * r.srcStride := Nat.mul_le_mul_right _ (by omega)
  simp only at hle hlt
  omega

lemma StagedRun2D.Ok.clean (h : r.Ok dst) : Clean (r.copies dst.data) := by
  intro a hr hw
  have := StagedRun2D.reads_box hr
  have := StagedRun2D.writes_box hw
  have := h.apart
  omega

lemma StagedRun2D.Ok.exclusive (h : r.Ok dst) : Exclusive (r.copies dst.data) := by
  refine pairwise_map.mpr (pairwise_lt_range.imp fun {y z} hyz a hy hz => ?_)
  obtain ⟨_, hlt⟩ := hy
  obtain ⟨hle, _⟩ := hz
  have hrow : (y + 1) * r.dstStride ≤ z * r.dstStride := Nat.mul_le_mul_right _ hyz
  have hw := h.width_le
  rw [add_one_mul] at hrow
  simp only at hlt hle
  omega

lemma stageRuns2d_ok {g : Option (List Gather2DRun)} {numRuns : ℕ} {runs : List StagedRun2D}
    (h : stageRuns2d dst g numRuns = .ok runs) : (∀ r ∈ runs, r.Ok dst) ∧
      runs.Pairwise fun r s => (r.dstBox dst.data).2 ≤ (s.dstBox dst.data).1 ∨
        (s.dstBox dst.data).2 ≤ (r.dstBox dst.data).1 := by
  obtain ⟨_, h⟩ := expects_ok.mp h
  obtain ⟨⟨_, boxes⟩, hfold, h⟩ := bind_ok.mp h
  obtain ⟨_, hspans, h⟩ := bind_ok.mp h
  cases h
  obtain ⟨hok, hbox⟩ : (∀ r ∈ runs, r.Ok dst) ∧ boxes = runs.map (·.dstBox dst.data) := by
    refine foldlM_invariant (P := fun o => (∀ r ∈ o.1, StagedRun2D.Ok dst r) ∧
      o.2 = o.1.map (·.dstBox dst.data)) ?_ hfold (by simp)
    exact fun o _ _ o' ho hP => stageRun2d_ok ho hP.1 hP.2
  subst hbox
  have hdis := spans_disjoint (by
    intro a ha
    obtain ⟨r, hr, rfl⟩ := mem_map.mp ha
    have := (hok r hr).width_pos
    unfold StagedRun2D.dstBox
    omega) hspans
  exact ⟨hok, pairwise_map.mp hdis⟩

lemma stageRuns2d_batches {g : Option (List Gather2DRun)} {numRuns : ℕ}
    {runs : List StagedRun2D} (h : stageRuns2d dst g numRuns = .ok runs) : Batches (batches2d dst.data runs) := by
  obtain ⟨hok, hdis⟩ := stageRuns2d_ok h
  refine ⟨?_, ?_, ?_⟩
  · intro b hb
    obtain ⟨r, hr, rfl⟩ := mem_map.mp hb
    exact (hok r hr).clean
  · intro b hb
    obtain ⟨r, hr, rfl⟩ := mem_map.mp hb
    exact (hok r hr).exclusive
  · refine pairwise_map.mpr (hdis.imp fun {r s} hrs a hra hsa => ?_)
    have := StagedRun2D.writes_box hra
    have := StagedRun2D.writes_box hsa
    omega

/-! ## Order independence -/

/-- **Order independence of accepted gathers.**  The copies of an accepted list deliver every
    source byte as it was before the call, in every order of the runs and in every interleaving
    of their single bytes, exactly when no run reads a byte that another run writes. -/
theorem gather_order_independent_iff (dst : DstSpan) :
    (∀ (g : RunList1D) (runs : List StagedRun1D), stageRuns1d dst g = .ok runs →
      (OrderIndependent UInt8 (batches1d dst.data runs) ↔ NoCrossTraffic (batches1d dst.data runs)) ∧
      (ByteOrderIndependent UInt8 (batches1d dst.data runs) ↔ NoCrossTraffic (batches1d dst.data runs))) ∧
    (∀ (g : Option (List Gather2DRun)) (numRuns : ℕ) (runs : List StagedRun2D), stageRuns2d dst g numRuns = .ok runs →
      (OrderIndependent UInt8 (batches2d dst.data runs) ↔ NoCrossTraffic (batches2d dst.data runs)) ∧
      (ByteOrderIndependent UInt8 (batches2d dst.data runs) ↔ NoCrossTraffic (batches2d dst.data runs))) :=
  ⟨fun _ _ h => orderIndependent_iff UInt8 (stageRuns1d_batches h),
    fun _ _ _ h => orderIndependent_iff UInt8 (stageRuns2d_batches h)⟩

def eightBytes : DstSpan := ⟨100, 8, by decide⟩

/-- Four bytes from 200 to the front, and the front four to the back. -/
def chainedRuns : RunList1D where
  srcPtrs := some fun i => if i = 0 then 200 else 100
  dstOffsets := some fun i => 4 * i
  lengths := some fun _ => 4
  numRuns := 2
  real := by
    intro i hi s l hs hl
    cases hs
    cases hl
    dsimp only
    split <;> decide

lemma chainedRuns_staged : stageRuns1d eightBytes chainedRuns = .ok [⟨200, 0, 4⟩, ⟨100, 4, 4⟩] := by
  have hfold : (range 2).foldlM (stageRun1d eightBytes chainedRuns) [] =
      .ok [⟨200, 0, 4⟩, ⟨100, 4, 4⟩] := rfl
  have hsort : [(0, 4), (4, 8)].mergeSort spanLe = [(0, 4), (4, 8)] :=
    mergeSort_of_pairwise (by decide)
  have hruns : chainedRuns.numRuns = 2 := rfl
  unfold stageRuns1d
  show (do
    checkSpans _ _ ([(0, 4), (4, 8)].mergeSort spanLe)
    return _) = _
  rw [hsort]
  rfl

theorem gather_order_independent_iff_chained : OrderIndependent UInt8 (batches1d 100 [⟨200, 0, 4⟩, ⟨100, 4, 4⟩]) ↔
      NoCrossTraffic (batches1d 100 [⟨200, 0, 4⟩, ⟨100, 4, 4⟩]) :=
  ((gather_order_independent_iff eightBytes).1 chainedRuns _ chainedRuns_staged).1

/-- **Accepted runs that are order dependent**: the second run's source is the first run's
    destination, which no check looks at. -/
theorem chained_runs_accepted :
    ¬ ∀ (dst : DstSpan) (g : RunList1D) (runs : List StagedRun1D), stageRuns1d dst g = .ok runs →
      OrderIndependent UInt8 (batches1d dst.data runs) := by
  intro h
  have hdel := h eightBytes chainedRuns _ chainedRuns_staged _ (List.Perm.refl _)
    (fun a => if a < 200 then 0 else 1)
  have hbyte := hdel [⟨104, 100, 4⟩] (by decide) ⟨104, 100, 4⟩ (by decide) 0 (by decide)
  exact absurd hbyte (by decide)

end VKernels.Comm
