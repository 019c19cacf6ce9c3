import VKernels.Comm.Gather
import VKernels.Lib.CopyThreads
import VKernels.Lib.LaneLaunch

/-!
# Run-list gather on the device

Model of the kernel path of `comm/p2p_gather.cu`: one launch for a staged run list, and the prepared plans.

* `unitMoves` — what thread `i` of a run or row copies: a chunk of 16 bytes, the tail, or one byte.
* `P2PGatherPlan1D`, `P2PGatherPlan2D` — the plans; a 2-D plan adds an offset to every source.

## Results

* `units_bytes` — a grid with enough units copies a row, byte for byte.
* `cuda_gather_agrees_iff` — every interleaving of a launch does what the copy engine does, exactly where no run reads what
  another writes; with an offset, wherever the shifted sources miss the staging buffer.
* `chained_launch_differs` — accepted runs of which one reads what another writes.
-/

namespace VKernels.Comm

open ByteCopies CopyThreads
open List
open Copy (bytes)

/-! ## Kernels -/

def aligned16 (p : ℕ) : Bool := p % 16 == 0

structure RunDev1D where
  src : ℕ
  dst : ℕ
  length : ℕ
  vec : Bool

structure RunDev2D where
  src : ℕ
  dst : ℕ
  srcStride : ℕ
  dstStride : ℕ
  width : ℕ
  height : ℕ
  vec : Bool

def unitMoves (vec : Bool) (dst src length i : ℕ) : List Copy :=
  if vec then
    let chunks := length / 16
    let tail := length % 16
    (if i < chunks then [⟨dst + i * 16, src + i * 16, 16⟩] else []) ++
      if i = chunks ∧ tail ≠ 0 then (List.range tail).map fun k => ⟨dst + (chunks * 16 + k), src + (chunks * 16 + k), 1⟩
      else []
  else if i < length then [⟨dst + i, src + i, 1⟩]
  else []

/-- `gather_1d_kernel`, for a run and a unit. -/
def gather1dKernel (runs : List RunDev1D) (t : ℕ × ℕ) : List Copy :=
  match runs[t.1]? with
  | none => []
  | some run => unitMoves run.vec run.dst run.src run.length t.2

/-- `gather_2d_kernel`, for a run, a row and a unit.  Sources are shifted modulo the address space. -/
def gather2dKernel (runs : List RunDev2D) (srcOffset : ℕ) (t : ℕ × ℕ × ℕ) : List Copy :=
  match runs[t.1]? with
  | none => []
  | some run =>
    if run.height ≤ t.2.1 then []
    else unitMoves (run.vec && aligned16 srcOffset) (run.dst + t.2.1 * run.dstStride)
      (wrap (run.src + srcOffset) + t.2.1 * run.srcStride) run.width t.2.2

/-- Blocks of 256 threads. -/
def tiles (units : ℕ) : Except String ℕ := do
  expects (units ≤ (2 ^ 31 - 1) * 256) "unit range exceeds the grid.x block limit"
    "units <= static_cast<std::size_t>(std::numeric_limits<int>::max()) * 256u"
  let t := (units + 255) / 256
  return if 0 < t then t else 1

/-- `units_1d`, `units_2d`. -/
def units (length : ℕ) (vec : Bool) : ℕ := if vec then (length + 15) / 16 else length

/-- `if (max < u) max = u` over a list. -/
def maxOf (l : List ℕ) : ℕ := l.foldl (fun m u => if m < u then u else m) 0

def launchGather1d (runs : List RunDev1D) (maxUnits : ℕ) : Except String (Launch (ℕ × ℕ)) := do
  let blocks ← tiles maxUnits
  return ⟨List.range runs.length ×ˢ List.range (blocks * 256), gather1dKernel runs⟩

def launchGather2d (runs : List RunDev2D) (maxUnits maxHeight srcOffset : ℕ) : Except String (Launch (ℕ × ℕ × ℕ)) := do
  let blocks ← tiles maxUnits
  return ⟨List.range runs.length ×ˢ List.range maxHeight ×ˢ List.range (blocks * 256), gather2dKernel runs srcOffset⟩

/-! ## Calls -/

def describe1d (dst : ℕ) (r : StagedRun1D) : RunDev1D where
  src := r.src
  dst := dst + r.dstOffset
  length := r.length
  vec := aligned16 r.src && aligned16 (dst + r.dstOffset) && 16 ≤ r.length

def describe2d (dst : ℕ) (r : StagedRun2D) : RunDev2D where
  src := r.src
  dst := dst + r.dstOffset
  srcStride := r.srcStride
  dstStride := r.dstStride
  width := r.width
  height := r.height
  vec := aligned16 r.src && aligned16 (dst + r.dstOffset) && aligned16 r.srcStride && aligned16 r.dstStride && 16 ≤ r.width

def RunDev1D.units (r : RunDev1D) : ℕ := Comm.units r.length r.vec

def RunDev2D.units (r : RunDev2D) : ℕ := Comm.units r.width r.vec

/-- `kernel_1d_oneshot`. -/
def kernel1dOneshot (dst : ℕ) (staged : List StagedRun1D) : Except String (Launch (ℕ × ℕ)) := do
  let dev := staged.map (describe1d dst)
  expects (dev.length ≤ 65535) "too many runs for the grid.y axis" "dev.size() <= kMaxGridAxis"
  launchGather1d dev (maxOf (dev.map (·.units)))

/-- `kernel_2d_oneshot`. -/
def kernel2dOneshot (dst : ℕ) (staged : List StagedRun2D) : Except String (Launch (ℕ × ℕ × ℕ)) := do
  let dev := staged.map (describe2d dst)
  expects (dev.length ≤ 65535) "too many runs for the grid.z axis" "dev.size() <= kMaxGridAxis"
  expects (maxOf (dev.map (·.height)) ≤ 65535) "tile height exceeds the grid.y axis" "max_h <= kMaxGridAxis"
  launchGather2d dev (maxOf (dev.map (·.units))) (maxOf (dev.map (·.height))) 0

/-- `copy_engine_1d`. -/
def copyEngine1d (staged : List StagedRun1D) (dst : ℕ) : List Copy := copyAll1d staged dst

/-- A tile with its source shifted. -/
def StagedRun2D.shift (srcOffset : ℕ) (r : StagedRun2D) : StagedRun2D := { r with src := wrap (r.src + srcOffset) }

/-- `copy_engine_2d`. -/
def copyEngine2d (staged : List StagedRun2D) (dst srcOffset : ℕ) : List Copy :=
  copyAll2d (staged.map (·.shift srcOffset)) dst

structure P2PGatherPlan1D where
  dst : ℕ
  hostRuns : List StagedRun1D
  dev : List RunDev1D
  maxUnits : ℕ

namespace P2PGatherPlan1D

def construct (dst : DstSpan) (g : RunList1D) : Except String P2PGatherPlan1D := do
  let hostRuns ← stageRuns1d dst g
  let dev := hostRuns.map (describe1d dst.data)
  expects (dev.length ≤ 65535) "too many runs for the grid.y axis" "impl_->dev.size() <= kMaxGridAxis"
  return ⟨dst.data, hostRuns, dev, maxOf (dev.map (·.units))⟩

/-- The kernel path of `execute`. -/
def execute (plan : P2PGatherPlan1D) : Except String (Launch (ℕ × ℕ)) := launchGather1d plan.dev plan.maxUnits

end P2PGatherPlan1D

structure P2PGatherPlan2D where
  dst : ℕ
  hostRuns : List StagedRun2D
  dev : List RunDev2D
  maxUnits : ℕ
  maxScalarUnits : ℕ
  maxHeight : ℕ

namespace P2PGatherPlan2D

def construct (dst : DstSpan) (runs : Option (List Gather2DRun)) (numRuns : ℕ) : Except String P2PGatherPlan2D := do
  let hostRuns ← stageRuns2d dst runs numRuns
  let dev := hostRuns.map (describe2d dst.data)
  expects (dev.length ≤ 65535) "too many runs for the grid.z axis" "impl_->dev.size() <= kMaxGridAxis"
  expects (maxOf (dev.map (·.height)) ≤ 65535) "tile height exceeds the grid.y axis" "impl_->max_height <= kMaxGridAxis"
  return ⟨dst.data, hostRuns, dev, maxOf (dev.map (·.units)), maxOf (dev.map (·.width)), maxOf (dev.map (·.height))⟩

/-- The kernel path of `execute` without an offset. -/
def execute (plan : P2PGatherPlan2D) : Except String (Launch (ℕ × ℕ × ℕ)) :=
  launchGather2d plan.dev plan.maxUnits plan.maxHeight 0

/-- The kernel path of `execute` with an offset: an unaligned one takes every run byte by byte. -/
def executeAt (plan : P2PGatherPlan2D) (srcByteOffset : ℕ) : Except String (Launch (ℕ × ℕ × ℕ)) :=
  let vecOk := aligned16 srcByteOffset
  let maxUnits := if vecOk then plan.maxUnits else plan.maxScalarUnits
  launchGather2d plan.dev maxUnits plan.maxHeight srcByteOffset

end P2PGatherPlan2D

/-! ## Units -/

open P2PGatherPlan2D (construct execute executeAt)

variable {n : ℕ}

lemma range_tiles {k blocks : ℕ} (h : n ≤ blocks * k) :
    ((range blocks).flatMap fun i => (range (min (n - i * k) k)).map fun j => i * k + j) = range n := by
  have hupto (blocks : ℕ) :
      ((range blocks).flatMap fun i => (range (min (n - i * k) k)).map fun j => i * k + j) =
        range (min (blocks * k) n) := by
    induction blocks with
    | zero => simp
    | succ blocks ih =>
      have hsplit : min ((blocks + 1) * k) n = min (blocks * k) n + min (n - blocks * k) k := by
        rw [add_one_mul]
        omega
      rw [range_succ, flatMap_append, ih, flatMap_singleton, hsplit, range_add]
      by_cases hfull : blocks * k ≤ n
      · rw [min_eq_left hfull]
      · have hnone : min (n - blocks * k) k = 0 := by omega
        simp [hnone]
  rw [hupto, min_eq_right h]

def unit (vec : Bool) : ℕ := if vec then 16 else 1

lemma byte_bytes (d s : ℕ) : bytes ⟨d, s, 1⟩ = [⟨d, s, 1⟩] := rfl

lemma unitMoves_bytes (vec : Bool) (dst src length i : ℕ) : (unitMoves vec dst src length i).flatMap bytes =
    ((range (min (length - i * unit vec) (unit vec))).map fun j => i * unit vec + j).map fun j =>
      ⟨dst + j, src + j, 1⟩ := by
  rw [map_map]
  cases vec with
  | false =>
    by_cases hi : i < length
    · have hone : min (length - i) 1 = 1 := by omega
      simp [unitMoves, unit, hi, hone, byte_bytes]
    · have hnone : length - i = 0 := by omega
      simp [unitMoves, unit, hi, hnone]
  | true =>
    rcases lt_trichotomy i (length / 16) with hi | hi | hi
    · have hfull : min (length - i * 16) 16 = 16 := by omega
      have hlast : i ≠ length / 16 := by omega
      simp only [unitMoves, unit, if_true, if_pos hi, hlast, false_and, if_false, append_nil, flatMap_singleton,
        hfull, bytes]
      refine map_congr_left fun j _ => ?_
      simp [Function.comp_apply, add_assoc]
    · subst hi
      have htail : min (length - length / 16 * 16) 16 = length % 16 := by omega
      have hbytes : (((range (length % 16)).map fun k =>
          (⟨dst + (length / 16 * 16 + k), src + (length / 16 * 16 + k), 1⟩ : Copy))).flatMap bytes =
          (range (length % 16)).map fun k => ⟨dst + (length / 16 * 16 + k), src + (length / 16 * 16 + k), 1⟩ := by
        simp only [flatMap_map, byte_bytes]
        exact flatMap_pure_eq_map _ _
      by_cases hnone : length % 16 = 0
      · simp [unitMoves, unit, htail, hnone]
      · simp only [unitMoves, unit, if_true, lt_irrefl, if_false, nil_append, hnone, ne_eq, not_false_eq_true, and_self,
          hbytes, htail]
        rfl
    · have hnone : min (length - i * 16) 16 = 0 := by omega
      have hchunk : ¬i < length / 16 := by omega
      have hlast : i ≠ length / 16 := by omega
      simp [unitMoves, unit, hchunk, hlast, hnone]

lemma units_bytes {vec : Bool} {dst src length : ℕ} (h : units length vec ≤ n) :
    ((range n).flatMap (unitMoves vec dst src length)).flatMap bytes = bytes ⟨dst, src, length⟩ := by
  have hcover : length ≤ n * unit vec := by
    cases vec with
    | false =>
      have h : length ≤ n := h
      simpa [unit] using h
    | true =>
      have h : (length + 15) / 16 ≤ n := h
      show length ≤ n * 16
      omega
  rw [flatMap_assoc]
  simp only [unitMoves_bytes]
  rw [← map_flatMap, range_tiles hcover]
  rfl

def Aligned (c : Copy) : Prop := c.len = 1 ∨ c.len = 16 ∧ c.src % 16 = 0 ∧ c.dst % 16 = 0

lemma unitMoves_aligned {vec : Bool} {dst src length i : ℕ} (h : vec = true → src % 16 = 0 ∧ dst % 16 = 0) :
    ∀ c ∈ unitMoves vec dst src length i, Aligned c := by
  intro c hc
  cases vec with
  | false =>
    simp only [unitMoves, Bool.false_eq_true, if_false, mem_ite_nil_right, mem_singleton] at hc
    exact .inl (by rw [hc.2])
  | true =>
    obtain ⟨hsrc, hdst⟩ := h rfl
    simp only [unitMoves, if_true, mem_append, mem_ite_nil_right, mem_singleton, mem_map] at hc
    rcases hc with ⟨-, rfl⟩ | ⟨-, k, -, rfl⟩
    · refine .inr ⟨rfl, ?_, ?_⟩
      · show (src + i * 16) % 16 = 0
        omega
      · show (dst + i * 16) % 16 = 0
        omega
    · exact .inl rfl

lemma le_maxOf {l : List ℕ} {u : ℕ} (h : u ∈ l) : u ≤ maxOf l := by
  have hfold : ∀ (l : List ℕ) (m : ℕ), m ≤ l.foldl (fun m u => if m < u then u else m) m ∧
      ∀ u ∈ l, u ≤ l.foldl (fun m u => if m < u then u else m) m := by
    intro l
    induction l with
    | nil => simp
    | cons v l ih =>
      intro m
      obtain ⟨hstart, hrest⟩ := ih (if m < v then v else m)
      have hmv : m ≤ (if m < v then v else m) ∧ v ≤ (if m < v then v else m) := by
        split <;> omega
      refine ⟨hmv.1.trans hstart, fun u hu => ?_⟩
      rcases mem_cons.mp hu with rfl | hu
      · exact hmv.2.trans hstart
      · exact hrest u hu
  exact (hfold l 0).2 u h

lemma tiles_cover {blocks : ℕ} (h : tiles n = .ok blocks) : n ≤ blocks * 256 := by
  obtain ⟨-, h⟩ := expects_ok.mp h
  have hblocks : (if 0 < (n + 255) / 256 then (n + 255) / 256 else 1) = blocks := Except.ok.inj h
  rw [← hblocks]
  split <;> omega

/-! ### Runs -/

section

variable {base : ℕ} {staged : List StagedRun1D} {maxUnits : ℕ} {launch : Launch (ℕ × ℕ)}

/-- The threads of each run. -/
def groups1d (numRuns n : ℕ) : List (List (ℕ × ℕ)) := (List.range numRuns).map fun r => (List.range n).map (Prod.mk r)

/-- **A launch over runs**: its threads by runs, and the bytes of each. -/
theorem launchGather1d_moves (h : launchGather1d (staged.map (describe1d base)) maxUnits = .ok launch)
    (hunits : ∀ r ∈ staged, (describe1d base r).units ≤ maxUnits) :
    ∃ n, (groups1d staged.length n).flatten = launch.threads ∧ launch.threads.Nodup ∧
      launch.Moves (groups1d staged.length n) (batches1d base staged) ∧ ∀ c ∈ launch.copies, Aligned c := by
  obtain ⟨blocks, hblocks, h⟩ := bind_ok.mp h
  obtain rfl := Except.ok.inj h
  have hcover := tiles_cover hblocks
  have hkernel (r : ℕ) (hr : r < staged.length) (i : ℕ) : gather1dKernel (staged.map (describe1d base)) (r, i) =
      unitMoves (describe1d base staged[r]).vec (base + staged[r].dstOffset) staged[r].src staged[r].length i := by
    simp [gather1dKernel, hr, describe1d]
  refine ⟨blocks * 256, ?_, ?_, ?_, ?_⟩
  · rw [groups1d, length_map, ← flatMap_def]
    rfl
  · exact nodup_range.product nodup_range
  · refine forall₂_iff_get.mpr ⟨by simp [groups1d, batches1d], fun r hr hr' => ?_⟩
    have hr : r < staged.length := by simpa [batches1d] using hr'
    have hmem : staged[r] ∈ staged := getElem_mem hr
    simp only [groups1d, batches1d, get_eq_getElem, getElem_map, getElem_range, flatMap_map,
      StagedRun1D.copies, flatMap_singleton, hkernel r hr]
    exact units_bytes ((hunits _ hmem).trans hcover)
  · intro c hc
    obtain ⟨⟨r, i⟩, ht, hc⟩ := mem_flatMap.mp hc
    have hr : r < staged.length := by
      have hr := mem_range.mp (mem_product.mp ht).1
      rwa [length_map] at hr
    simp only [hkernel r hr] at hc
    refine unitMoves_aligned (fun hvec => ?_) c hc
    simp only [describe1d, aligned16, Bool.and_eq_true, beq_iff_eq] at hvec
    exact hvec.1

end

/-! ### Tiles -/

section

variable {base : ℕ} {staged : List StagedRun2D} {maxUnits maxHeight srcOffset : ℕ} {launch : Launch (ℕ × ℕ × ℕ)}

/-- The threads of each tile. -/
def groups2d (numRuns height n : ℕ) : List (List (ℕ × ℕ × ℕ)) :=
  (List.range numRuns).map fun r => (List.range height ×ˢ List.range n).map (Prod.mk r)

lemma rows_flatMap {α : Type} {height maxHeight : ℕ} (h : height ≤ maxHeight) (f : ℕ → List α) :
    ((range maxHeight).flatMap fun y => if height ≤ y then [] else f y) = (range height).flatMap f := by
  rw [Blocks.flatMap_bounded h fun y hy => if_pos hy]
  exact flatMap_congr fun y hy => if_neg (Nat.not_le.mpr (mem_range.mp hy))

lemma launchGather2d_moves (h : launchGather2d (staged.map (describe2d base)) maxUnits maxHeight srcOffset = .ok launch)
    (hunits : ∀ r ∈ staged, units r.width ((describe2d base r).vec && aligned16 srcOffset) ≤ maxUnits)
    (hheight : ∀ r ∈ staged, r.height ≤ maxHeight) :
    ∃ n, (groups2d staged.length maxHeight n).flatten = launch.threads ∧ launch.threads.Nodup ∧
      launch.Moves (groups2d staged.length maxHeight n) (batches2d base (staged.map (·.shift srcOffset))) ∧
      ∀ c ∈ launch.copies, Aligned c := by
  obtain ⟨blocks, hblocks, h⟩ := bind_ok.mp h
  obtain rfl := Except.ok.inj h
  have hcover := tiles_cover hblocks
  have hkernel (r : ℕ) (hr : r < staged.length) (y i : ℕ) :
      gather2dKernel (staged.map (describe2d base)) srcOffset (r, y, i) =
        if staged[r].height ≤ y then []
        else unitMoves ((describe2d base staged[r]).vec && aligned16 srcOffset)
          (base + staged[r].dstOffset + y * staged[r].dstStride)
          (wrap (staged[r].src + srcOffset) + y * staged[r].srcStride) staged[r].width i := by
    simp [gather2dKernel, hr, describe2d]
  refine ⟨blocks * 256, ?_, ?_, ?_, ?_⟩
  · rw [groups2d, length_map, ← flatMap_def]
    rfl
  · exact nodup_range.product (nodup_range.product nodup_range)
  · refine forall₂_iff_get.mpr ⟨by simp [groups2d, batches2d], fun r hr hr' => ?_⟩
    have hr : r < staged.length := by simpa [batches2d] using hr'
    have hmem : staged[r] ∈ staged := getElem_mem hr
    have hrow (y : ℕ) : ((range (blocks * 256)).flatMap fun i =>
        gather2dKernel (staged.map (describe2d base)) srcOffset (r, y, i)).flatMap bytes =
        if staged[r].height ≤ y then [] else bytes ⟨base + staged[r].dstOffset + y * staged[r].dstStride,
          wrap (staged[r].src + srcOffset) + y * staged[r].srcStride, staged[r].width⟩ := by
      simp only [hkernel r hr]
      split
      · simp
      · exact units_bytes ((hunits _ hmem).trans hcover)
    have hgroup : ((range maxHeight ×ˢ range (blocks * 256)).map (Prod.mk r)).flatMap
        (gather2dKernel (staged.map (describe2d base)) srcOffset) = (range maxHeight).flatMap fun y =>
          (range (blocks * 256)).flatMap fun i => gather2dKernel (staged.map (describe2d base)) srcOffset (r, y, i) := by
      show (((range maxHeight).flatMap fun y => (range (blocks * 256)).map (Prod.mk y)).map (Prod.mk r)).flatMap _ = _
      rw [flatMap_map, flatMap_assoc]
      simp [flatMap_map]
    simp only [groups2d, batches2d, get_eq_getElem, getElem_map, getElem_range, hgroup, flatMap_assoc,
      StagedRun2D.copies, StagedRun2D.shift, flatMap_map]
    simp only [← flatMap_assoc, hrow]
    exact rows_flatMap (hheight _ hmem) _
  · intro c hc
    obtain ⟨⟨r, y, i⟩, ht, hc⟩ := mem_flatMap.mp hc
    have hr : r < staged.length := by
      have hr := mem_range.mp (mem_product.mp ht).1
      rwa [length_map] at hr
    simp only [hkernel r hr] at hc
    rw [mem_ite_nil_left] at hc
    refine unitMoves_aligned (fun hvec => ?_) c hc.2
    simp only [describe2d, aligned16, Bool.and_eq_true, beq_iff_eq] at hvec
    obtain ⟨⟨⟨⟨⟨hsrc, hdst⟩, hss⟩, hds⟩, -⟩, hoff⟩ := hvec
    constructor
    · have hrow : y * staged[r].srcStride % 16 = 0 := by rw [Nat.mul_mod, hss, Nat.mul_zero]
      unfold wrap
      omega
    · have hrow : y * staged[r].dstStride % 16 = 0 := by rw [Nat.mul_mod, hds, Nat.mul_zero]
      omega

end

/-! ## Shifted sources -/

section

variable {dst : DstSpan} {g : Option (List Gather2DRun)} {numRuns : ℕ} {runs : List StagedRun2D}

lemma stageRuns2d_src (h : stageRuns2d dst g numRuns = .ok runs) : ∀ r ∈ runs, r.src < 2 ^ 64 := by
  obtain ⟨-, h⟩ := expects_ok.mp h
  obtain ⟨⟨_, _⟩, hfold, h⟩ := bind_ok.mp h
  obtain ⟨-, -, h⟩ := bind_ok.mp h
  cases h
  refine foldlM_invariant (P := fun o => ∀ r ∈ o.1, StagedRun2D.src r < 2 ^ 64) ?_ hfold (by simp)
  intro o tile _ _ ho hP
  unfold stageRun2d at ho
  split at ho
  · cases ho
    exact hP
  · simp only [expects_ok] at ho
    obtain ⟨-, -, -, -, -, -, -, ho⟩ := ho
    cases ho
    intro r hr
    rcases mem_append.mp hr with hr | hr
    · exact hP r hr
    · rw [mem_singleton] at hr
      subst hr
      have hreal := tile.real
      show tile.src < 2 ^ 64
      omega

lemma shift_zero (h : stageRuns2d dst g numRuns = .ok runs) : runs.map (·.shift 0) = runs := by
  refine (map_congr_left fun r hr => ?_).trans (map_id runs)
  simp [StagedRun2D.shift, wrap_of_lt (stageRuns2d_src h r hr)]

lemma shift_writes (srcOffset base a : ℕ) (r : StagedRun2D) :
    Writes ((r.shift srcOffset).copies base) a ↔ Writes (r.copies base) a := by
  simp [Writes, Copy.Writes, StagedRun2D.copies, StagedRun2D.shift]

/-- No shifted source meets the staging buffer. -/
def SourcesApart (dst : DstSpan) (runs : List StagedRun2D) (srcOffset : ℕ) : Prop :=
  ∀ r ∈ runs, ∀ a, Reads ((r.shift srcOffset).copies dst.data) a → ¬(dst.data ≤ a ∧ a < dst.data + dst.size)

lemma writes_inside (h : stageRuns2d dst g numRuns = .ok runs) {r : StagedRun2D} (hr : r ∈ runs) {a : ℕ}
    (hw : Writes (r.copies dst.data) a) : dst.data ≤ a ∧ a < dst.data + dst.size := by
  have hbox := StagedRun2D.writes_box hw
  have hinside := ((stageRuns2d_ok h).1 r hr).inside
  unfold StagedRun2D.dstBox at hbox
  omega

/-- **Shifted tiles** that miss the staging buffer. -/
theorem shift_batches (h : stageRuns2d dst g numRuns = .ok runs) {srcOffset : ℕ} (hapart : SourcesApart dst runs srcOffset) :
    Batches (batches2d dst.data (runs.map (·.shift srcOffset))) ∧
      NoCrossTraffic (batches2d dst.data (runs.map (·.shift srcOffset))) := by
  have hb := stageRuns2d_batches h
  have hcross : ∀ r ∈ runs, ∀ s ∈ runs, ∀ a, Reads ((r.shift srcOffset).copies dst.data) a →
      ¬Writes ((s.shift srcOffset).copies dst.data) a := by
    intro r hr s hs a hread hwrite
    exact hapart r hr a hread (writes_inside h hs ((shift_writes _ _ _ _).mp hwrite))
  have hbatch : batches2d dst.data (runs.map (·.shift srcOffset)) = runs.map fun r => (r.shift srcOffset).copies dst.data := by
    rw [batches2d, map_map]
    rfl
  rw [hbatch]
  refine ⟨⟨?_, ?_, ?_⟩, ?_⟩
  · intro b hb
    obtain ⟨r, hr, rfl⟩ := mem_map.mp hb
    exact hcross r hr r hr
  · intro b hb
    obtain ⟨r, hr, rfl⟩ := mem_map.mp hb
    have hexcl := ((stageRuns2d_ok h).1 r hr).exclusive
    have hsame (c : StagedRun2D) (hdst : c.dstOffset = r.dstOffset) (hstride : c.dstStride = r.dstStride)
        (hwidth : c.width = r.width) (hheight : c.height = r.height) : Exclusive (c.copies dst.data) := by
      unfold Exclusive StagedRun2D.copies at hexcl ⊢
      rw [pairwise_map] at hexcl ⊢
      rw [hdst, hstride, hwidth, hheight]
      exact hexcl
    exact hsame _ rfl rfl rfl rfl
  · refine pairwise_map.mpr ((pairwise_map.mp hb.apart).imp fun {r s} hrs a hra hsa => ?_)
    exact hrs a ((shift_writes _ _ _ _).mp hra) ((shift_writes _ _ _ _).mp hsa)
  · intro i j hi hj _ a
    simp only [getElem_map]
    exact hcross _ (getElem_mem _) _ (getElem_mem _) a

end

/-! ## Results -/

/-- The launch moves each byte of the copies once, in aligned accesses, and every interleaving does what they do. -/
structure Agrees {T : Type} [DecidableEq T] (launch : Launch T) (cs : List Copy) : Prop where
  once : Exclusive launch.copies
  bytes : launch.copies.flatMap bytes = cs.flatMap bytes
  aligned : ∀ c ∈ launch.copies, Aligned c
  result : ∀ m m' : Mem UInt8, launch.Result m m' → m' = runAll cs m

lemma agrees_iff_noCross {T : Type} [DecidableEq T] {launch : Launch T} {groups : List (List T)} {runs : List (List Copy)}
    (hthreads : groups.flatten = launch.threads) (hnodup : launch.threads.Nodup) (hb : Batches runs)
    (hmoves : launch.Moves groups runs) (haligned : ∀ c ∈ launch.copies, Aligned c) :
    Agrees launch runs.flatten ↔ NoCrossTraffic runs := by
  have hiff := Launch.agrees_iff (β := UInt8) hthreads hnodup hb hmoves
  have hbytes := hmoves.bytes hthreads
  refine ⟨fun h => hiff.mp h.result, fun h => ⟨?_, hbytes, haligned, hiff.mpr h⟩⟩
  apply exclusive_of_bytes
  rw [hbytes]
  exact hb.exclusive_flatten.bytes

section

variable {dst : DstSpan}

lemma kernel1dOneshot_agrees {g : RunList1D} {runs : List StagedRun1D} {launch : Launch (ℕ × ℕ)}
    (hstage : stageRuns1d dst g = .ok runs) (h : kernel1dOneshot dst.data runs = .ok launch) :
    Agrees launch (copyEngine1d runs dst.data) ↔ NoCrossTraffic (batches1d dst.data runs) := by
  obtain ⟨-, h⟩ := expects_ok.mp h
  obtain ⟨n, hthreads, hnodup, hmoves, haligned⟩ := launchGather1d_moves h fun r hr =>
    le_maxOf (mem_map.mpr ⟨_, mem_map.mpr ⟨r, hr, rfl⟩, rfl⟩)
  exact agrees_iff_noCross hthreads hnodup (stageRuns1d_batches hstage) hmoves haligned

lemma plan1d_execute {g : RunList1D} {plan : P2PGatherPlan1D} (h : P2PGatherPlan1D.construct dst g = .ok plan) :
    stageRuns1d dst g = .ok plan.hostRuns ∧ plan.dst = dst.data ∧
      plan.execute = kernel1dOneshot dst.data plan.hostRuns := by
  obtain ⟨_, hstage, h⟩ := bind_ok.mp h
  obtain ⟨hruns, h⟩ := expects_ok.mp h
  cases h
  refine ⟨hstage, rfl, ?_⟩
  unfold kernel1dOneshot
  dsimp only
  rw [expects_of hruns]
  rfl

variable {g : Option (List Gather2DRun)} {numRuns : ℕ}

lemma launch2d_agrees {maxUnits : ℕ} {runs : List StagedRun2D}
    {launch : Launch (ℕ × ℕ × ℕ)} (hstage : stageRuns2d dst g numRuns = .ok runs)
    (h : launchGather2d (runs.map (describe2d dst.data)) maxUnits (maxOf ((runs.map (describe2d dst.data)).map (·.height))) 0 =
      .ok launch) (hunits : maxUnits = maxOf ((runs.map (describe2d dst.data)).map (·.units))) :
    Agrees launch (copyEngine2d runs dst.data 0) ↔ NoCrossTraffic (batches2d dst.data runs) := by
  obtain ⟨n, hthreads, hnodup, hmoves, haligned⟩ := launchGather2d_moves h (fun r hr => by
    rw [hunits]
    have hvec : ((describe2d dst.data r).vec && aligned16 0) = (describe2d dst.data r).vec := Bool.and_true _
    rw [hvec]
    exact le_maxOf (mem_map.mpr ⟨_, mem_map.mpr ⟨r, hr, rfl⟩, rfl⟩)) fun r hr =>
      le_maxOf (mem_map.mpr ⟨_, mem_map.mpr ⟨r, hr, rfl⟩, rfl⟩)
  unfold copyEngine2d
  rw [shift_zero hstage] at hmoves ⊢
  exact agrees_iff_noCross hthreads hnodup (stageRuns2d_batches hstage) hmoves haligned

lemma kernel2dOneshot_agrees {runs : List StagedRun2D}
    {launch : Launch (ℕ × ℕ × ℕ)} (hstage : stageRuns2d dst g numRuns = .ok runs)
    (h : kernel2dOneshot dst.data runs = .ok launch) :
    Agrees launch (copyEngine2d runs dst.data 0) ↔ NoCrossTraffic (batches2d dst.data runs) := by
  obtain ⟨-, h⟩ := expects_ok.mp h
  simp only [expects_ok] at h
  obtain ⟨-, h⟩ := h
  exact launch2d_agrees hstage h rfl

lemma plan2d_fields {plan : P2PGatherPlan2D}
    (h : construct dst g numRuns = .ok plan) : stageRuns2d dst g numRuns = .ok plan.hostRuns ∧
      plan.dst = dst.data ∧ plan.dev = plan.hostRuns.map (describe2d dst.data) ∧
      plan.maxUnits = maxOf (plan.dev.map (·.units)) ∧ plan.maxScalarUnits = maxOf (plan.dev.map (·.width)) ∧
      plan.maxHeight = maxOf (plan.dev.map (·.height)) := by
  obtain ⟨_, hstage, h⟩ := bind_ok.mp h
  obtain ⟨-, h⟩ := expects_ok.mp h
  simp only [expects_ok] at h
  obtain ⟨-, h⟩ := h
  cases h
  exact ⟨hstage, rfl, rfl, rfl, rfl, rfl⟩

lemma plan2d_executeAt_agrees {srcByteOffset : ℕ} {plan : P2PGatherPlan2D}
    {launch : Launch (ℕ × ℕ × ℕ)} (hplan : construct dst g numRuns = .ok plan)
    (h : plan.executeAt srcByteOffset = .ok launch) (hapart : SourcesApart dst plan.hostRuns srcByteOffset) :
    Agrees launch (copyEngine2d plan.hostRuns plan.dst srcByteOffset) := by
  obtain ⟨hstage, hdst, hdev, hunits, hscalar, hheight⟩ := plan2d_fields hplan
  unfold executeAt at h
  rw [hdev] at h
  obtain ⟨n, hthreads, hnodup, hmoves, haligned⟩ := launchGather2d_moves h (fun r hr => by
    have hdesc : describe2d dst.data r ∈ plan.dev := hdev ▸ mem_map.mpr ⟨r, hr, rfl⟩
    cases hoff : aligned16 srcByteOffset with
    | true =>
      rw [Bool.and_true]
      simp only [if_true, hunits]
      exact le_maxOf (mem_map.mpr ⟨_, hdesc, rfl⟩)
    | false =>
      rw [Bool.and_false]
      simp only [Bool.false_eq_true, if_false, hscalar]
      exact le_maxOf (mem_map.mpr ⟨_, hdesc, rfl⟩)) fun r hr => by
    rw [hheight, hdev]
    exact le_maxOf (mem_map.mpr ⟨_, mem_map.mpr ⟨r, hr, rfl⟩, rfl⟩)
  obtain ⟨hb, hx⟩ := shift_batches hstage hapart
  rw [hdst]
  exact (agrees_iff_noCross hthreads hnodup hb hmoves haligned).mpr hx

end

/-- **The kernel path** of the one-shot calls and of the plans does what the copy engine does, byte for byte and in every
interleaving, exactly where no run reads what another writes; with an offset, wherever the shifted sources miss the staging
buffer. -/
theorem cuda_gather_agrees_iff (dst : DstSpan) :
    (∀ (g : RunList1D) (runs : List StagedRun1D) (launch : Launch (ℕ × ℕ)), stageRuns1d dst g = .ok runs →
      kernel1dOneshot dst.data runs = .ok launch →
        (Agrees launch (copyEngine1d runs dst.data) ↔ NoCrossTraffic (batches1d dst.data runs))) ∧
    (∀ (g : RunList1D) (plan : P2PGatherPlan1D) (launch : Launch (ℕ × ℕ)), P2PGatherPlan1D.construct dst g = .ok plan →
      plan.execute = .ok launch →
        (Agrees launch (copyEngine1d plan.hostRuns plan.dst) ↔ NoCrossTraffic (batches1d dst.data plan.hostRuns))) ∧
    (∀ (g : Option (List Gather2DRun)) (numRuns : ℕ) (runs : List StagedRun2D) (launch : Launch (ℕ × ℕ × ℕ)),
      stageRuns2d dst g numRuns = .ok runs → kernel2dOneshot dst.data runs = .ok launch →
        (Agrees launch (copyEngine2d runs dst.data 0) ↔ NoCrossTraffic (batches2d dst.data runs))) ∧
    (∀ (g : Option (List Gather2DRun)) (numRuns : ℕ) (plan : P2PGatherPlan2D) (launch : Launch (ℕ × ℕ × ℕ)),
      construct dst g numRuns = .ok plan → plan.execute = .ok launch →
        (Agrees launch (copyEngine2d plan.hostRuns plan.dst 0) ↔ NoCrossTraffic (batches2d dst.data plan.hostRuns))) ∧
    ∀ (g : Option (List Gather2DRun)) (numRuns srcByteOffset : ℕ) (plan : P2PGatherPlan2D)
      (launch : Launch (ℕ × ℕ × ℕ)), construct dst g numRuns = .ok plan →
      plan.executeAt srcByteOffset = .ok launch → SourcesApart dst plan.hostRuns srcByteOffset →
        Agrees launch (copyEngine2d plan.hostRuns plan.dst srcByteOffset) := by
  refine ⟨fun g runs launch hstage h => kernel1dOneshot_agrees hstage h, fun g plan launch hplan h => ?_,
    fun g numRuns runs launch hstage h => kernel2dOneshot_agrees hstage h, fun g numRuns plan launch hplan h => ?_,
    fun g numRuns srcByteOffset plan launch hplan h hapart => plan2d_executeAt_agrees hplan h hapart⟩
  · obtain ⟨hstage, hdst, hexecute⟩ := plan1d_execute hplan
    rw [hdst]
    exact kernel1dOneshot_agrees hstage (hexecute ▸ h)
  · obtain ⟨hstage, hdst, hdev, hunits, -, hheight⟩ := plan2d_fields hplan
    unfold execute at h
    rw [hheight, hdev] at h
    rw [hdst]
    exact launch2d_agrees hstage h (hdev ▸ hunits)

/-- The launch of `chainedRuns`. -/
def chainedLaunch : Launch (ℕ × ℕ) where
  threads := List.range 2 ×ˢ List.range 256
  moves := gather1dKernel [describe1d 100 ⟨200, 0, 4⟩, describe1d 100 ⟨100, 4, 4⟩]

lemma chainedLaunch_eq : kernel1dOneshot 100 [⟨200, 0, 4⟩, ⟨100, 4, 4⟩] = .ok chainedLaunch := rfl

theorem cuda_gather_agrees_iff_chained : Agrees chainedLaunch (copyEngine1d [⟨200, 0, 4⟩, ⟨100, 4, 4⟩] 100) ↔
      NoCrossTraffic (batches1d 100 [⟨200, 0, 4⟩, ⟨100, 4, 4⟩]) :=
  (cuda_gather_agrees_iff eightBytes).1 chainedRuns _ chainedLaunch chainedRuns_staged chainedLaunch_eq

/-- **Accepted runs whose launch is a race**: the second run reads the bytes that the first one writes. -/
theorem chained_launch_differs : stageRuns1d eightBytes chainedRuns = .ok [⟨200, 0, 4⟩, ⟨100, 4, 4⟩] ∧
    kernel1dOneshot eightBytes.data [⟨200, 0, 4⟩, ⟨100, 4, 4⟩] = .ok chainedLaunch ∧
      ¬Agrees chainedLaunch (copyEngine1d [⟨200, 0, 4⟩, ⟨100, 4, 4⟩] eightBytes.data) := by
  refine ⟨chainedRuns_staged, chainedLaunch_eq, fun hagrees => ?_⟩
  have hx := (kernel1dOneshot_agrees chainedRuns_staged chainedLaunch_eq).mp hagrees
  exact hx 1 0 (by decide) (by decide) (by decide) 100 ⟨⟨104, 100, 4⟩, mem_singleton_self _, by decide, by decide⟩
    ⟨⟨100, 200, 4⟩, mem_singleton_self _, by decide, by decide⟩

end VKernels.Comm
