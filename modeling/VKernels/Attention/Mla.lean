import VKernels.Lib.SplitSoftmax
import VKernels.Lib.Wavefront

/-!
# Latent attention

`mla_fwd`: causal attention over a latent that all heads share, on the CPU and by four device kernels.

* `cpuRow`, `mlaFwdCpu` — the oracle, in two passes.
* `onlineStep`, `wideStep` — one key of a running softmax, always rescaling or only where the maximum advances.

Offsets and sizes are exact, the device decides which launches it takes.
-/

namespace VKernels.Mla

open SplitSoftmax Wavefront LocalActions
open OnlineSoftmax (expFrom)
open List

/-! ## Shapes and data -/

/-- The sizes of a call that the kernels are for, with the places of the first query and key. -/
structure Shape where
  B : ℕ
  H : ℕ
  Sq : ℕ
  Skv : ℕ
  qStart : ℤ
  kvStart : ℤ
  lr : ℕ
  rhd : ℕ
  B_pos : 0 < B
  H_pos : 0 < H
  Sq_pos : 0 < Sq
  Skv_pos : 0 < Skv
  lr_pos : 0 < lr
  lr_le : lr ≤ 1024
  rhd_pos : 0 < rhd
  rhd_le : rhd ≤ 64

namespace Shape

variable (s : Shape)

def Dq : ℕ := s.lr + s.rhd

/-- The number of a (batch, head, row). -/
def row (r : ℕ × ℕ × ℕ) : ℕ := (r.1 * s.H + r.2.1) * s.Sq + r.2.2

def rows : ℕ := s.B * s.H * s.Sq

def allRows : List (ℕ × ℕ × ℕ) := range s.B ×ˢ range s.H ×ˢ range s.Sq

/-- Key `j` is not masked for row `i`. -/
def Visible (i j : ℕ) : Prop := s.kvStart + j ≤ s.qStart + i

instance (i j : ℕ) : Decidable (s.Visible i j) := inferInstanceAs (Decidable (_ ≤ _))

/-- `(lr + 63) / 64`. -/
def nopeTiles : ℕ := (s.lr + 63) / 64

end Shape

/-- The arguments, row-major. -/
structure Data (V : Type) where
  q : ℕ → V
  kc : ℕ → V
  kpe : ℕ → V
  vc : ℕ → V
  scale : V

section

variable {V : Type} (s : Shape) (x : Data V)

def qAt (r : ℕ × ℕ × ℕ) (c : ℕ) : V := x.q (s.row r * s.Dq + c)

def kcAt (b j d : ℕ) : V := x.kc ((b * s.Skv + j) * s.lr + d)

def kpeAt (b j d : ℕ) : V := x.kpe ((b * s.Skv + j) * s.rhd + d)

def vcAt (b j d : ℕ) : V := x.vc ((b * s.Skv + j) * s.lr + d)

end

/-! ## The oracle -/

section

variable {V : Type} [Field V] [LinearOrder V] (exp : V → V) (s : Shape) (x : Data V)

section

variable (r : ℕ × ℕ × ℕ)

/-- A score, `none` for a masked key. -/
def cpuScore (j : ℕ) : Option V :=
  if ¬s.Visible r.2.2 j then none
  else some (x.scale * (∑ d ∈ Finset.range s.lr, qAt s x r d * kcAt s x r.1 j d +
    ∑ d ∈ Finset.range s.rhd, qAt s x r (s.lr + d) * kpeAt s x r.1 j d))

/-- `score > row_max`. -/
def Above (score max : Option V) : Prop :=
  match score, max with
  | none, _ => False
  | some _, none => True
  | some s, some m => m < s

instance (score max : Option V) : Decidable (Above score max) :=
  match score, max with
  | none, _ => inferInstanceAs (Decidable False)
  | some _, none => inferInstanceAs (Decidable True)
  | some s, some m => inferInstanceAs (Decidable (m < s))

/-- Pass 1. -/
def cpuMax : Option V :=
  (range s.Skv).foldl (fun m j => if Above (cpuScore s x r j) m then cpuScore s x r j else m) none

/-- The weights of pass 2.  With a key that is not masked there is a maximum. -/
def cpuWeight (j : ℕ) : Option V := (cpuScore s x r j).map fun w => exp (w - (cpuMax s x r).getD 0)

def cpuSum : V := ∑ j ∈ Finset.range s.Skv, (cpuWeight exp s x r j).getD 0

/-- What a key adds to an element of the row. -/
def cpuTerm (j d : ℕ) : V :=
  match cpuWeight exp s x r j with
  | none => 0
  | some w => w * (1 / cpuSum exp s x r) * vcAt s x r.1 j d

def cpuRow (d : ℕ) : V := if cpuSum exp s x r = 0 then 0 else ∑ j ∈ Finset.range s.Skv, cpuTerm exp s x r j d

/-- `mla_fwd_cpu`: where it writes, and what. -/
def mlaFwdCpu : List (ℕ × V) :=
  s.allRows.flatMap fun r => (range s.lr).map fun d => (s.row r * s.lr + d, cpuRow exp s x r d)

end

/-! ## One wavefront -/

section

/-- `exp(a - b)`, zero where `a` is minus infinity. -/
def expGap (a b : Option V) : V :=
  match a, b with
  | some a, some b => exp (a - b)
  | _, _ => 0

def onlineStep (g : Gathered ℕ V) (score : Option V) (value : ℕ → V) : Gathered ℕ V :=
  let newMax := maximum g.max score
  let expOld := expGap exp g.max newMax
  let expS := expGap exp score newMax
  { max := newMax
    denom := g.denom * expOld + expS
    acc := fun t => g.acc t * expOld + expS * value t }

/-- One key of the wide kernel: only a new maximum rescales. -/
def wideStep (g : Gathered ℕ V) (score : Option V) (value : ℕ → V) : Gathered ℕ V :=
  match score with
  | some w =>
    if Above (some w) g.max then
      let e := expFrom exp g.max w
      ⟨some w, g.denom * e + 1, fun t => g.acc t * e + value t⟩
    else
      let p := exp (w - g.max.getD 0)
      ⟨g.max, g.denom + p, fun t => g.acc t + p * value t⟩
  | none => ⟨g.max, g.denom + 0, fun t => g.acc t + 0 * value t⟩

/-- `1 / row_sum`, zero where there is no weight. -/
def inverse (g : Gathered ℕ V) : V := if 0 < g.denom then 1 / g.denom else 0

section

variable (query : ℕ → V) (b i lane : ℕ)

/-- The partial score of a lane: its strided elements of the latent part, and one of the rope part. -/
def lanePartial (j lane : ℕ) : V :=
  if s.Visible i j then
    (∑ t ∈ Finset.range s.nopeTiles,
        if lane + t * 64 < s.lr then query (lane + t * 64) * kcAt s x b j (lane + t * 64) else 0) +
      if lane < s.rhd then query (s.lr + lane) * kpeAt s x b j lane else 0
  else 0

def laneScore (j : ℕ) : Option V :=
  if s.Visible i j then some (warpReduce (lanePartial s x query b i j) lane * x.scale) else none

/-- What the accumulators of a lane take from a key. -/
def laneValue (j t : ℕ) : V := if s.Visible i j ∧ lane + t * 64 < s.lr then vcAt s x b j (lane + t * 64) else 0

/-- A lane over the keys `lo`, ..., `hi - 1`. -/
def laneLoop (lo hi : ℕ) : Gathered ℕ V :=
  (range (hi - lo)).foldl
    (fun g k => onlineStep exp g (laneScore s x query b i lane (lo + k)) (laneValue s x b i lane (lo + k)))
    Gathered.start

end

section

variable (LP : ℕ) (query : ℕ → V) (b i lane : ℕ)

/-- Lane `l` has the elements from `l * LP` on. -/
def widePartial (j lane : ℕ) : V :=
  (if lane < s.rhd then query (s.lr + lane) else 0) * (if lane < s.rhd then kpeAt s x b j lane else 0) +
    ∑ t ∈ Finset.range LP, query (lane * LP + t) * kcAt s x b j (lane * LP + t)

def wideScore (j : ℕ) : Option V :=
  if s.Visible i j then some (warpReduce (widePartial s x LP query b j) lane * x.scale) else none

/-- The keys in tiles of two, the last one shorter. -/
def wideLoop : Gathered ℕ V :=
  (range ((s.Skv + 1) / 2)).foldl
    (fun g tile => (range (min (s.Skv - tile * 2) 2)).foldl
      (fun g n2 => wideStep exp g (wideScore s x LP query b i lane (tile * 2 + n2))
        fun t => vcAt s x b (tile * 2 + n2) (lane * LP + t)) g)
    Gathered.start

end

end

/-! ## The kernels -/

/-- The wavefronts of a grid of `(ceil(Sq / BQ), ceil(H / BH), B)` blocks of `BQ * BH`: batch, head group, tile, warp. -/
def warps (s : Shape) (BQ BH : ℕ) : List (ℕ × ℕ × ℕ × ℕ) :=
  range s.B ×ˢ range ((s.H + BH - 1) / BH) ×ˢ range ((s.Sq + BQ - 1) / BQ) ×ˢ range (BQ * BH)

/-- Its batch, head and row. -/
def rowOf (BQ BH : ℕ) (w : ℕ × ℕ × ℕ × ℕ) : ℕ × ℕ × ℕ :=
  let (b, hgroup, tile, warp) := w
  (b, hgroup * BH + warp % BH, tile * BQ + warp / BH)

/-- The wavefronts that do not return at once. -/
def activeWarps (s : Shape) (BQ BH : ℕ) : List (ℕ × ℕ × ℕ × ℕ) :=
  (warps s BQ BH).filter fun w => (rowOf BQ BH w).2.2 < s.Sq ∧ (rowOf BQ BH w).2.1 < s.H

/-- The strided cells of one row with the value of each. -/
def stridedRow (query : ℕ → V) (r : ℕ × ℕ × ℕ) (c : ℕ × ℕ) : V :=
  let g := laneLoop exp s x query r.1 r.2.2 c.1 0 s.Skv
  g.acc c.2 * inverse g

/-- `mla_fwd_headfused_kernel<BQ, BH>`. -/
def fusedStores (BQ BH : ℕ) : List (ℕ × V) :=
  (activeWarps s BQ BH).flatMap fun w => (stridedCells s.lr s.nopeTiles).map fun c =>
    (s.row (rowOf BQ BH w) * s.lr + (c.1 + c.2 * 64), stridedRow exp s x (qAt s x (rowOf BQ BH w)) (rowOf BQ BH w) c)

/-- `mla_fwd_headfused_wide_kernel<BQ, BH, LP>`. -/
def wideStores (BQ BH LP : ℕ) : List (ℕ × V) :=
  (activeWarps s BQ BH).flatMap fun w => (pieceCells LP).map fun c =>
    let r := rowOf BQ BH w
    let g := wideLoop exp s x LP (qAt s x r) r.1 r.2.2 c.1
    (s.row r * s.lr + (c.1 * LP + c.2), g.acc c.2 * inverse g)

/-! ### Staged queries -/

/-- The indices that the threads of a block stage, of those wavefronts that take part. -/
def stagedIndices (BQ : ℕ) (takesPart : ℕ → Bool) : List ℕ :=
  (range (BQ * 64)).flatMap fun tid =>
    if takesPart (tid / 64) then threadLoop (BQ * s.Dq) (BQ * 64) tid else []

/-- Shared memory behind the barrier, over what it held. -/
def sharedQ (BQ : ℕ) (takesPart : ℕ → Bool) (b h tile : ℕ) (held : ℕ → V) : ℕ → V :=
  assign ((stagedIndices s BQ takesPart).map fun idx =>
    (idx, if tile * BQ + idx / s.Dq < s.Sq then qAt s x (b, h, tile * BQ + idx / s.Dq) (idx % s.Dq) else 0)) held

/-- `mla_fwd_kernel<BQ>`: wavefronts past the last row return before they stage anything. -/
def plainStores (BQ : ℕ) (held : ℕ × ℕ × ℕ → ℕ → V) : List (ℕ × V) :=
  (activeWarps s BQ 1).flatMap fun w => (stridedCells s.lr s.nopeTiles).map fun c =>
    let (b, h, tile, warp) := w
    let sQ := sharedQ s x BQ (fun v => tile * BQ + v < s.Sq) b h tile (held (b, h, tile))
    (s.row (rowOf BQ 1 w) * s.lr + (c.1 + c.2 * 64),
      stridedRow exp s x (fun idx => sQ (warp * s.Dq + idx)) (rowOf BQ 1 w) c)

end

/-! ### Splits -/

section

variable {V : Type} [Field V] [LinearOrder V] (exp log : V → V)

section

variable (s : Shape) (x : Data V) (split BQ : ℕ)

/-- `(S_kv + split - 1) / split`. -/
def kvs : ℕ := (s.Skv + split - 1) / split

/-- The wavefronts of a grid of `(ceil(Sq / BQ), H, B * split)` blocks of `BQ` with a row of their own. -/
def splitWarps : List (ℕ × ℕ × ℕ × ℕ) :=
  (range (s.B * split) ×ˢ range s.H ×ˢ range ((s.Sq + BQ - 1) / BQ) ×ˢ range BQ).filter fun w =>
    w.2.2.1 * BQ + w.2.2.2 < s.Sq

/-- Of a wavefront, its row and its split. -/
def splitOf (w : ℕ × ℕ × ℕ × ℕ) : (ℕ × ℕ × ℕ) × ℕ :=
  let (z, h, tile, warp) := w
  ((z / split, h, tile * BQ + warp), z - z / split * split)

/-- One lane of a wavefront of `mla_fwd_split_kernel<BQ>`. -/
def splitLane (held : ℕ × ℕ × ℕ → ℕ → V) (w : ℕ × ℕ × ℕ × ℕ) (lane : ℕ) : Gathered ℕ V :=
  let (z, h, tile, warp) := w
  let b := z / split
  let sp := z - b * split
  let sQ := sharedQ s x BQ (fun _ => true) b h tile (held (z, h, tile))
  let lo := sp * kvs s split
  laneLoop exp s x (fun idx => sQ (warp * s.Dq + idx)) b (tile * BQ + warp) lane lo (min (lo + kvs s split) s.Skv)

/-- `row_max + log(row_sum)`, minus infinity where there is no weight. -/
def lse (g : Gathered ℕ V) : Option V := if 0 < g.denom then g.max.map fun m => m + log g.denom else none

/-- The partial rows. -/
def splitOutStores (held : ℕ × ℕ × ℕ → ℕ → V) : List (ℕ × V) :=
  (splitWarps s split BQ).flatMap fun w => (stridedCells s.lr s.nopeTiles).map fun c =>
    let g := splitLane exp s x split BQ held w c.1
    ((s.row (splitOf split BQ w).1 * split + (splitOf split BQ w).2) * s.lr + (c.1 + c.2 * 64), g.acc c.2 * inverse g)

/-- Their log-sum-exps, by lane 0. -/
def splitLseStores (held : ℕ × ℕ × ℕ → ℕ → V) : List (ℕ × Option V) :=
  (splitWarps s split BQ).map fun w =>
    (s.row (splitOf split BQ w).1 * split + (splitOf split BQ w).2, lse log (splitLane exp s x split BQ held w 0))

section

variable (partialOut : ℕ → V) (partialLse : ℕ → Option V) (r : ℕ × ℕ × ℕ)

def sLse (sp : ℕ) : Option V := partialLse (s.row r * split + sp)

/-- One lane's element of a combined row. -/
def combined (idx : ℕ) : V :=
  match maxOver split (sLse s split partialLse r) with
  | none => 0
  | some mG =>
    let sum := ∑ sp ∈ Finset.range split, expFrom exp (sLse s split partialLse r sp) mG
    let lseG := mG + log sum
    ∑ sp ∈ Finset.range split,
      expFrom exp (sLse s split partialLse r sp) lseG * partialOut ((s.row r * split + sp) * s.lr + idx)

/-- `mla_fwd_split_combine_kernel`: a block of one wavefront for every row. -/
def combineStores : List (ℕ × V) :=
  s.allRows.flatMap fun r => (stridedCells s.lr s.nopeTiles).map fun c =>
    (s.row r * s.lr + (c.1 + c.2 * 64), combined exp log s split partialOut partialLse r (c.1 + c.2 * 64))

end

end

/-! ## Dispatch -/

/-- What the device sees of a launch. -/
structure Launch where
  gridX : ℕ
  gridY : ℕ
  gridZ : ℕ
  threads : ℕ
  sharedBytes : ℕ
  deriving DecidableEq

def blockLaunch (s : Shape) (BQ BH sharedBytes : ℕ) : Launch :=
  ⟨(s.Sq + BQ - 1) / BQ, (s.H + BH - 1) / BH, s.B, BQ * BH * 64, sharedBytes⟩

/-- What a call finds: shared memory of each block, the scratch buffers, and an order of the stores to these. -/
structure Env (V : Type) where
  held : ℕ × ℕ × ℕ → ℕ → V
  partialOut : ℕ → V
  partialLse : ℕ → Option V
  arrangeOut : List (ℕ × V) → List (ℕ × V)
  arrangeLse : List (ℕ × Option V) → List (ℕ × Option V)
  arrangeOut_perm : ∀ stores, (arrangeOut stores).Perm stores
  arrangeLse_perm : ∀ stores, (arrangeLse stores).Perm stores

/-- The turns of `while ((n & (n - 1)) != 0) n &= n - 1`. -/
def dropBits : ℕ → ℕ → ℕ
  | 0, n => n
  | turns + 1, n => if n &&& (n - 1) ≠ 0 then dropBits turns (n &&& (n - 1)) else n

/-- The loop: every turn takes a bit away, so `n` turns are enough. -/
def dropToPowerOfTwo (n : ℕ) : ℕ := dropBits n n

/-- `mla_prefill_heads_per_block`. -/
def headsPerBlock (bq H : ℕ) : ℕ :=
  if H = 0 ∨ bq = 0 then 1
  else
    let bh := if 16 / max 1 bq < H then 16 / max 1 bq else H
    let bh := if bh < 1 then 1 else bh
    dropToPowerOfTwo bh

/-- `bq` of `mla_config_for`. -/
def configBq (Sq : ℕ) : ℕ := if Sq ≤ 8 then 1 else 4

/-- `mla_fwd_split_for`, with the record of the tuning store. -/
def splitFor (s : Shape) (tuned : Option ℤ) : ℕ :=
  let kvCap := (s.Skv + 32 - 1) / 32
  let formula :=
    if s.Sq ≤ 8 then
      let rowBlocks := s.B * s.H * s.Sq
      if 228 ≤ rowBlocks then 1 else max 1 (min (228 / rowBlocks) kvCap)
    else
      let bh := headsPerBlock 4 s.H
      let blocks := (s.Sq + 3) / 4 * ((s.H + bh - 1) / bh) * s.B
      if 228 ≤ blocks then 1 else max 1 (min (228 / blocks) kvCap)
  match tuned with
  | none => formula
  | some record =>
    let capped := min record (min (s.Skv : ℤ) (65535 / s.B))
    if 1 ≤ capped then capped.toNat else formula

/-- `BQ` of `launch_fused`. -/
def fusedBQ (bq : ℕ) : ℕ := if bq < 2 then 1 else if bq < 4 then 2 else if bq < 8 then 4 else 8

/-- `BQ` of `launch`. -/
def plainBQ (bq : ℕ) : ℕ := if bq ≤ 1 then 1 else if bq ≤ 2 then 2 else if bq ≤ 4 then 4 else 8

def wideCases : List (ℕ × ℕ) :=
  [(1, 1), (1, 2), (1, 4), (1, 8), (2, 1), (2, 2), (2, 4), (4, 1), (4, 2), (8, 1)]

def fusedCases : List (ℕ × ℕ) :=
  [(1, 1), (1, 2), (1, 4), (1, 8), (1, 16), (2, 1), (2, 2), (2, 4), (2, 8), (4, 1), (4, 2), (4, 4), (8, 1), (8, 2)]

/-- The case of a `switch (BQ * 32 + BH)`. -/
def switchCase (cases : List (ℕ × ℕ)) (BQ BH : ℕ) : Option (ℕ × ℕ) :=
  cases.find? fun c => c.1 * 32 + c.2 = BQ * 32 + BH

/-- `BHw` of `launch_fused`. -/
def wideBH (BQ bh : ℕ) : ℕ :=
  let BHw := dropToPowerOfTwo (12 / BQ)
  let BHw := if bh < BHw then bh else BHw
  if BHw < 1 then 1 else BHw

def wideCase (s : Shape) (bq bh : ℕ) : Option (ℕ × ℕ) :=
  if s.lr = 512 ∧ s.rhd ≤ 64 then switchCase wideCases (fusedBQ bq) (wideBH (fusedBQ bq) bh) else none

section

variable (accepts : Launch → Bool) (env : Env V) (s : Shape) (x : Data V)

/-- A launch that nobody checks. -/
def launched (l : Launch) (stores : List (ℕ × V)) : List (ℕ × V) := if accepts l then stores else []

/-- `launch_fused`. -/
def launchFused (bq bh : ℕ) : List (ℕ × V) :=
  match wideCase s bq bh with
  | some (BQ, BH) => launched accepts (blockLaunch s BQ BH 0) (wideStores exp s x BQ BH 8)
  | none =>
    match switchCase fusedCases (fusedBQ bq) bh with
    | some (BQ, BH) => launched accepts (blockLaunch s BQ BH 0) (fusedStores exp s x BQ BH)
    | none => []

/-- `mla_fwd_with_tile`: what is stored to `out`. -/
def mlaFwdWithTile (bq : ℕ) : List (ℕ × V) :=
  if 8 < s.Sq then launchFused exp accepts s x bq (headsPerBlock bq s.H)
  else launched accepts (blockLaunch s (plainBQ bq) 1 (plainBQ bq * s.Dq * 4)) (plainStores exp s x (plainBQ bq) env.held)

/-- `bq` of `launch_split`. -/
def splitBQ (s : Shape) : ℕ := if 8 < s.Sq then 4 else 1

def splitLaunch (s : Shape) (split : ℕ) : Launch :=
  ⟨(s.Sq + splitBQ s - 1) / splitBQ s, s.H, s.B * split, splitBQ s * 64, splitBQ s * s.Dq * 4⟩

def combineLaunch (s : Shape) (split : ℕ) : Launch := ⟨s.Sq, s.H, s.B, 64, split * 4⟩

/-- `launch_split`: nothing where the split kernel is not taken. -/
def launchSplit (split : ℕ) : Option (List (ℕ × V)) :=
  if accepts (splitLaunch s split) then
    let partialOut := assign (env.arrangeOut (splitOutStores exp s x split (splitBQ s) env.held)) env.partialOut
    let partialLse := assign (env.arrangeLse (splitLseStores exp log s x split (splitBQ s) env.held)) env.partialLse
    some (launched accepts (combineLaunch s split) (combineStores exp log s split partialOut partialLse))
  else none

/-- `mla_fwd_with_split`. -/
def mlaFwdWithSplit (split : ℕ) : List (ℕ × V) :=
  match if 1 < split then launchSplit exp log accepts env s x split else none with
  | some stores => stores
  | none => mlaFwdWithTile exp accepts env s x (configBq s.Sq)

/-- `mla_fwd`. -/
def mlaFwd (tuned : Option ℤ) : List (ℕ × V) := mlaFwdWithSplit exp log accepts env s x (splitFor s tuned)

end

end

end VKernels.Mla
