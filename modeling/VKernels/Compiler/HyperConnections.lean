import VKernels.Compiler.MegakernelKv
import VKernels.Lib.SplitSoftmax
import VKernels.Lib.WorkerTasks

/-!
# Hyper-connections

The mixing weights of parallel residual streams: `_t_mhc_pre` and `_t_mhc_post` on padded tiles, and the reference
bodies.

* `combAfter_padded` — padded lanes are zero after every pass of the normalization.
-/

namespace VKernels.HyperConnections

open Finset WorkerTasks LaneLaunch
open Grouping (blocksFor le_blocksFor)
open Megakernel (pyTuple)
open SplitSoftmax (maxOver)

/-! ## Capture -/

structure Geometry where
  B : ℕ
  hc : ℕ
  C : ℕ
  iters : ℕ
  iters_pos : 1 ≤ iters

namespace Geometry

variable (g : Geometry)

def mix : ℕ := (2 + g.hc) * g.hc

/-- The flattened row. -/
def hck : ℕ := g.hc * g.C

end Geometry

lemma toNat_pos {iters : ℤ} (h : ¬iters < 1) : 1 ≤ iters.toNat := by omega

/-- The checks of `mhc_pre`, in its order. -/
def capturePre (streams fn base scale : List ℕ) (iters : ℤ) : Except String Geometry :=
  match streams with
  | [B, hc, C] =>
    if fn ≠ [(2 + hc) * hc, hc * C] then
      .error ("mhc_pre fn must be [" ++ toString ((2 + hc) * hc) ++ ", " ++ toString (hc * C) ++
        "] = [(2+hc)·hc, hc·C]; got shape " ++ pyTuple fn)
    else if base ≠ [(2 + hc) * hc] then
      .error ("mhc_pre base must be [" ++ toString ((2 + hc) * hc) ++ "]; got shape " ++ pyTuple base)
    else if scale ≠ [3] then
      .error ("mhc_pre scale must be [3] = (pre_s, post_s, comb_s); got shape " ++ pyTuple scale)
    else if h : iters < 1 then
      .error ("mhc_pre Sinkhorn iters must be >= 1; got " ++ toString iters)
    else .ok ⟨B, hc, C, iters.toNat, toNat_pos h⟩
  | shape => .error ("mhc_pre streams must be [B, hc, C]; got shape " ++ pyTuple shape)

/-- The checks of `mhc_post`. -/
def capturePost (streams bodyOut post comb : List ℕ) : Except String (ℕ × ℕ × ℕ) :=
  match streams with
  | [B, hc, C] =>
    if bodyOut ≠ [B, C] then
      .error ("mhc_post body_out must be [B, " ++ toString C ++ "]; got shape " ++ pyTuple bodyOut)
    else if post ≠ [B, hc] then
      .error ("mhc_post post weights must be [B, " ++ toString hc ++ "]; got shape " ++ pyTuple post)
    else if comb ≠ [B, hc, hc] then
      .error ("mhc_post comb must be [B, " ++ toString hc ++ ", " ++ toString hc ++ "]; got shape " ++ pyTuple comb)
    else .ok (B, hc, C)
  | shape => .error ("mhc_post streams must be [B, hc, C]; got shape " ++ pyTuple shape)

/-- The arguments of the pre-mix, the tensors by their flat offsets. -/
structure PreData (V : Type) where
  streams : ℕ → V
  fn : ℕ → V
  base : ℕ → V
  scale : ℕ → V
  eps : V
  rmsEps : V

inductive PreOut where
  | hIn
  | post
  | comb
  deriving DecidableEq

/-- A number, or `none` for an infinity or a NaN. -/
abbrev Cell (V : Type) := Option V

/-! ## Reference -/

section

variable {V : Type} [Field V] [LinearOrder V] (exp sqrt : V → V) (g : Geometry) (x : PreData V)

section

variable (b : ℕ)

/-- `flat`: the normalized row. -/
def flat (i : ℕ) : V :=
  x.streams (b * g.hck + i) /
    sqrt ((∑ i ∈ range g.hck, x.streams (b * g.hck + i) * x.streams (b * g.hck + i)) / (g.hck : V) + x.rmsEps)

/-- `fn @ flat`. -/
def logits (m : ℕ) : V := ∑ i ∈ range g.hck, x.fn (m * g.hck + i) * flat sqrt g x b i

def pre (j : ℕ) : V := 1 / (1 + exp (-(logits sqrt g x b j * x.scale 0 + x.base j))) + x.eps

def post (j : ℕ) : V :=
  (1 + 1) / (1 + exp (-(logits sqrt g x b (g.hc + j) * x.scale 1 + x.base (g.hc + j))))

/-- Element `(k, j)` of the `[hc, hc]` segment. -/
def combRow (k j : ℕ) : ℕ := 2 * g.hc + k * g.hc + j

def combLogits (k j : ℕ) : V :=
  logits sqrt g x b (combRow g k j) * x.scale 2 + x.base (combRow g k j)

/-- The exponentials under the maximum of their row. -/
def combExp (k j : ℕ) : V :=
  exp (combLogits sqrt g x b k j - (maxOver g.hc fun j => some (combLogits sqrt g x b k j)).getD 0)

def softmaxRows (k j : ℕ) : V :=
  combExp exp sqrt g x b k j / (∑ j ∈ range g.hc, combExp exp sqrt g x b k j) + x.eps

def normalizeColumns (M : ℕ → ℕ → V) (k j : ℕ) : V := M k j / ((∑ k ∈ range g.hc, M k j) + x.eps)

def normalizeRows (M : ℕ → ℕ → V) (k j : ℕ) : V := M k j / ((∑ j ∈ range g.hc, M k j) + x.eps)

/-- `comb` after the first column normalization and `n` passes of rows and columns. -/
def combAfter : ℕ → ℕ → ℕ → V
  | 0 => normalizeColumns g x (softmaxRows exp sqrt g x b)
  | n + 1 => normalizeColumns g x (normalizeRows g x (combAfter n))

def comb : ℕ → ℕ → V := combAfter exp sqrt g x b (g.iters - 1)

/-- `h_in[bb] = …; post_o[bb] = …; comb_out[bb] = …` -/
def bodyMhcPre : List ((PreOut × ℕ) × Cell V) :=
  ((List.range g.C).map fun c =>
      ((.hIn, b * g.C + c), some (∑ h ∈ range g.hc, pre exp sqrt g x b h * x.streams (b * g.hck + (h * g.C + c))))) ++
    ((List.range g.hc).map fun j => ((.post, b * g.hc + j), some (post exp sqrt g x b j))) ++
    ((List.range g.hc).flatMap fun k => (List.range g.hc).map fun j =>
      ((.comb, b * (g.hc * g.hc) + (k * g.hc + j)), some (comb exp sqrt g x b k j)))

end

/-! ## Device -/

/-- Padded widths and the block of the loops over a row. -/
structure Padding (g : Geometry) where
  MIXP : ℕ
  HCP : ℕ
  BLOCK : ℕ
  mix_le : g.mix ≤ MIXP
  hc_le : g.hc ≤ HCP
  block_pos : 0 < BLOCK

/-- Widths padded to powers of two. -/
def Padding.powersOf2 (g : Geometry) {block : ℕ} (h : 0 < block) : Padding g :=
  ⟨nextPowerOf2 g.mix, nextPowerOf2 g.hc, block, le_nextPowerOf2 g.mix, le_nextPowerOf2 g.hc, h⟩

/-- `a / b`; zero over zero and the like are no numbers. -/
def divide {V : Type} [Field V] [DecidableEq V] : Cell V → Cell V → Cell V
  | some a, some b => if b = 0 then none else some (a / b)
  | _, _ => none

def addEps {V : Type} [Field V] (eps : V) (a : Cell V) : Cell V := a.map (· + eps)

/-- `tl.exp(cl - cm)` where both may be minus infinity. -/
def expDiff {V : Type} [Field V] (exp : V → V) : Option V → Option V → Cell V
  | some a, some m => some (exp (a - m))
  | none, some _ => some 0
  | _, none => none

section

variable (p : Padding g) (b : ℕ)

/-- A masked load of the row. -/
def laneStream (i : ℕ) : V := if i < g.hck then x.streams (b * g.hck + i) else 0

/-- A sum over the blocks of a row. -/
def overBlocks (n : ℕ) (f : ℕ → V) : V :=
  ∑ t ∈ range (blocksFor p.BLOCK n), ∑ l ∈ range p.BLOCK, f (t * p.BLOCK + l)

def rstd : V :=
  1 / sqrt (overBlocks g p g.hck (fun i => laneStream g x b i * laneStream g x b i) / (g.hck : V) + x.rmsEps)

def laneLogits (m : ℕ) : V :=
  overBlocks g p g.hck fun i =>
    (if m < g.mix ∧ i < g.hck then x.fn (m * g.hck + i) else 0) * (laneStream g x b i * rstd sqrt g x p b)

def lanePreW (h : ℕ) : V := ∑ m ∈ range p.MIXP, if m = h ∧ h < g.hc then laneLogits sqrt g x p b m else 0

def lanePostW (h : ℕ) : V := ∑ m ∈ range p.MIXP, if m = g.hc + h ∧ h < g.hc then laneLogits sqrt g x p b m else 0

def laneCombW (k h : ℕ) : V := ∑ m ∈ range p.MIXP, if m = combRow g k h then laneLogits sqrt g x p b m else 0

def lanePre (h : ℕ) : V :=
  1 / (1 + exp (-(lanePreW sqrt g x p b h * x.scale 0 + (if h < g.hc then x.base h else 0)))) + x.eps

def lanePost (h : ℕ) : V :=
  (1 + 1) / (1 + exp (-(lanePostW sqrt g x p b h * x.scale 1 + (if h < g.hc then x.base (g.hc + h) else 0))))

/-- `kj_mask`. -/
def Valid (k h : ℕ) : Prop := k < g.hc ∧ h < g.hc

instance (k h : ℕ) : Decidable (Valid g k h) := inferInstanceAs (Decidable (_ ∧ _))

/-- `tl.where(kj_mask, t, 0.0)`. -/
def whereValid (t : ℕ → ℕ → Cell V) (k h : ℕ) : Cell V := if Valid g k h then t k h else some 0

/-- `cl`, minus infinity off the block. -/
def laneCombLogits (k h : ℕ) : Option V :=
  if Valid g k h then
    some (laneCombW sqrt g x p b k h * x.scale 2 + (if Valid g k h then x.base (combRow g k h) else 0))
  else none

def laneCombExp : ℕ → ℕ → Cell V :=
  whereValid g fun k h =>
    expDiff exp (laneCombLogits sqrt g x p b k h) (maxOver p.HCP fun h => laneCombLogits sqrt g x p b k h)

def laneSoftmaxRows : ℕ → ℕ → Cell V :=
  whereValid g fun k h =>
    addEps x.eps (divide (laneCombExp exp sqrt g x p b k h) (sumOver p.HCP fun h => laneCombExp exp sqrt g x p b k h))

def laneColumns (t : ℕ → ℕ → Cell V) (k h : ℕ) : Cell V :=
  divide (t k h) (addEps x.eps (sumOver p.HCP fun k => t k h))

def laneRows (t : ℕ → ℕ → Cell V) (k h : ℕ) : Cell V :=
  divide (t k h) (addEps x.eps (sumOver p.HCP fun h => t k h))

/-- The tile after the first column normalization and `n` passes of rows and columns. -/
def tileAfter : ℕ → ℕ → ℕ → Cell V
  | 0 => laneColumns g x p (laneSoftmaxRows exp sqrt g x p b)
  | n + 1 => laneColumns g x p (laneRows g x p (tileAfter n))

def laneComb : ℕ → ℕ → Cell V := whereValid g (tileAfter exp sqrt g x p b (g.iters - 1))

/-- The pre-weighted sum of the streams at a channel. -/
def laneCollapse (c : ℕ) : V :=
  ∑ h ∈ range g.hc, (∑ l ∈ range p.HCP, if l = h then lanePre exp sqrt g x p b l else 0) *
    (if c < g.C then x.streams (b * g.hck + h * g.C + c) else 0)

/-- `_t_mhc_pre`, one task. -/
def preTask : List ((PreOut × ℕ) × Cell V) :=
  laneStores p.HCP g.hc (fun h => ((.post, b * g.hc + h), some (lanePost exp sqrt g x p b h))) ++
    tileStores p.HCP p.HCP g.hc g.hc (fun k h => ((.comb, b * g.hc * g.hc + k * g.hc + h), laneComb exp sqrt g x p b k h)) ++
    blockStores p.BLOCK g.C (fun c => ((.hIn, b * g.C + c), some (laneCollapse exp sqrt g x p b c)))

end

end

/-! ## Post-compose -/

/-- The arguments of the post-compose. -/
structure PostData (V : Type) where
  streams : ℕ → V
  bodyOut : ℕ → V
  post : ℕ → V
  comb : ℕ → V

section

variable {V : Type} [Field V] (g : Geometry) (y : PostData V)

/-- `streams_post[bb, j] = …` -/
def bodyMhcPost (bj : ℕ × ℕ) : List (ℕ × V) :=
  (List.range g.C).map fun c =>
    ((bj.1 * g.hc + bj.2) * g.C + c,
      (∑ k ∈ range g.hc, y.comb (bj.1 * (g.hc * g.hc) + (k * g.hc + bj.2)) *
        y.streams (bj.1 * (g.hc * g.C) + (k * g.C + c))) + y.post (bj.1 * g.hc + bj.2) * y.bodyOut (bj.1 * g.C + c))

variable (p : Padding g)

/-- `_t_mhc_post`, one task. -/
def postTask (task : ℕ) : List (ℕ × V) :=
  let b := task / g.hc
  let j := task % g.hc
  let ck (k : ℕ) : V := if k < g.hc then y.comb (b * g.hc * g.hc + k * g.hc + j) else 0
  blockStores p.BLOCK g.C fun c =>
    (b * g.hc * g.C + j * g.C + c,
      y.post (b * g.hc + j) * (if c < g.C then y.bodyOut (b * g.C + c) else 0) +
        ∑ k ∈ range g.hc, (∑ l ∈ range p.HCP, if l = k then ck l else 0) *
          (if c < g.C then y.streams (b * g.hc * g.C + k * g.C + c) else 0))

def postCoords : List (ℕ × ℕ) := (List.range g.B).flatMap fun b => (List.range g.hc).map fun j => (b, j)

end

end VKernels.HyperConnections
