import VKernels.Lib.AtomicAdds
import VKernels.Lib.SplitSoftmax
import VKernels.Lib.WorkerTasks

/-!
# Gathered-key attention for training

`indexed_mla_train`: queries that attend over keys of their own through a shared latent, with an additive gate.

* `backwardDq`, …, `backwardDkv` — what a program of the backward kernel stores and adds.
-/

namespace VKernels.IndexedMla

open Finset SplitSoftmax WorkerTasks AtomicAdds
open OnlineSoftmax (expFrom)
open Grouping (blocksFor)
open LaneLaunch (int32 nextPowerOf2 le_nextPowerOf2)

/-! ## Arguments -/

structure Shape where
  B : ℕ
  S : ℕ
  H : ℕ
  R : ℕ
  P : ℕ
  K : ℕ
  S_pos : 0 < S
  H_pos : 0 < H
  R_pos : 0 < R
  K_pos : 0 < K

/-- What the checks read of the tensors. -/
structure Operands where
  b : ℕ
  s : ℕ
  h : ℕ
  r : ℕ
  qr : List ℕ
  kv : List ℕ
  kr : List ℕ
  indices : List ℕ
  gate : List ℕ
  /-- Contiguous, on one device. -/
  onDevice : Bool
  /-- `q` is BF16 or FP16 and the keys are of its type. -/
  halfPrecision : Bool
  integerIndices : Bool

/-- The checks, in their order. -/
def validate (o : Operands) : Except String Shape :=
  let p := o.qr.getLastD 0
  let k := o.indices.getLastD 0
  if o.qr ≠ [o.b, o.s, o.h, p] ∨ o.kv ≠ [o.b, o.s, o.r] ∨ o.kr ≠ [o.b, o.s, p] then
    .error "inconsistent shared-latent MLA shapes"
  else if o.indices ≠ [o.b, o.s, k] ∨ o.gate ≠ o.indices then
    .error "indices and gate must have shape [B,S,K]"
  else if h : 0 < k ∧ 0 < o.s ∧ 0 < o.h ∧ 0 < o.r then
    if o.onDevice = false then
      .error "device kernels require contiguous tensors on one CUDA/ROCm device"
    else if o.halfPrecision = false then .error "device Q/K/V tensors must share BF16 or FP16 dtype"
    else if o.integerIndices = false then .error "indices must be int32 or int64"
    else .ok ⟨o.b, o.s, o.h, o.r, p, k, h.2.1, h.2.2.1, h.2.2.2, h.1⟩
  else .error "empty sequence, head, latent or selected-key dimensions"

/-- The tensors, by flat offsets. -/
structure Data (V : Type) where
  q : ℕ → V
  qr : ℕ → V
  kv : ℕ → V
  kr : ℕ → V
  indices : ℕ → ℤ
  gate : ℕ → V
  scale : V

/-- The indices are 32-bit values. -/
def Data.Fits {V : Type} (x : Data V) : Prop := ∀ o, -2 ^ 31 ≤ x.indices o ∧ x.indices o < 2 ^ 31

namespace Data

variable {V : Type} (x : Data V) (o : ℕ) (t : V)

/-! The tensors with one element replaced. -/

def setQ : Data V := { x with q := Function.update x.q o t }

def setQr : Data V := { x with qr := Function.update x.qr o t }

def setKv : Data V := { x with kv := Function.update x.kv o t }

def setKr : Data V := { x with kr := Function.update x.kr o t }

def setGate : Data V := { x with gate := Function.update x.gate o t }

@[simp] lemma setQ_self : x.setQ o (x.q o) = x := by
  simp [setQ]

@[simp] lemma setQr_self : x.setQr o (x.qr o) = x := by
  simp [setQr]

@[simp] lemma setKv_self : x.setKv o (x.kv o) = x := by
  simp [setKv]

@[simp] lemma setKr_self : x.setKr o (x.kr o) = x := by
  simp [setKr]

@[simp] lemma setGate_self : x.setGate o (x.gate o) = x := by
  simp [setGate]

end Data

namespace Shape

variable (s : Shape)

/-- A row of queries of one head. -/
def row (i : ℕ × ℕ × ℕ) : ℕ := (i.1 * s.S + i.2.1) * s.H + i.2.2

/-- A query latent, by batch, position and head. -/
def qOff (i : ℕ × ℕ × ℕ) (r : ℕ) : ℕ := s.row i * s.R + r

def qrOff (i : ℕ × ℕ × ℕ) (p : ℕ) : ℕ := s.row i * s.P + p

def kvOff (b t r : ℕ) : ℕ := (b * s.S + t) * s.R + r

def krOff (b t p : ℕ) : ℕ := (b * s.S + t) * s.P + p

def ixOff (b q j : ℕ) : ℕ := (b * s.S + q) * s.K + j

/-- Batches, positions and heads. -/
def queries : Finset (ℕ × ℕ × ℕ) := range s.B ×ˢ range s.S ×ˢ range s.H

end Shape

/-! ## Reference -/

section

variable {V : Type} [Field V]

section

variable [LinearOrder V] (exp : V → V) (s : Shape) (x : Data V) (i : ℕ × ℕ × ℕ)

/-- The index of column `j` for the query's row. -/
def index (j : ℕ) : ℤ := x.indices (s.ixOff i.1 i.2.1 j)

def ValidIndex (j : ℕ) : Prop := 0 ≤ index s x i j ∧ index s x i j < s.S

instance (j : ℕ) : Decidable (ValidIndex s x i j) := inferInstanceAs (Decidable (_ ∧ _))

/-- `indices.clamp(0, k.shape[1] - 1)`. -/
def safe (j : ℕ) : ℕ := (max 0 (min (index s x i j) (s.S - 1 : ℤ))).toNat

def score (j : ℕ) : V :=
  ((∑ r ∈ range s.R, x.q (s.qOff i r) * x.kv (s.kvOff i.1 (safe s x i j) r)) +
      ∑ p ∈ range s.P, x.qr (s.qrOff i p) * x.kr (s.krOff i.1 (safe s x i j) p)) * x.scale +
    x.gate (s.ixOff i.1 i.2.1 j)

/-- The scores, minus infinity at invalid keys. -/
def maskedScore (j : ℕ) : Option V := if ValidIndex s x i j then some (score s x i j) else none

def Nonempty : Prop := ∃ j ∈ List.range s.K, ValidIndex s x i j

instance : Decidable (Nonempty s x i) := inferInstanceAs (Decidable (∃ j ∈ List.range s.K, _))

/-- `torch.softmax` over `n` scores. -/
def softmax (n : ℕ) (f : ℕ → Option V) (j : ℕ) : V :=
  let m := (maxOver n f).getD 0
  expFrom exp (f j) m / ∑ j ∈ range n, expFrom exp (f j) m

def prob (j : ℕ) : V :=
  if ValidIndex s x i j then
    softmax exp s.K (fun j => if Nonempty s x i then maskedScore s x i j else some 0) j
  else 0

/-- `indexed_mla_reference`, an element of the output. -/
def reference (r : ℕ) : V := ∑ j ∈ range s.K, prob exp s x i j * x.kv (s.kvOff i.1 (safe s x i j) r)

/-- `(do * output).sum()`. -/
def loss (dO : ℕ → V) : V := ∑ i ∈ s.queries, ∑ r ∈ range s.R, dO (s.qOff i r) * reference exp s x i r

end

/-! ## Kernels -/

/-- The padded widths of heads, latent and ranks, and the keys of a block. -/
structure Lanes (s : Shape) where
  BH : ℕ
  BR : ℕ
  BP : ℕ
  BN : ℕ
  H_le : s.H ≤ BH
  R_le : s.R ≤ BR
  P_le : s.P ≤ BP
  BN_pos : 0 < BN

lemma le_paddedRanks (p : ℕ) : p ≤ max 16 (nextPowerOf2 (max p 1)) :=
  (le_max_left p 1).trans ((le_nextPowerOf2 _).trans (le_max_right _ _))

lemma sixteen_pos : 0 < 16 := by decide

/-- `_launch_args`. -/
def launchArgs (s : Shape) : Lanes s :=
  ⟨max 16 (nextPowerOf2 s.H), nextPowerOf2 s.R, max 16 (nextPowerOf2 (max s.P 1)), 16,
    (le_nextPowerOf2 s.H).trans (le_max_right _ _), le_nextPowerOf2 s.R, le_paddedRanks s.P, sixteen_pos⟩

section

variable (s : Shape) (x : Data V) (b q : ℕ)

/-- A masked load of a row of queries or of their gradients. -/
def laneRow (f : ℕ → V) (h r : ℕ) : V := if h < s.H ∧ r < s.R then f (s.qOff (b, q, h) r) else 0

def laneQr (h p : ℕ) : V := if h < s.H ∧ p < s.P then x.qr (s.qrOff (b, q, h) p) else 0

/-- `key`, read as 32 bits, and -1 past the last column. -/
def laneKey (col : ℕ) : ℤ := if col < s.K then int32 (x.indices (s.ixOff b q col)) else -1

def LaneValid (col : ℕ) : Prop := col < s.K ∧ 0 ≤ laneKey s x b q col ∧ laneKey s x b q col < s.S

instance (col : ℕ) : Decidable (LaneValid s x b q col) := inferInstanceAs (Decidable (_ ∧ _))

def laneKv (col r : ℕ) : V :=
  if LaneValid s x b q col ∧ r < s.R then x.kv (s.kvOff b (laneKey s x b q col).toNat r) else 0

def laneKr (col p : ℕ) : V :=
  if LaneValid s x b q col ∧ p < s.P then x.kr (s.krOff b (laneKey s x b q col).toNat p) else 0

def laneBias (col : ℕ) : V := if col < s.K then x.gate (s.ixOff b q col) else 0

variable (w : Lanes s)

/-- The two products of `score`. -/
def laneDot (h col : ℕ) : V :=
  (∑ r ∈ range w.BR, laneRow s b q x.q h r * laneKv s x b q col r) +
    if 0 < s.P then ∑ p ∈ range w.BP, laneQr s x b q h p * laneKr s x b q col p else 0

/-- `score * SCALE + bias`. -/
def laneScaled (h col : ℕ) : V := laneDot s x b q w h col * x.scale + laneBias s x b q col

end

section

variable [LinearOrder V] (exp log : V → V) (s : Shape) (x : Data V) (w : Lanes s) (b q : ℕ)

/-- The score of a lane, minus infinity at invalid keys and padded heads. -/
def laneScore (h col : ℕ) : Option V :=
  if LaneValid s x b q col ∧ h < s.H then some (laneScaled s x b q w h col) else none

/-- A block of keys from `start` on, on head lane `h`. -/
def blockStep (h : ℕ) (g : Gathered ℕ V) (start : ℕ) : Gathered ℕ V :=
  let newM := maximum g.max (maxOver w.BN fun n => laneScore s x w b q h (start + n))
  let safeM := newM.getD 0
  let correction := expFrom exp g.max safeM
  let probs (n : ℕ) : V := expFrom exp (laneScore s x w b q h (start + n)) safeM
  { max := newM
    denom := g.denom * correction + ∑ n ∈ range w.BN, probs n
    acc := fun r => g.acc r * correction + ∑ n ∈ range w.BN, probs n * laneKv s x b q (start + n) r }

/-- The loop over the blocks. -/
def gather (h : ℕ) : Gathered ℕ V :=
  (List.range (blocksFor w.BN s.K)).foldl (fun g t => blockStep exp s x w b q h g (t * w.BN)) Gathered.start

/-- `acc / tl.where(total > 0, total, 1.0)`. -/
def laneResult (h r : ℕ) : V :=
  let g := gather exp s x w b q h
  g.acc r / (if 0 < g.denom then g.denom else 1)

/-- `m + tl.log(total)`; minus infinity over no key. -/
def laneLse (h : ℕ) : Option V :=
  let g := gather exp s x w b q h
  g.max.map fun m => m + log g.denom

/-- The stores of a program to `O`, and to `O32`. -/
def forwardO : List (ℕ × V) :=
  tileStores w.BH w.BR s.H s.R fun h r => (s.qOff (b, q, h) r, laneResult exp s x w b q h r)

/-- The stores to `LSE`. -/
def forwardLse : List (ℕ × Option V) :=
  laneStores w.BH s.H fun h => (s.row (b, q, h), laneLse exp log s x w b q h)

end

section

variable [LinearOrder V] (exp : V → V) (s : Shape) (x : Data V) (w : Lanes s) (dO out : ℕ → V) (lse : ℕ → Option V)
  (b q : ℕ)

def laneDelta (h : ℕ) : V := ∑ r ∈ range w.BR, laneRow s b q out h r * laneRow s b q dO h r

/-- A masked load of `LSE`. -/
def loadLse (h : ℕ) : Option V := if h < s.H then lse (s.row (b, q, h)) else none

/-- `tl.exp(score - lse)`.  Under minus infinity it is infinite, which only masked lanes see. -/
def expUnder (y : V) : Option V → V
  | some l => exp (y - l)
  | none => 0

def laneProb (h col : ℕ) : V :=
  if LaneValid s x b q col ∧ h < s.H then expUnder exp (laneScaled s x b q w h col) (loadLse s lse b q h) else 0

def laneDs (h col : ℕ) : V :=
  laneProb exp s x w lse b q h col *
    ((∑ r ∈ range w.BR, laneRow s b q dO h r * laneKv s x b q col r) - laneDelta s w dO out b q h)

/-- A sum over the blocks of keys. -/
def overBlocks (f : ℕ → V) : V :=
  ∑ t ∈ range (blocksFor w.BN s.K), ∑ n ∈ range w.BN, f (t * w.BN + n)

def laneDq (h r : ℕ) : V :=
  ∑ t ∈ range (blocksFor w.BN s.K),
    (∑ n ∈ range w.BN, laneDs exp s x w dO out lse b q h (t * w.BN + n) * laneKv s x b q (t * w.BN + n) r) * x.scale

def laneDqr (h p : ℕ) : V :=
  ∑ t ∈ range (blocksFor w.BN s.K),
    (∑ n ∈ range w.BN, laneDs exp s x w dO out lse b q h (t * w.BN + n) * laneKr s x b q (t * w.BN + n) p) * x.scale

/-- `dkv` of a key lane. -/
def laneDkv (col r : ℕ) : V :=
  (∑ h ∈ range w.BH, laneDs exp s x w dO out lse b q h col * laneRow s b q x.q h r) * x.scale +
    ∑ h ∈ range w.BH, laneProb exp s x w lse b q h col * laneRow s b q dO h r

def laneDkr (col p : ℕ) : V :=
  (∑ h ∈ range w.BH, laneDs exp s x w dO out lse b q h col * laneQr s x b q h p) * x.scale

def backwardDq : List (ℕ × V) :=
  tileStores w.BH w.BR s.H s.R fun h r => (s.qOff (b, q, h) r, laneDq exp s x w dO out lse b q h r)

/-- Stored only where there are ranks. -/
def backwardDqr : List (ℕ × V) :=
  if 0 < s.P then
    tileStores w.BH w.BP s.H s.P fun h p => (s.qrOff (b, q, h) p, laneDqr exp s x w dO out lse b q h p)
  else []

def backwardDg : List (ℕ × V) :=
  blockStores w.BN s.K fun col => (s.ixOff b q col, ∑ h ∈ range w.BH, laneDs exp s x w dO out lse b q h col)

/-- `(row % SPLITS) * B * S`. -/
def gradBase (splits : ℕ) : ℕ := q % splits * s.B * s.S

/-- The atomic additions of a program to `DKV`. -/
def backwardDkv (splits : ℕ) : List (ℕ × V) :=
  (List.range (blocksFor w.BN s.K)).flatMap fun t => (List.range w.BN).flatMap fun n => (List.range w.BR).flatMap fun r =>
    addIf (LaneValid s x b q (t * w.BN + n) ∧ r < s.R)
      (gradBase s q splits * s.R + s.kvOff b (laneKey s x b q (t * w.BN + n)).toNat r)
      (laneDkv exp s x w dO out lse b q (t * w.BN + n) r)

def backwardDkr (splits : ℕ) : List (ℕ × V) :=
  if 0 < s.P then
    (List.range (blocksFor w.BN s.K)).flatMap fun t => (List.range w.BN).flatMap fun n =>
      (List.range w.BP).flatMap fun p =>
        addIf (LaneValid s x b q (t * w.BN + n) ∧ p < s.P)
          (gradBase s q splits * s.P + s.krOff b (laneKey s x b q (t * w.BN + n)).toNat p)
          (laneDkr exp s x w dO out lse b q (t * w.BN + n) p)
  else []

end

end

/-! ## Calls -/

section

variable {V T : Type} [Field V] [LinearOrder V] (exp log : V → V) (s : Shape) (x : Data V) (w : Lanes s)

def programs (f : ℕ → ℕ → List T) : List T :=
  (List.range s.B).flatMap fun b => (List.range s.S).flatMap fun q => f b q

/-- What `indexed_mla_forward` returns. -/
structure Forward (V : Type) where
  out : ℕ → V
  out32 : ℕ → V
  lse : ℕ → Option V

/-- Returned over the contents of fresh buffers, the stores in any order. -/
structure Forward.Returned (fresh f : Forward V) : Prop where
  out : AnyOrder (programs s (forwardO exp s x w)) fresh.out f.out
  out32 : AnyOrder (programs s (forwardO exp s x w)) fresh.out32 f.out32
  lse : AnyOrder (programs s (forwardLse exp log s x w)) fresh.lse f.lse

/-- The gradient buffers, those of the keys split. -/
structure Gradients (V : Type) where
  dq : ℕ → V
  dqr : ℕ → V
  dkv : ℕ → V
  dkr : ℕ → V
  dg : ℕ → V

/-- After the launch of the backward kernel, over fresh buffers of which those of the keys are zero. -/
structure Gradients.Launched (dO : ℕ → V) (f : Forward V) (splits : ℕ) (fresh g : Gradients V) : Prop where
  dq : AnyOrder (programs s (backwardDq exp s x w dO f.out32 f.lse)) fresh.dq g.dq
  dqr : AnyOrder (programs s (backwardDqr exp s x w dO f.out32 f.lse)) fresh.dqr g.dqr
  dkv : AddedInAnyOrder (programs s fun b q => backwardDkv exp s x w dO f.out32 f.lse b q splits) (fun _ => 0) g.dkv
  dkr : AddedInAnyOrder (programs s fun b q => backwardDkr exp s x w dO f.out32 f.lse b q splits) (fun _ => 0) g.dkr
  dg : AnyOrder (programs s (backwardDg exp s x w dO f.out32 f.lse)) fresh.dg g.dg

/-- `dkv.sum(0)`, or `dkv[0]` with one split; the shape of a split is flat. -/
def sumSplits (splits size : ℕ) (d : ℕ → V) (o : ℕ) : V :=
  if 1 < splits then ∑ k ∈ range splits, d (k * size + o) else d o

end

end VKernels.IndexedMla
