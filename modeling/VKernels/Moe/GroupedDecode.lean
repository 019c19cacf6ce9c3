import VKernels.Lib.Float8
import VKernels.Lib.LaneLaunch

/-!
# The grouped MoE decode

`torch_ops/glm_moe_grouped.py`: two launches in place of `expert_gemv`, `swiglu_limit`, `expert_gemv` and
`moe_weighted_sum`.  Sums are exact; every BF16 rounding stands where the kernels round.  Offsets are in 32 bits where
the kernels compute them so, and an access that leaves its tensor has no result.

* `Tensor`, `Call`, `Host` — the tensors of a call, and what the device does with launches.
* `moeGroupedDecodeEligible`, `moeGroupedDecode` — the check and the two launches, with FP8 or BF16-resident stacks.
* `expertGemv`, `swigluLimit`, `moeWeightedSum`, `ladder` — the four launches they stand for.
* `RowLanes`, `Owns` — the loads of a dot product, and that they are elements of its own row.
-/

namespace VKernels.GroupedDecode

open Float8 Grouping LaneLaunch

variable {α V : Type}

/-! ## Tensors -/

inductive Storage where
  | e4m3fn
  | e4m3fnuz
  deriving DecidableEq

inductive Dtype where
  | bfloat16
  | float16
  | float32
  | float8E4m3fn
  | float8E4m3fnuz
  | int64
  | other
  deriving DecidableEq

inductive Device where
  | cpu
  | cuda (index : ℕ)
  deriving DecidableEq

/-- A tensor with its elements, row by row. -/
structure Tensor (α : Type) where
  shape : List ℕ
  dtype : Dtype
  device : Device
  contiguous : Bool
  data : ℕ → α

namespace Tensor

variable (t : Tensor α)

def isCuda : Bool := t.device != .cpu

def dim (n : ℕ) : ℕ := t.shape.getD n 0

def buffer : Buffer α := ⟨t.shape.prod, t.data⟩

end Tensor

/-- `torch.empty` of BF16, after a launch. -/
def emptyLike (shape : List ℕ) (device : Device) (data : ℕ → V) : Tensor V := ⟨shape, .bfloat16, device, true, data⟩

/-! ## Bytes -/

def Storage.dtype : Storage → Dtype
  | .e4m3fn => .float8E4m3fn
  | .e4m3fnuz => .float8E4m3fnuz

/-- The value that the format gives a byte. -/
def Storage.value : Storage → ℕ → Option ℚ
  | .e4m3fn => Float8.e4m3fn
  | .e4m3fnuz => Float8.e4m3fnuz

/-- `bits` from the fields, before the sign. -/
def manual (bias : ℕ) (subnormal : ℚ) (raw : ℕ) : ℚ :=
  if exponent raw = 0 then mantissa raw * subnormal
  else float32 (((exponent raw + bias) <<< 23) ||| (mantissa raw <<< 20))

/-- `(raw & 128) << 24` or-ed to the bits of a value. -/
def withSign (raw : ℕ) (v : ℚ) : ℚ := if raw &&& 128 = 0 then v else -|v|

inductive Decode where
  /-- A bitcast to `float8e4nv`. -/
  | nv
  | manualFn
  | manualFnuz
  /-- `FNUZ_NATIVE`: a bitcast to `float8e4b8`. -/
  | fnuzNative
  /-- `FN_NATIVE`: the same for FN bytes, doubled. -/
  | fnNative

namespace Decode

def storage : Decode → Storage
  | nv | manualFn | fnNative => .e4m3fn
  | manualFnuz | fnuzNative => .e4m3fnuz

def value : Decode → ℕ → Option ℚ
  | nv, raw => e4m3fn raw
  | manualFn, raw => if raw &&& 127 = 127 then none else some (withSign raw (manual 120 0.001953125 raw))
  | manualFnuz, raw => if raw = 128 then none else some (withSign raw (manual 119 0.0009765625 raw))
  | fnuzNative, raw => (e4m3fnuz raw).map (withSign raw)
  | fnNative, raw =>
    let compatible := if raw = 128 then 0 else raw
    if raw &&& 127 = 127 then none else (e4m3fnuz compatible).map fun v => withSign raw (v * 2)

end Decode

/-- `_decode_w8`. -/
def decodeW8 : Storage → Decode
  | .e4m3fn => .nv
  | .e4m3fnuz => .manualFnuz

/-! ## Arithmetic -/

/-- The operations of the kernels beside exact sums and products. -/
structure Floats (V : Type) [AddCommMonoid V] [Mul V] where
  /-- A decoded byte, `none` for NaN. -/
  ofFp8 : Option ℚ → V
  bf16 : V → V
  one : V
  neg : V → V
  div : V → V → V
  exp : V → V
  minimum : V → V → V
  maximum : V → V → V
  /-- The weight of a lane that is masked off. -/
  masked : bf16 (ofFp8 (some 0) * 0) = 0

structure Host (V : Type) where
  hip : Bool
  /-- The implementation of `expert_gemv` that is selected for a storage. -/
  decoder : Storage → Decode
  decoder_storage : ∀ storage, (decoder storage).storage = storage
  compactScales : Bool
  /-- Launches that compile and start: the grid, and the rows and columns of a program. -/
  accepts : ℕ → ℕ → ℕ → ℕ → Bool
  /-- The contents of the `n`th `torch.empty`. -/
  fresh : ℕ → ℕ → V
  arrange : List (ℕ × V) → List (ℕ × V)
  arrange_perm : ∀ stores, (arrange stores).Perm stores

/-- `_default_cfg()["rows1"]`. -/
def Host.rows1 (host : Host V) : ℕ := if host.hip then 2 else 4

/-- `_default_cfg()["rows2"]`, and the rows of `expert_gemv`. -/
def rows2 : ℕ := 4

/-- The arguments of `moe_grouped_decode`; `storage` is `none` for any other name. -/
structure Call (V : Type) where
  x : Tensor V
  gateUpW : Tensor UInt8
  gateUpS : Tensor V
  downW : Tensor UInt8
  downS : Tensor V
  topKIndex : Tensor ℤ
  topKWeights : Tensor V
  swigluLimit : V
  tCap : ℤ
  storage : Option Storage
  w16GateUp : Option (Tensor V)
  w16Down : Option (Tensor V)

/-! ## Dot products -/

structure RowLanes where
  cols : ℕ
  weight : ℕ → Lane
  scale : ℕ → Lane
  input : ℕ → Lane

/-- A weight stack: bytes with block scales, or resident BF16. -/
inductive Stack (V : Type) where
  | fp8 (bytes : Buffer UInt8) (scales : Buffer V) (decode : Decode)
  | bf16 (w : Buffer V)

section

variable [AddCommMonoid V] [Mul V] (fl : Floats V)

def Stack.weight (s : Stack V) (l : RowLanes) (c : ℕ) : Option V :=
  match s with
  | .fp8 bytes scales decode => do
    let raw ← bytes.load (l.weight c) 0
    let scale ← scales.load (l.scale c) 0
    return fl.bf16 (fl.ofFp8 (decode.value raw.toNat) * scale)
  | .bf16 w => w.load (l.weight c) 0

def dot (s : Stack V) (x : Buffer V) (l : RowLanes) : Option V :=
  sumOver l.cols fun c => do
    let weight ← s.weight fl l c
    let x ← x.load (l.input c) 0
    return weight * x

/-- `swiglu_limit` of two stored values, stored. -/
def swiglu (limit gate up : V) : V :=
  let g := fl.bf16 (fl.minimum gate limit)
  let u := fl.bf16 (fl.minimum (fl.maximum up (fl.neg limit)) limit)
  let act := fl.bf16 (fl.div g (fl.one + fl.exp (fl.neg g)))
  fl.bf16 (act * u)

/-! ## The two launches -/

/-- The loads for row `panel` of a `[2 * IA, I]` panel; the masks are those of `row`. -/
def panelLanes (ia i k cols : ℕ) (expert : ℤ) (selected : ℕ) (row panel : ℤ) : RowLanes where
  cols := cols
  weight c := ⟨expert * (2 * ia * i) + int32 (panel * i) + c, decide (row < ia) && decide (c < i)⟩
  scale c := ⟨(expert * (2 * ia / 128 : ℕ) + panel / 128) * (i / 128 : ℕ) + (c / 128 : ℕ),
    decide (row < ia) && decide (c / 128 < i / 128)⟩
  input c := ⟨int32 ((selected / k : ℕ) * i) + c, decide (c < i)⟩

def gateLanes (ia i k cols : ℕ) (expert : ℤ) (selected : ℕ) (row : ℤ) : RowLanes :=
  panelLanes ia i k cols expert selected row row

def upLanes (ia i k cols : ℕ) (expert : ℤ) (selected : ℕ) (row : ℤ) : RowLanes :=
  panelLanes ia i k cols expert selected row (int32 (row + ia))

/-- One row of `_moe_gate_up` or `_gate_up16`. -/
def gateUpRow (s : Stack V) (x : Buffer V) (idx : Buffer ℤ) (limit : V) (ia i k cols : ℕ) (selected : ℕ) (row : ℤ) :
    Option (Lane × V) := do
  let expert ← idx.load ⟨selected, true⟩ 0
  let gate ← dot fl s x (gateLanes ia i k cols expert selected row)
  let up ← dot fl s x (upLanes ia i k cols expert selected row)
  return (⟨int32 (selected * ia) + row, decide (row < ia)⟩, swiglu fl limit (fl.bf16 gate) (fl.bf16 up))

/-- The loads of `_moe_down` and `_down16` for slot `j` of a token.  The weight loads have no column mask. -/
def downLanes (ia h k cols : ℕ) (expert : ℤ) (token j : ℕ) (row : ℤ) : RowLanes where
  cols := cols
  weight c := ⟨expert * (h * ia) + int32 (row * ia) + c, decide (row < h)⟩
  scale c := ⟨(expert * (h / 128 : ℕ) + row / 128) * (ia / 128 : ℕ) + (c / 128 : ℕ),
    decide (row < h) && decide (c / 128 < ia / 128)⟩
  input c := ⟨int32 (int32 (token * k) * ia) + int32 (j * ia) + c, decide (c < ia)⟩

/-- One row of `_moe_down` or `_down16`. -/
def downRow (s : Stack V) (act : Buffer V) (idx : Buffer ℤ) (wts : Buffer V) (combineBf16 : Bool) (ia h k cols : ℕ)
    (token : ℕ) (row : ℤ) : Option (Lane × V) := do
  let acc ← (List.range k).foldlM (fun acc (j : ℕ) => do
    let expert ← idx.load ⟨int32 (token * k) + j, true⟩ 0
    let dot ← dot fl s act (downLanes ia h k cols expert token j row)
    let w ← wts.load ⟨int32 (token * k) + j, true⟩ 0
    let v := fl.bf16 dot
    return if combineBf16 then acc + fl.bf16 (fl.bf16 w * v) else acc + w * v) 0
  return (⟨int32 (token * h) + row, decide (row < h)⟩, fl.bf16 acc)

end

def Call.contiguous (c : Call V) : Bool :=
  c.x.contiguous && c.gateUpW.contiguous && c.gateUpS.contiguous && c.downW.contiguous && c.downS.contiguous &&
    c.topKIndex.contiguous && c.topKWeights.contiguous

def Call.oneDevice (c : Call V) : Bool :=
  [c.gateUpW.device, c.gateUpS.device, c.downW.device, c.downS.device, c.topKIndex.device, c.topKWeights.device].all
    (· == c.x.device)

/-- `none` where the check itself raises. -/
def moeGroupedDecodeEligible (c : Call V) : Option Bool :=
  match c.storage, c.gateUpW.shape, c.topKIndex.shape with
  | none, _, _ => some false
  | some storage, e :: o :: i :: _, [t, k] =>
    let ia := o / 2
    if c.x.isCuda && c.x.shape.length == 2 && c.x.dtype == .bfloat16 && c.x.shape == [t, i] &&
        c.gateUpW.dtype == storage.dtype && c.downW.dtype == storage.dtype && c.gateUpS.dtype == .float32 &&
        c.downS.dtype == .float32 && c.topKIndex.dtype == .int64 && c.topKWeights.dtype == .float32 &&
        c.gateUpS.shape == [e, o / 128, i / 128] then
      match c.downW.shape with
      | _ :: h :: w :: _ => some (c.downS.shape == [e, h / 128, w / 128] && c.downW.shape == [e, c.x.dim 1, ia] &&
          decide (0 < ia) && ia % 128 == 0 && i % 128 == 0 && h % 128 == 0 && decide ((t : ℤ) ≤ c.tCap) &&
          decide (0 < t) && decide (0 < k) && c.contiguous && c.oneDevice)
      | _ => none
    else some false
  | some _, _, _ => none

/-- The stacks of the two launches: the BF16-resident pair where it serves. -/
def Call.stacks (c : Call V) (storage : Storage) : Stack V × Stack V :=
  match c.w16GateUp, c.w16Down with
  | some gateUp, some down =>
    if gateUp.dtype == .bfloat16 && down.dtype == .bfloat16 && gateUp.contiguous && down.contiguous &&
        gateUp.shape == c.gateUpW.shape && down.shape == c.downW.shape && gateUp.device == c.x.device then
      (.bf16 gateUp.buffer, .bf16 down.buffer)
    else (.fp8 c.gateUpW.buffer c.gateUpS.buffer (decodeW8 storage), .fp8 c.downW.buffer c.downS.buffer (decodeW8 storage))
  | _, _ => (.fp8 c.gateUpW.buffer c.gateUpS.buffer (decodeW8 storage), .fp8 c.downW.buffer c.downS.buffer (decodeW8 storage))

section

variable [AddCommMonoid V] [Mul V] (fl : Floats V) (host : Host V)

/-- A launch of `programs` by `cdiv(n, lanes)` programs, if the device takes it. -/
def Host.launch (alloc programs n lanes cols : ℕ) (task : ℕ → ℤ → Option (Lane × V)) : Option (Buffer V) :=
  if host.accepts programs (blocksFor lanes n) lanes cols then
    LaneLaunch.launch (programs * n) (host.fresh alloc) host.arrange (grid programs (blocksFor lanes n) lanes task)
  else none

def moeGroupedDecode (c : Call V) (combineBf16 : Bool := false) : Option (Buffer V) := do
  let eligible ← moeGroupedDecodeEligible c
  let storage ← c.storage
  match eligible, c.gateUpW.shape, c.topKIndex.shape with
  | true, [_, o, i], [t, k] =>
    let ia := o / 2
    let h := c.downW.dim 1
    let act ← host.launch 0 (t * k) ia host.rows1 (nextPowerOf2 i)
      (gateUpRow fl (c.stacks storage).1 c.x.buffer c.topKIndex.buffer c.swigluLimit ia i k (nextPowerOf2 i))
    host.launch 1 t h rows2 (nextPowerOf2 ia)
      (downRow fl (c.stacks storage).2 act c.topKIndex.buffer c.topKWeights.buffer combineBf16 ia h k (nextPowerOf2 ia))
  | _, _, _ => none

/-! ## The ladder -/

/-- The loads of `_expert_gemv` and `_expert_gemv_native`. -/
def gemvLanes (o i k cols : ℕ) (broadcast compact : Bool) (expert : ℤ) (selected : ℕ) (row : ℤ) : RowLanes where
  cols := cols
  weight c := ⟨expert * (o * i) + int32 (row * i) + c, decide (row < o) && decide (c < i)⟩
  scale c := ⟨(expert * (o / 128 : ℕ) + row / 128) * (i / 128 : ℕ) + (c / 128 : ℕ),
    decide (row < o) && if compact then decide (c / 128 < i / 128) else decide (c < i)⟩
  input c := ⟨int32 (((if broadcast then selected / k else selected : ℕ) : ℤ) * i) + c, decide (c < i)⟩

def gemvRow (s : Stack V) (x : Buffer V) (idx : Buffer ℤ) (o i k cols : ℕ) (broadcast compact : Bool) (selected : ℕ)
    (row : ℤ) : Option (Lane × V) := do
  let expert ← idx.load ⟨selected, true⟩ 0
  let result ← dot fl s x (gemvLanes o i k cols broadcast compact expert selected row)
  return (⟨int32 (selected * o) + row, decide (row < o)⟩, fl.bf16 result)

/-- The contract of `expert_gemv`. -/
def expertGemvContract (x : Tensor V) (weights : Tensor UInt8) (scales : Tensor V) (indices : Tensor ℤ)
    (storage : Storage) (tCap : ℤ) : Bool :=
  match weights.shape, indices.shape with
  | [e, o, i], [t, k] =>
    decide (0 < e) && decide (0 < o) && decide (0 < i) && o % 128 == 0 && i % 128 == 0 &&
      decide ((t : ℤ) ≤ max 2 tCap) && (x.shape == [t, i] || x.shape == [t, k, i]) &&
      scales.shape == [e, o / 128, i / 128] && x.dtype == .bfloat16 && weights.dtype == storage.dtype &&
      scales.dtype == .float32 && indices.dtype == .int64 && x.isCuda && scales.isCuda && indices.isCuda &&
      [x.device, scales.device, indices.device].all (· == weights.device) &&
      x.contiguous && weights.contiguous && scales.contiguous && indices.contiguous
  | _, _ => false

def expertGemv (alloc : ℕ) (x : Tensor V) (weights : Tensor UInt8) (scales : Tensor V) (indices : Tensor ℤ)
    (storage : Storage) (tCap : ℤ) : Option (Tensor V) :=
  if expertGemvContract x weights scales indices storage tCap then
    let o := weights.dim 1
    let i := weights.dim 2
    let t := indices.dim 0
    let k := indices.dim 1
    if t = 0 ∨ k = 0 then some (emptyLike [t, k, o] x.device (host.fresh alloc))
    else (host.launch alloc (t * k) o rows2 (nextPowerOf2 i)
      (gemvRow fl (.fp8 weights.buffer scales.buffer (host.decoder storage)) x.buffer indices.buffer o i k
        (nextPowerOf2 i) (x.shape.length == 2) host.compactScales)).map fun y => emptyLike [t, k, o] x.device y.get
  else none

/-- The columns of a program of `_swiglu_limit`. -/
def swigluBlock : ℕ := 256

/-- One element of `_swiglu_limit`: `gu` has rows of `o`, the upper part from column `d` on. -/
def swigluRow (gu : Buffer V) (limit : V) (o d : ℕ) (p : ℕ) (col : ℤ) : Option (Lane × V) := do
  let g ← gu.load ⟨int32 (p * o) + col, decide (col < d)⟩ 0
  let u ← gu.load ⟨d + int32 (p * o) + col, decide (col < d)⟩ 0
  return (⟨int32 (p * d) + col, decide (col < d)⟩, swiglu fl limit g u)

/-- `swiglu_limit(gu[..., :d], gu[..., d:], limit)`. -/
def swigluLimit (alloc : ℕ) (gu : Tensor V) (d : ℕ) (limit : V) : Option (Tensor V) :=
  if gu.isCuda && gu.dtype == .bfloat16 && gu.dim 2 - d == d then
    (host.launch alloc (gu.dim 0 * gu.dim 1) d swigluBlock 1 (swigluRow fl gu.buffer limit (gu.dim 2) d)).map
      fun y => emptyLike [gu.dim 0, gu.dim 1, d] gu.device y.get
  else none

def moeWeightedSumEligible (out weights : Tensor V) : Bool :=
  out.isCuda && weights.device == out.device && out.shape.length == 3 && weights.shape.length == 2 &&
    weights.dim 0 == out.dim 0 && weights.dim 1 == out.dim 1 &&
    (out.dtype == .bfloat16 || out.dtype == .float16 || out.dtype == .float32) && weights.dtype == .float32 &&
    decide (0 < out.dim 2)

/-- One element of `_weighted_moe_sum_reduce_kernel`; its offsets are in 64 bits. -/
def weightedSumRow (out wts : Buffer V) (k h : ℕ) (token : ℕ) (col : ℤ) : Option (Lane × V) := do
  let acc ← (List.range k).foldlM (fun acc (j : ℕ) => do
    let w ← wts.load ⟨token * k + j, true⟩ 0
    let tile ← out.load ⟨token * (k * h) + j * h + col, decide (col < h)⟩ 0
    return acc + w * tile) 0
  return (⟨token * h + col, decide (col < h)⟩, fl.bf16 acc)

def weightedSumBlock : ℕ := 4096

def moeWeightedSum (alloc : ℕ) (out weights : Tensor V) : Option (Tensor V) :=
  if moeWeightedSumEligible out weights then
    let h := out.dim 2
    let blockDim := min (nextPowerOf2 h) weightedSumBlock
    (host.launch alloc (out.dim 0) h blockDim 1 (weightedSumRow fl out.buffer weights.buffer (out.dim 1) h)).map
      fun y => emptyLike [out.dim 0, h] out.device y.get
  else none

def ladder (c : Call V) : Option (Tensor V) := do
  let storage ← c.storage
  let gu ← expertGemv fl host 2 c.x c.gateUpW c.gateUpS c.topKIndex storage c.tCap
  let act ← swigluLimit fl host 3 gu (c.gateUpW.dim 1 / 2) c.swigluLimit
  let out ← expertGemv fl host 4 act c.downW c.downS c.topKIndex storage c.tCap
  moeWeightedSum fl host 5 out c.topKWeights

/-! ## The promise -/

/-- The loads are elements of the rows named: row `w` of the stack, `s` of the scales, `x` of the input. -/
def RowLanes.Owns (l : RowLanes) (scaled : Bool) (w s x : ℤ) (n : ℕ) : Prop :=
  ∀ c < l.cols, (l.weight c).Within (w * n) n ∧ (scaled = true → (l.scale c).Within (s * (n / 128 : ℕ)) (n / 128)) ∧
    (l.input c).Within (x * n) n

def Stack.scaled : Stack V → Bool
  | .fp8 _ _ _ => true
  | .bf16 _ => false

namespace Call

variable (c : Call V)

def t : ℕ := c.topKIndex.dim 0

def k : ℕ := c.topKIndex.dim 1

def e : ℕ := c.gateUpW.dim 0

def o : ℕ := c.gateUpW.dim 1

def i : ℕ := c.gateUpW.dim 2

def ia : ℕ := c.o / 2

def h : ℕ := c.downW.dim 1

/-- "Valid expert IDs are required." -/
def ValidIds : Prop := ∀ s < c.t * c.k, 0 ≤ c.topKIndex.data s ∧ c.topKIndex.data s < c.e

end Call

/-- The BF16 stack is "the value the fp8 path computes per element". -/
def TwinOf (storage : Storage) (bytes : Tensor UInt8) (scales w16 : Tensor V) : Prop :=
  ∀ expert < bytes.dim 0, ∀ row < bytes.dim 1, ∀ col < bytes.dim 2,
    w16.data ((expert * bytes.dim 1 + row) * bytes.dim 2 + col) =
      fl.bf16 (fl.ofFp8 (storage.value (bytes.data ((expert * bytes.dim 1 + row) * bytes.dim 2 + col)).toNat) *
        scales.data ((expert * (bytes.dim 1 / 128) + row / 128) * (bytes.dim 2 / 128) + col / 128))

/-- The resident stacks that a call passes are twins of its byte stacks. -/
def Call.Twins (c : Call V) : Prop :=
  ∀ storage gateUp down, c.storage = some storage → c.w16GateUp = some gateUp → c.w16Down = some down →
    TwinOf fl storage c.gateUpW c.gateUpS gateUp ∧ TwinOf fl storage c.downW c.downS down

/-- **The promise**: the ladder's result, and dot products that load elements of their own row and expert only. -/
structure GivesLadder (c : Call V) : Prop where
  result : ∃ y y', ladder fl host c = some y ∧ moeGroupedDecode fl host c = some y' ∧ y'.size = c.t * c.h ∧
    ∀ n < c.t * c.h, y'.get n = y.data n
  gateUp : ∀ storage, c.storage = some storage → ∀ p < c.t * c.k, ∀ q < blocksFor host.rows1 c.ia, ∀ r < host.rows1,
    let expert := c.topKIndex.data p
    let row := int32 (int32 (q * host.rows1) + r)
    (gateLanes c.ia c.i c.k (nextPowerOf2 c.i) expert p row).Owns (c.stacks storage).1.scaled
        (expert * c.o + (q * host.rows1 + r : ℕ)) (expert * (c.o / 128 : ℕ) + ((q * host.rows1 + r) / 128 : ℕ))
        (p / c.k : ℕ) c.i ∧
      (upLanes c.ia c.i c.k (nextPowerOf2 c.i) expert p row).Owns (c.stacks storage).1.scaled
        (expert * c.o + (q * host.rows1 + r + c.ia : ℕ))
        (expert * (c.o / 128 : ℕ) + ((q * host.rows1 + r + c.ia) / 128 : ℕ)) (p / c.k : ℕ) c.i
  down : ∀ storage, c.storage = some storage → ∀ token < c.t, ∀ j < c.k, ∀ q < blocksFor rows2 c.h, ∀ r < rows2,
    let expert := c.topKIndex.data (token * c.k + j)
    (downLanes c.ia c.h c.k (nextPowerOf2 c.ia) expert token j (int32 (int32 (q * rows2) + r))).Owns
      (c.stacks storage).2.scaled (expert * c.h + (q * rows2 + r : ℕ))
      (expert * (c.h / 128 : ℕ) + ((q * rows2 + r) / 128 : ℕ)) (token * c.k + j : ℕ) c.ia

/-- What the promise needs beside the check. -/
structure Fits (c : Call V) : Prop where
  rank : c.gateUpW.shape.length = 3
  routes : c.topKWeights.shape = c.topKIndex.shape
  pairs : c.o = 2 * c.ia
  wide : 0 < c.i
  /-- The width of the second reduction is not padded. -/
  power : ∃ n, c.ia = 2 ^ n
  stackOffsets : (c.o - 1) * c.i < 2 ^ 31
  pairOffsets : (c.t * c.k - 1) * c.o < 2 ^ 31
  outOffsets : (c.t * c.k - 1) * c.i < 2 ^ 31
  gateUp : host.accepts (c.t * c.k) (blocksFor host.rows1 c.ia) host.rows1 (nextPowerOf2 c.i) = true
  down : host.accepts c.t (blocksFor rows2 c.h) rows2 (nextPowerOf2 c.ia) = true
  firstGemv : host.accepts (c.t * c.k) (blocksFor rows2 c.o) rows2 (nextPowerOf2 c.i) = true
  swiglu : host.accepts (c.t * c.k) (blocksFor swigluBlock c.ia) swigluBlock 1 = true
  secondGemv : host.accepts (c.t * c.k) (blocksFor rows2 c.h) rows2 (nextPowerOf2 c.ia) = true
  weightedSum : host.accepts c.t (blocksFor (min (nextPowerOf2 c.h) weightedSumBlock) c.h)
    (min (nextPowerOf2 c.h) weightedSumBlock) 1 = true

end

end VKernels.GroupedDecode
