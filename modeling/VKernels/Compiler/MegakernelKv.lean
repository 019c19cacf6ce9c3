import VKernels.Lib.Strided

/-!
# KV addressing of the Triton megakernel

Model of `compiler/device_triton.py`: the pool checks of `TritonMegakernel.__init__`,
`set_slot_table`, the position checks of `run`, and the cache addresses of the kernel.

* `Runner` — what the constructor and `set_slot_table` record; `init`, `setSlotTable`.
* `runCheck` — the checks of `run`; `kAddr`, `vAddr` — the bytes the kernel addresses.
-/

namespace VKernels.Megakernel

open Strided

/-- A tensor in device memory. -/
structure PoolTensor where
  dataPtr : ℤ
  elementSize : ℕ
  shape : List ℕ
  strides : List ℕ

namespace PoolTensor

def numel (t : PoolTensor) : ℕ := t.shape.prod

/-- The first byte of an element. -/
def addr (t : PoolTensor) (index : List ℕ) : ℤ := t.dataPtr + t.elementSize * dot index t.strides

/-- Every element is where these strides put it; the stride of a dimension of size 1 does not matter. -/
def Laid (t : PoolTensor) (strides : List ℕ) : Prop :=
  ∀ index, List.Forall₂ (· < ·) index t.shape → dot index t.strides = dot index strides

/-- `t[l]`. -/
def select (t : PoolTensor) (l : ℕ) : PoolTensor where
  dataPtr := t.dataPtr + t.elementSize * (l * t.strides.headD 0)
  elementSize := t.elementSize
  shape := t.shape.tail
  strides := t.strides.tail

def slots (t : PoolTensor) : ℕ := t.shape.headD 0

end PoolTensor

/-- The geometry of a runner. -/
structure Config where
  layers : ℕ
  kvHeads : ℕ
  headDim : ℕ
  batch : ℕ
  capacity : ℕ
  batch_pos : 1 ≤ batch

def Config.needSlots (c : Config) : ℕ := c.capacity * c.batch

/-- `k_cache` and `v_cache`: one of them `None` (two pools are allocated), two tensors, or two tuples of
per-layer buffers. -/
inductive Pools where
  | allocated (kPtr vPtr : ℤ)
  | tensors (k v : PoolTensor)
  | layers (k v : List PoolTensor)

inductive Raised where
  | valueError (text : String)
  | other

structure Runner where
  poolSlots : ℕ
  kLaunch : PoolTensor
  vLaunch : PoolTensor
  layerStride : ℕ
  table : List ℤ
  tableRowLens : List ℕ

/-- A tuple of numbers as Python prints it. -/
def pyTuple (xs : List ℕ) : String :=
  "(" ++ ", ".intercalate (xs.map toString) ++ (if xs.length = 1 then ",)" else ")")

section

variable (c : Config)

/-- A pool that the constructor allocates itself: `torch.zeros` in fp32. -/
def allocate (ptr : ℤ) : PoolTensor where
  dataPtr := ptr
  elementSize := 4
  shape := [c.layers, c.needSlots, c.kvHeads, c.headDim]
  strides := rowMajor [c.layers, c.needSlots, c.kvHeads, c.headDim]

/-- The runner over checked pools, with the default table and its row lengths. -/
def start (slots : ℕ) (k v : PoolTensor) (stride : ℕ) : Runner where
  poolSlots := slots
  kLaunch := k
  vLaunch := v
  layerStride := stride
  table := (List.range c.needSlots).map fun i : ℕ => (i : ℤ)
  tableRowLens := List.replicate c.batch c.capacity

/-- Every buffer follows the one before at `strideBytes`. -/
def uniform (strideBytes : ℕ) (bufs : List PoolTensor) : Bool :=
  (bufs.zip bufs.tail).all fun ab => ab.2.dataPtr - ab.1.dataPtr == strideBytes

/-- The pool checks of the constructor. -/
def init : Pools → Except Raised Runner
  | .allocated kPtr vPtr =>
    .ok (start c c.needSlots (allocate c kPtr) (allocate c vPtr) (c.needSlots * c.kvHeads * c.headDim))
  | .tensors k v =>
    if k.shape.take 1 ++ k.shape.drop 2 ≠ [c.layers, c.kvHeads, c.headDim] then
      .error (.valueError ("pool shape " ++ pyTuple k.shape ++ " incompatible with ([layers, >= " ++
        toString c.needSlots ++ ", kv_heads, head_dim])"))
    else
      match k.shape[1]?, v.shape[1]? with
      | some ks, some vs =>
        if ks < c.needSlots ∨ vs < c.needSlots then
          .error (.valueError ("pool has " ++ toString (min ks vs) ++ " slots < " ++ toString c.needSlots ++
            " (batch " ++ toString c.batch ++ " x capacity " ++ toString c.capacity ++ ")"))
        else .ok (start c ks k v (ks * c.kvHeads * c.headDim))
      | _, _ => .error .other
  | .layers kl vl =>
    if kl.length ≠ c.layers ∨ vl.length ≠ c.layers then
      .error (.valueError ("pool layer counts " ++ pyTuple [kl.length, vl.length] ++ " != " ++
        pyTuple [c.layers, c.layers]))
    else
      match kl, vl with
      | k0 :: _, v0 :: _ =>
        if uniform (k0.numel * k0.elementSize) kl && uniform (k0.numel * k0.elementSize) vl then
          match k0.shape with
          | slots :: _ => .ok (start c slots k0 v0 k0.numel)
          | [] => .error .other
        else
          .error (.valueError ("non-uniform pool layer stride (daemon-placed buffers); " ++
            "use attach_megakernel_pool()"))
      | _, _ => .error .other

/-! ## Slot tables -/

/-- A slot table as an int64 tensor, in host memory or not. -/
structure SlotTensor where
  shape : List ℕ
  data : List ℤ
  onHost : Bool
  length_eq : data.length = shape.prod

/-- An argument of `set_slot_table`; `unreadable` where `torch.as_tensor` raises. -/
inductive SlotArg where
  | unreadable
  | tensor (t : SlotTensor)

/-- The shape with a 1-D table as one row. -/
def SlotTensor.rows (t : SlotTensor) : List ℕ := if t.shape.length = 1 then 1 :: t.shape else t.shape

/-- `t.max()`. -/
def SlotTensor.max (t : SlotTensor) : ℤ := t.data.foldl Max.max (t.data.headD 0)

/-- Rows of `n` entries, zero-padded to the capacity. -/
def padded (n : ℕ) (data : List ℤ) : List ℤ :=
  (List.range c.batch).flatMap fun b => (data.drop (b * n)).take n ++ List.replicate (c.capacity - n) 0

/-- `set_slot_table`: the runner afterwards, and what was raised. -/
def setSlotTable (r : Runner) : SlotArg → Runner × Option Raised
  | .unreadable => (r, some .other)
  | .tensor t =>
    if t.shape.length = 1 ∧ c.batch ≠ 1 then
      (r, some (.valueError ("1-D slot table given for batch " ++ toString c.batch ++ "; pass [B, n] rows")))
    else
      match t.rows with
      | rows :: n :: rest =>
        if rows ≠ c.batch then
          (r, some (.valueError ("slot table has " ++ toString rows ++ " rows, batch is " ++ toString c.batch)))
        else if t.data.length = 0 then (r, some (.valueError "slot table is empty"))
        else if (r.poolSlots : ℤ) ≤ t.max then
          (r, some (.valueError ("slot " ++ toString t.max ++ " outside pool of " ++ toString r.poolSlots ++
            " slots")))
        else
          let r := { r with tableRowLens := List.replicate c.batch n }
          if n < c.capacity then
            -- the padding is 2-D and on the host: `torch.cat` raises for anything else
            if rest = [] ∧ t.onHost = true then ({ r with table := padded c n t.data }, none)
            else (r, some .other)
          else if c.capacity < n then
            (r, some (.valueError ("slot table covers " ++ toString n ++ " positions > capacity " ++
              toString c.capacity)))
          else ({ r with table := t.data }, none)
      | _ => (r, some .other)

/-! ## A step -/

/-- The check of `run` for one row. -/
def checkRow (r : Runner) (pos : List ℤ) (b : ℕ) : Except Raised Unit :=
  if ¬ (0 ≤ pos.getD b 0 ∧ pos.getD b 0 < c.capacity) then
    .error (.valueError ("row " ++ toString b ++ ": position " ++ toString (pos.getD b 0) ++ " out of [0, " ++
      toString c.capacity ++ ")"))
  else if (r.tableRowLens.getD b 0 : ℤ) ≤ pos.getD b 0 then
    .error (.valueError ("row " ++ toString b ++ ": position " ++ toString (pos.getD b 0) ++
      " beyond its slot table (" ++ toString (r.tableRowLens.getD b 0) ++ " entries)"))
  else .ok ()

/-- The checks of `run` on its positions, as the int32 row that `_as_row` makes of them. -/
def runCheck (r : Runner) (pos : List ℤ) : Except Raised Unit :=
  if pos.length ≠ c.batch then
    .error (.valueError ("expected " ++ toString c.batch ++ " rows, got " ++ toString pos.length))
  else (List.range c.batch).forM (checkRow c r pos)

/-- What the kernel loads for logical position `i` of row `b`. -/
def tableEntry (r : Runner) (b i : ℕ) : ℤ := r.table.getD (b * c.capacity + i) 0

/-- The byte of an element of a layer, from the pointer and stride of the launch. -/
def launchAddr (t : PoolTensor) (stride l : ℕ) (slot : ℤ) (kvh d : ℕ) : ℤ :=
  t.dataPtr + t.elementSize *
    ((l : ℤ) * stride + (slot * c.kvHeads * c.headDim + (kvh : ℤ) * c.headDim + d))

def kAddr (r : Runner) (l b i kvh d : ℕ) : ℤ :=
  launchAddr c r.kLaunch r.layerStride l (tableEntry c r b i) kvh d

def vAddr (r : Runner) (l b i kvh d : ℕ) : ℤ :=
  launchAddr c r.vLaunch r.layerStride l (tableEntry c r b i) kvh d

end

end VKernels.Megakernel
