import VKernels.Lib.LaneLaunch
import VKernels.Lib.SplitSoftmax

/-!
# Long decode attention

`decode_attention_long`: one query a row against a token-slot table, the positions of a row in 128 splits.
-/

namespace VKernels.LongDecode

open SplitSoftmax LocalActions
open OnlineSoftmax (expFrom)

/-! ## The call -/

/-- What the requirements ask about the arguments. -/
structure Operands where
  qShape : List ℕ
  kShape : List ℕ
  vShape : List ℕ
  tableShape : List ℕ
  lengthsShape : List ℕ
  maxLenHint : ℕ
  onGpu : Bool
  sameDevice : Bool
  contiguous : Bool
  queryFits : Bool
  gfx942 : Bool
  bf16 : Bool
  integerMetadata : Bool
  /-- Of `k_new` and `v_new`, the shape and whether device, type and strides are right. -/
  kNew : Option (List ℕ × Bool)
  vNew : Option (List ℕ × Bool)
  inference : Bool

def require (condition : Prop) [Decidable condition] (message : String) : Except String Unit :=
  if condition then .ok () else .error message

/-- `same_gpu_contiguous`. -/
def sameGpuContiguous (o : Operands) : Except String Unit := do
  require (o.onGpu = true)
    "inputs must be CUDA-resident on the same GPU (CPU callers take the *_reference/eager path)"
  require (o.sameDevice = true) "inputs must share one GPU device"
  require (o.contiguous = true) "inputs must be contiguous on the same GPU"

namespace Operands

variable (o : Operands)

def batch : ℕ := o.qShape.getD 0 0

def heads : ℕ := o.qShape.getD 1 0

def kvHeads : ℕ := o.kShape.getD 1 0

def freshFits : Option (List ℕ × Bool) → Prop
  | none => True
  | some (shape, fits) => shape = [o.batch, o.kvHeads, 128] ∧ fits = true

instance (fresh : Option (List ℕ × Bool)) : Decidable (o.freshFits fresh) :=
  match fresh with
  | none => inferInstanceAs (Decidable True)
  | some _ => inferInstanceAs (Decidable (_ ∧ _))

end Operands

/-- The requirements of `decode_attention_long`, in its order. -/
def checkOperands (o : Operands) : Except String Unit := do
  require (o.qShape.length = 3 ∧ o.kShape.length = 3 ∧ o.vShape.length = 3) "expected query and KV pool tensors"
  require (o.kShape = o.vShape ∧ 0 < o.kShape.getD 0 0 ∧ o.qShape.getD 2 0 = 128 ∧ o.kShape.getD 2 0 = 128)
    "long decode requires matching head-128 KV pools"
  require (1 ≤ o.batch ∧ o.batch ≤ 32 ∧ (o.heads, o.kvHeads) ∈ [(32, 8), (16, 2), (8, 2)])
    "no qualified long decode geometry"
  require (o.tableShape.length = 2 ∧ o.tableShape.getD 0 0 = o.batch ∧ o.lengthsShape = [o.batch] ∧
      4096 < o.maxLenHint ∧ o.maxLenHint = o.tableShape.getD 1 0 ∧ o.tableShape.getD 1 0 ≤ 262144)
    "unqualified long decode width"
  sameGpuContiguous o
  require (o.queryFits = true) "query must share GPU and contiguous dimensions"
  require (o.gfx942 = true) "long decode requires gfx942"
  require (o.bf16 = true) "long decode requires BF16"
  require (o.integerMetadata = true) "invalid integer metadata"
  require (o.kNew.isNone = o.vNew.isNone) "fresh K/V must be paired"
  require (o.freshFits o.kNew ∧ o.freshFits o.vNew) "invalid fresh KV tensor"
  require (o.inference = true) "long decode is inference-only"

/-- Fresh rows, by batch row, key head and dimension. -/
structure Fresh (V : Type) where
  kNew : ℕ → ℕ → ℕ → V
  vNew : ℕ → ℕ → ℕ → V

/-- The arguments.  The pools are by slot, key head and dimension, as they are before the call. -/
structure Call (V : Type) where
  operands : Operands
  q : ℕ → ℕ → ℕ → V
  k : ℤ → ℕ → ℕ → V
  v : ℤ → ℕ → ℕ → V
  table : ℕ → ℕ → ℤ
  lengths : ℕ → ℕ
  fresh : Option (Fresh V)
  scratchSlot : ℤ
  /-- The factor of the scores, in base 2. -/
  scale : V

def splits : ℕ := 128

namespace Call

variable {V : Type} (c : Call V)

/-- `heads // k.shape[1]`. -/
def group : ℕ := c.operands.heads / c.operands.kvHeads

def bn : ℕ := if c.operands.heads = 16 ∧ c.operands.batch = 1 then 128 else 64

/-- Positions of a split: `cdiv(hint, splits * bn) * bn`. -/
def part : ℕ := (c.operands.maxLenHint + splits * c.bn - 1) / (splits * c.bn) * c.bn

/-- The slot of the last position. -/
def freshSlot (b : ℕ) : ℤ := if 0 < c.lengths b then c.table b (c.lengths b - 1) else 0

/-- Split 0 of the row stores the fresh row. -/
def Stores (b : ℕ) : Prop := c.fresh.isSome = true ∧ 0 < c.lengths b ∧ c.freshSlot b ≠ c.scratchSlot

instance (b : ℕ) : Decidable (c.Stores b) := inferInstanceAs (Decidable (_ ∧ _))

end Call

/-! ## Loads of the launch -/

structure Program where
  batch : ℕ
  kvHead : ℕ
  split : ℕ

/-- What the loads of cached keys and values return, by program, position and dimension. -/
structure Seen (V : Type) where
  k : Program → ℕ → ℕ → V
  v : Program → ℕ → ℕ → V

namespace Seen

variable {V : Type} (c : Call V)

/-- A load returns what the element held before the launch, or a fresh row that some program of it stores there. -/
def Admits (seen initial : V) (slot : ℤ) (new : Fresh V → ℕ → V) : Prop :=
  seen = initial ∨ ∃ f, c.fresh = some f ∧ ∃ b < c.operands.batch, c.Stores b ∧ c.freshSlot b = slot ∧ seen = new f b

/-- The loads of one launch, whatever the order of its programs. -/
structure Admissible (seen : Seen V) : Prop where
  k : ∀ p col d, col < c.lengths p.batch → Admits c (seen.k p col d)
    (c.k (c.table p.batch col) p.kvHead d) (c.table p.batch col) fun f b => f.kNew b p.kvHead d
  v : ∀ p col d, col < c.lengths p.batch → Admits c (seen.v p col d)
    (c.v (c.table p.batch col) p.kvHead d) (c.table p.batch col) fun f b => f.vNew b p.kvHead d

/-- The pools after the fresh rows are stored. -/
def stored (pool : ℤ → ℕ → ℕ → V) (new : Fresh V → ℕ → ℕ → ℕ → V) (slot : ℤ) (kvHead d : ℕ) : V :=
  match c.fresh, (List.range c.operands.batch).find? fun b => c.Stores b ∧ c.freshSlot b = slot with
  | some f, some b => new f b kvHead d
  | _, _ => pool slot kvHead d

/-- The loads where every split 0 has stored before any program loads. -/
def afterStores : Seen V where
  k p col d := stored c c.k Fresh.kNew (c.table p.batch col) p.kvHead d
  v p col d := stored c c.v Fresh.vNew (c.table p.batch col) p.kvHead d

end Seen

/-! ## The split kernel -/

section

variable {V : Type} [Field V] [LinearOrder V] (exp2 : V → V) (c : Call V)

section

variable (seen : Seen V) (p : Program) (r : ℕ)

def query (d : ℕ) : V := if r < c.group then c.q p.batch (p.kvHead * c.group + r) d else 0

def start : ℕ := p.split * c.part

def stop : ℕ := min (start c p + c.part) (c.lengths p.batch)

/-- A loaded row, with the fresh one at the last position. -/
def withFresh (loaded : V) (new : Fresh V → V) (col : ℕ) : V :=
  match c.fresh with
  | some f => if col + 1 = c.lengths p.batch then new f else loaded
  | none => loaded

def key (col d : ℕ) : V :=
  withFresh c p (if col < stop c p then seen.k p col d else 0) (fun f => f.kNew p.batch p.kvHead d) col

def value (col d : ℕ) : V :=
  withFresh c p (if col < stop c p then seen.v p col d else 0) (fun f => f.vNew p.batch p.kvHead d) col

def dot (col : ℕ) : V := (∑ d ∈ Finset.range 128, query c p r d * key c seen p col d) * c.scale

def score (col : ℕ) : Option V := if col < stop c p then some (dot c seen p r col) else none

/-- `tl.exp2(score - new_max)`, zero at minus infinity. -/
def probability (newMax : V) (score : Option V) : V :=
  match score with
  | none => 0
  | some s => exp2 (s - newMax)

/-- One block of columns.  From minus infinity to minus infinity there is no difference, and no result. -/
def blockStep (g : Gathered ℕ V) (offset : ℕ) : Option (Gathered ℕ V) := do
  let newMax ← maximum g.max (maxOver c.bn fun j => score c seen p r (offset + j))
  let correction := expFrom exp2 g.max newMax
  let probability (j : ℕ) : V := probability exp2 newMax (score c seen p r (offset + j))
  let hi (j : ℕ) : V := probability j
  let lo (j : ℕ) : V := probability j - hi j
  some {
    max := some newMax
    denom := g.denom * correction + ∑ j ∈ Finset.range c.bn, probability j
    acc := fun d => g.acc d * correction + ∑ j ∈ Finset.range c.bn, hi j * value c seen p (offset + j) d +
      ∑ j ∈ Finset.range c.bn, lo j * value c seen p (offset + j) d }

def blocks : ℕ := (stop c p - start c p + c.bn - 1) / c.bn

/-- `range(begin, end, BN)`. -/
def offsets : List ℕ := (List.range (blocks c p)).map fun i => start c p + i * c.bn

/-- What row `r` of a program stores. -/
def splitRow : Option (Gathered ℕ V) := (offsets c p).foldlM (blockStep exp2 c seen p r) Gathered.start

end

/-! ## Both launches -/

/-- Where the partial sums of a head and split are. -/
def base (b head split : ℕ) : ℕ := (b * c.operands.heads + head) * splits + split

/-- The stored rows, by row of the batch, key head, split and row of the program. -/
def rows : List (ℕ × ℕ × ℕ × ℕ) :=
  List.range c.operands.batch ×ˢ List.range c.operands.kvHeads ×ˢ List.range splits ×ˢ
    (List.range 16).filter (· < c.group)

def rowStore (seen : Seen V) (t : ℕ × ℕ × ℕ × ℕ) : Option (ℕ × Gathered ℕ V) :=
  let (b, kvHead, split, r) := t
  (splitRow exp2 c seen ⟨b, kvHead, split⟩ r).map fun g => (base c b (kvHead * c.group + r) split, g)

/-- The launch of `grouped_split`, its stores in some order over what the buffers held. -/
def groupedSplit (seen : Seen V) (arrange : List (ℕ × Gathered ℕ V) → List (ℕ × Gathered ℕ V))
    (held : ℕ → Gathered ℕ V) : Option (ℕ → Gathered ℕ V) := do
  let stores ← (rows c).mapM (rowStore exp2 c seen)
  some (assign (arrange stores) held)

/-- One program of `merge`. -/
def merge (partials : ℕ → Gathered ℕ V) (b head d : ℕ) : V :=
  let part (split : ℕ) := partials (base c b head split)
  let overall := (maxOver splits fun split => (part split).max).getD 0
  let weight (split : ℕ) := expFrom exp2 (part split).max overall
  let total := ∑ split ∈ Finset.range splits, (part split).denom * weight split
  (∑ split ∈ Finset.range splits, (part split).acc d * weight split) / if 0 < total then total else 1

/-- `decode_attention_long`: the output by row, head and dimension. -/
def decodeAttentionLong (seen : Seen V) (arrange : List (ℕ × Gathered ℕ V) → List (ℕ × Gathered ℕ V))
    (held : ℕ → Gathered ℕ V) : Except String (Option (ℕ → ℕ → ℕ → V)) := do
  checkOperands c.operands
  .ok ((groupedSplit exp2 c seen arrange held).map fun partials => merge exp2 c partials)

/-! ## The attention of a row -/

section

variable (b head : ℕ)

def Call.kvHead (c : Call V) (head : ℕ) : ℕ := head / c.group

/-- The key of a position: the fresh one at the last, otherwise that of its slot. -/
def logicalKey (pos d : ℕ) : V :=
  match c.fresh with
  | some f => if pos + 1 = c.lengths b then f.kNew b (c.kvHead head) d else c.k (c.table b pos) (c.kvHead head) d
  | none => c.k (c.table b pos) (c.kvHead head) d

def logicalValue (pos d : ℕ) : V :=
  match c.fresh with
  | some f => if pos + 1 = c.lengths b then f.vNew b (c.kvHead head) d else c.v (c.table b pos) (c.kvHead head) d
  | none => c.v (c.table b pos) (c.kvHead head) d

def logicalScore (pos : ℕ) : V := (∑ d ∈ Finset.range 128, c.q b head d * logicalKey c b head pos d) * c.scale

/-- Softmax attention over the positions of the row. -/
def rowAttention (d : ℕ) : V :=
  attention exp2 (logicalScore c b head) (logicalValue c b head) (Finset.range (c.lengths b)) d

end

end

end VKernels.LongDecode
