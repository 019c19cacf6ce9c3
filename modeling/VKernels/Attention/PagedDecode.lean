import VKernels.Lib.SplitSoftmax
import VKernels.Lib.WorkerTasks

/-!
# Paged decode attention

`triton_attn`: one query a row against the pool rows of its block table, with exact arithmetic.

* `decodeAttentionReference` — the eager form.
* `decodeAttention`, `decodeAttentionGqa`, `decodeAttentionSplit` — the calls: an error, or what they may leave.
-/

namespace VKernels.PagedDecode

open Finset SplitSoftmax WorkerTasks
open Grouping (blocksFor)
open LaneLaunch (arange tile dot)
open MaskedStores (storeIf)

/-! ## Arguments -/

inductive Plane where
  | k
  | v
  deriving DecidableEq

/-- A pool element: plane, slot, head and dimension. -/
abbrev PoolLoc := Plane × ℤ × ℕ × ℕ

abbrev Pool (V : Type) := PoolLoc → V

/-- Fresh rows, by batch row, head and dimension. -/
structure Fresh (V : Type) where
  shape : List ℕ
  row : ℕ → ℕ → ℕ → V

structure Call (V : Type) where
  B : ℕ
  nQ : ℕ
  nKv : ℕ
  D : ℕ
  /-- Rows of the pools. -/
  maxTotal : ℕ
  q : ℕ → ℕ → ℕ → V
  blockTable : ℕ → ℕ → ℤ
  seqLens : ℕ → ℕ
  kNew : Option (Fresh V)
  vNew : Option (Fresh V)
  scratchSlot : Option ℤ

namespace Call

variable {V : Type} (c : Call V)

/-- `n_q // n_kv`. -/
def G : ℕ := c.nQ / c.nKv

/-- `1.0 / math.sqrt(D)`. -/
def scale [Field V] (sqrt : V → V) : V := 1 / sqrt (c.D : V)

def fresh : Option (Plane → ℕ → ℕ → ℕ → V) :=
  match c.kNew, c.vNew with
  | some kn, some vn => some fun plane => if plane = .k then kn.row else vn.row
  | _, _ => none

def hasNew : Bool := c.fresh.isSome

/-- `scratch_slot if scratch_slot is not None else -1`. -/
def SCRATCH : ℤ := c.scratchSlot.getD (-1)

/-- The slot of the last position; zero without fresh rows. -/
def slot (b : ℕ) : ℤ := if c.hasNew then c.blockTable b (c.seqLens b - 1) else 0

/-- The fresh row of the batch row goes to the pools. -/
def Stores (b : ℕ) : Prop := c.hasNew = true ∧ c.slot b ≠ c.SCRATCH

instance (b : ℕ) : Decidable (c.Stores b) := inferInstanceAs (Decidable (_ ∧ _))

/-- The pools with the fresh row of `b` in its last slot. -/
def storedAt (pool : Pool V) (b : ℕ) (loc : PoolLoc) : V :=
  match c.fresh with
  | some row => if loc.2.1 = c.slot b then row loc.1 b loc.2.2.1 loc.2.2.2 else pool loc
  | none => pool loc

end Call

/-! ## The reference -/

section

variable {V : Type} [Field V] (exp sqrt : V → V) (c : Call V) (pool : Pool V) (b h : ℕ)

def referenceScore (pos : ℕ) : V :=
  (∑ d ∈ range c.D, c.q b h d * pool (.k, c.blockTable b pos, h / c.G, d)) * c.scale sqrt

/-- `torch.softmax(scores, dim=-1)`. -/
def referenceP (pos : ℕ) : V :=
  exp (referenceScore sqrt c pool b h pos) / ∑ i ∈ range (c.seqLens b), exp (referenceScore sqrt c pool b h i)

def decodeAttentionReference (d : ℕ) : V :=
  ∑ pos ∈ range (c.seqLens b), referenceP exp sqrt c pool b h pos * pool (.v, c.blockTable b pos, h / c.G, d)

end

/-! ## Programs -/

/-- A place of the grid, with the head of the pools that it reads. -/
structure Program where
  b : ℕ
  h : ℕ
  hkv : ℕ
  s : ℕ

/-- What the loads of pool rows return: by program, plane, position and dimension. -/
abbrev Seen (V : Type) := Program → Plane → ℕ → ℕ → V

section

variable {V : Type} (c : Call V) (seen : Seen V) (p : Program)

/-- A lane's row of a plane: a masked load, the fresh row where the index is the slot. -/
def row [Zero V] (stop : ℕ) (plane : Plane) (col d : ℕ) : V :=
  let idx := if col < stop then c.blockTable p.b col else 0
  let loaded := if col < stop then seen p plane col d else 0
  match c.fresh with
  | some new => if idx = c.slot p.b then new plane p.b p.hkv d else loaded
  | none => loaded

def storeRow : List (PoolLoc × V) :=
  match c.fresh with
  | some new =>
    (List.range c.D).map (fun d => ((.k, c.slot p.b, p.hkv, d), new .k p.b p.hkv d)) ++
      (List.range c.D).map fun d => ((.v, c.slot p.b, p.hkv, d), new .v p.b p.hkv d)
  | none => []

variable [Field V] [LinearOrder V] (exp : V → V) (scale : V)

/-- `for t0 in range(start, stop, BLOCK_N)`. -/
def attend (blockN start stop : ℕ) (scores : ℕ → Option V) (vblk : ℕ → ℕ → V) : Option (Gathered ℕ V) :=
  (List.range (blocksFor blockN (stop - start))).foldlM
    (fun g t => g.blockUnder exp blockN (fun j => scores (start + t * blockN + j)) fun j => vblk (start + t * blockN + j))
    Gathered.start

/-- `_paged_decode_attn`, up to the division. -/
def pagedDecodeAttn : Option (Gathered ℕ V) :=
  let seq := c.seqLens p.b
  let scores (col : ℕ) : Option V :=
    if col < seq then some ((∑ d ∈ range c.D, row c seen p seq .k col d * c.q p.b p.h d) * scale) else none
  attend exp 128 0 seq scores fun col d => row c seen p seq .v col d

/-- Its pool stores: those of one query head of the group. -/
def pagedDecodeAttnStores : List (PoolLoc × V) :=
  if c.Stores p.b then if p.h % c.G = 0 then storeRow c p else [] else []

/-- The query tile, padded to more rows than the group has. -/
def queryTile (r d : ℕ) : V := if r < c.G then c.q p.b (p.hkv * c.G + r) d else 0

/-- `_paged_decode_attn_gqa`, one row of the tile up to the division. -/
def pagedDecodeAttnGqa (blockN r : ℕ) : Option (Gathered ℕ V) :=
  let seq := c.seqLens p.b
  let qk (col : ℕ) : Option V :=
    if col < seq then some ((∑ d ∈ range c.D, queryTile c p r d * row c seen p seq .k col d) * scale) else none
  attend exp blockN 0 seq qk fun col d => row c seen p seq .v col d

def pagedDecodeAttnGqaStores : List (PoolLoc × V) := if c.Stores p.b then storeRow c p else []

/-- `_paged_decode_attn_s1`: the partial sums of a split. -/
def pagedDecodeAttnS1 (blockN splitLen : ℕ) : Option (Gathered ℕ V) :=
  let seq := c.seqLens p.b
  let start := p.s * splitLen
  if start < seq then
    let stop := min (start + splitLen) seq
    let scores (col : ℕ) : Option V :=
      if col < stop then some ((∑ d ∈ range c.D, row c seen p stop .k col d * c.q p.b p.h d) * scale) else none
    attend exp blockN start stop scores fun col d => row c seen p stop .v col d
  else some Gathered.start

def pagedDecodeAttnS1Stores (splitLen : ℕ) : List (PoolLoc × V) :=
  let seq := c.seqLens p.b
  let start := p.s * splitLen
  let endAll := min (start + splitLen) seq
  let ownsNew := start ≤ seq - 1 ∧ seq - 1 < endAll
  if c.Stores p.b ∧ ownsNew then if p.h % c.G = 0 then storeRow c p else [] else []

/-- `_paged_decode_attn_s2`, up to the division. -/
def pagedDecodeAttnS2 (partials : ℕ → Option (Gathered ℕ V)) (splits : ℕ) : Option (Gathered ℕ V) :=
  (List.range splits).foldlM (fun g s => (partials s).bind (g.merged exp)) Gathered.start

end

/-! ## Launches -/

/-- An output element: row, head and dimension. -/
abbrev OutLoc := ℕ × ℕ × ℕ

/-- The output; `none` is no number. -/
abbrev Out (V : Type) := OutLoc → Option V

/-- What a call may leave: the pools before, the pools after and the output. -/
abbrev Outcomes (V : Type) := Pool V → Pool V → Out V → Prop

section

variable {V : Type} (c : Call V)

/-- The loads of a launch return what was there before, or what some program of it stores there. -/
def Admissible (programs : List Program) (stores : Program → List (PoolLoc × V)) (pool : Pool V) (seen : Seen V) : Prop :=
  ∀ p ∈ programs, ∀ plane col d, col < c.seqLens p.b →
    MayLoad (programs.flatMap stores) pool (plane, c.blockTable p.b col, p.hkv, d) (seen p plane col d)

/-- A launch: stores to the pools, and to a buffer of its own. -/
def Launches {L W : Type} [DecidableEq L] (programs : List Program) (stores : Program → List (PoolLoc × V))
    (results : Seen V → Program → List (L × W)) (pool pool' : Pool V) (out : L → W) : Prop :=
  ∃ seen held, Admissible c programs stores pool seen ∧ AnyOrder (programs.flatMap stores) pool pool' ∧
    AnyOrder (programs.flatMap (results seen)) held out

def queryPrograms (splits : ℕ) : List Program :=
  (List.range c.B ×ˢ List.range c.nQ ×ˢ List.range splits).map fun t => ⟨t.1, t.2.1, t.2.1 / c.G, t.2.2⟩

/-- Programs of a key head. -/
def kvPrograms : List Program :=
  (List.range c.B ×ˢ List.range c.nKv).map fun t => ⟨t.1, t.2 * c.G, t.2, 0⟩

variable [Field V]

/-- `tl.store(o_ptr + …, acc / l)`. -/
def storeHead (b h : ℕ) (g : Option (Gathered ℕ V)) : List (OutLoc × Option V) :=
  (List.range c.D).map fun d => ((b, h, d), g.map fun g => g.acc d / g.denom)

def storeHeadIf (mask : Prop) [Decidable mask] (b h : ℕ) (g : Option (Gathered ℕ V)) : List (OutLoc × Option V) :=
  (List.range c.D).flatMap fun d => storeIf mask (b, h, d) (g.map fun g => g.acc d / g.denom)

end

/-! ## Calls -/

section

/-- `tuple(shape)`, as text. -/
def tupleText : List ℕ → String
  | [n] => "(" ++ toString n ++ ",)"
  | shape => "(" ++ ", ".intercalate (shape.map toString) ++ ")"

variable {V : Type} (c : Call V)

def checkHeads : Except String Unit :=
  if c.nKv = 0 then .error "integer modulo by zero"
  else if c.nQ % c.nKv ≠ 0 then
    .error ("n_q (" ++ toString c.nQ ++ ") must be a multiple of n_kv (" ++ toString c.nKv ++ ")")
  else .ok ()

def checkNew : Except String Unit :=
  match c.kNew, c.vNew with
  | some kn, some _ =>
    if kn.shape ≠ [c.B, c.nKv, c.D] then .error ("k_new must be [B, n_kv, D], got " ++ tupleText kn.shape) else .ok ()
  | _, _ => .ok ()

/-- `1.0 / math.sqrt(D)` of no dimension. -/
def checkScale : Except String Unit := if c.D = 0 then .error "float division by zero" else .ok ()

end

section

variable {V : Type} [Field V] [LinearOrder V] (exp sqrt : V → V) (c : Call V)

/-- The launch of `decode_attention`. -/
def decodeAttentionRuns : Outcomes V :=
  Launches c (queryPrograms c 1) (pagedDecodeAttnStores c)
    fun seen p => storeHead c p.b p.h (pagedDecodeAttn c seen p exp (c.scale sqrt))

def decodeAttention : Except String (Outcomes V) := do
  checkHeads c
  checkNew c
  checkScale c
  arange c.D
  tile 128 c.D
  .ok (decodeAttentionRuns exp sqrt c)

/-- `max(16, 1 << max(0, G - 1).bit_length())`. -/
def bg : ℕ := max 16 (2 ^ Nat.size (c.G - 1))

/-- The launch of `decode_attention_gqa`. -/
def decodeAttentionGqaRuns (blockN : ℕ) : Outcomes V :=
  Launches c (kvPrograms c) (pagedDecodeAttnGqaStores c) fun seen p => (List.range (bg c)).flatMap fun r =>
    storeHeadIf c (r < c.G) p.b (p.hkv * c.G + r) (pagedDecodeAttnGqa c seen p exp (c.scale sqrt) blockN r)

def decodeAttentionGqa (blockN : ℕ) : Except String (Outcomes V) := do
  checkHeads c
  checkNew c
  checkScale c
  arange (bg c)
  arange c.D
  tile (bg c) c.D
  -- range(0, seq, BLOCK_N) takes no step of zero
  arange blockN
  tile c.D blockN
  dot (bg c) blockN c.D
  tile (bg c) blockN
  dot (bg c) c.D blockN
  .ok (decodeAttentionGqaRuns exp sqrt c blockN)

/-- `bucket_for`, for some ladder. -/
def bucketFor (ladder : List ℕ) (n : ℕ) : ℕ :=
  if n = 0 then 0 else ((ladder.find? fun b => n ≤ b).orElse fun _ => ladder.getLast?).getD n

def bucketForCoverage (ladder : List ℕ) (n : ℕ) : ℕ := if n ≤ bucketFor ladder n then bucketFor ladder n else n

/-- How `decode_attention_split` is called. -/
structure SplitOptions where
  maxSplits : ℕ
  blockN : ℕ
  maxLenHint : Option ℕ
  /-- The ladder of context buckets. -/
  ladder : List ℕ

/-- The bound of the lengths. -/
def maxLen (o : SplitOptions) : ℕ :=
  match o.maxLenHint with
  | some hint => hint
  | none => bucketForCoverage o.ladder (if c.B = 0 then 1 else (range c.B).sup c.seqLens)

def splits (o : SplitOptions) : ℕ := max 1 (min o.maxSplits (blocksFor o.blockN (maxLen c o)))

def splitLen (o : SplitOptions) : ℕ := blocksFor (splits c o) (maxLen c o)

/-- Both launches of `decode_attention_split`. -/
def decodeAttentionSplitRuns (o : SplitOptions) : Outcomes V := fun pool pool' out =>
  ∃ partials : ℕ × ℕ × ℕ → Option (Gathered ℕ V),
    Launches c (queryPrograms c (splits c o)) (pagedDecodeAttnS1Stores c · (splitLen c o))
      (fun seen p => [((p.b, p.h, p.s), pagedDecodeAttnS1 c seen p exp (c.scale sqrt) o.blockN (splitLen c o))])
      pool pool' partials ∧
    ∃ held, AnyOrder ((queryPrograms c 1).flatMap fun p => storeHead c p.b p.h
      (pagedDecodeAttnS2 exp (fun s => partials (p.b, p.h, s)) (splits c o))) held out

def decodeAttentionSplit (o : SplitOptions) : Except String (Outcomes V) := do
  checkHeads c
  if o.blockN = 0 then .error "integer division or modulo by zero" else .ok ()
  checkNew c
  checkScale c
  arange c.D
  arange o.blockN
  tile o.blockN c.D
  .ok (decodeAttentionSplitRuns exp sqrt c o)

end

end VKernels.PagedDecode
