import VKernels.Lib.OnlineSoftmax
import VKernels.Lib.RingTail
import Mathlib.Data.Fin.VecNotation

/-!
# The kpool cache of the DSA indexer

Model of `kernels/dsa_kpool.cpp`: prefill assembly (`assemble_impl`) and decode update (`decode_impl`)
over exact arithmetic, with the store callback as a parameter.

* `Dims` — the dimensions both accept; `phys` — the cell of a logical position in a tail ring.
-/

namespace VKernels.Dsa

open VKernels.OnlineSoftmax

/-- A vector of `head_dim` values, which both paths require to be 128. -/
abbrev Vec (α : Type) := Fin 128 → α

structure Dims where
  poolSize : ℕ
  tailSize : ℕ
  slotsPerPage : ℕ
  nReqs : ℕ
  numPages : ℕ
  poolSize_pos : 0 < poolSize
  tailSize_pos : 0 < tailSize
  slotsPerPage_pos : 0 < slotsPerPage

/-- `((x % n) + n) % n`, with the remainder of C. -/
def phys (n : ℕ) (x : ℤ) : ℕ := ((x.tmod n + n).tmod n).toNat

def writeSlot {Cell : Type} (out : ℕ → ℕ → Cell) (page slot : ℕ) (v : Cell) : ℕ → ℕ → Cell :=
  Function.update out page (Function.update (out page) slot v)

section

variable {α Cell : Type} [Field α] [LinearOrder α] (c : Dims) (exp : α → α) (ape : ℕ → Vec α)
  (store : Vec α → Vec α → Cell)

/-! ## Prefill -/

/-- Row `r` of the arguments of a prefill. -/
structure PoolRow where
  writeMask : Option ℤ
  reqPoolIdx : ℤ
  nFromTail : ℤ
  chunkSrcStart : ℤ
  tailLogicalBase : ℤ
  loc : ℤ

structure PrefillTensors (α : Type) where
  numChunks : ℕ
  chunkK : ℕ → Vec α
  chunkScore : ℕ → Vec α
  tailK : ℕ → ℕ → Vec α
  tailScore : ℕ → ℕ → Vec α

/-- The source of a slot of the pool: the tail ring, then the chunk. -/
def gather (t : PrefillTensors α) (r : PoolRow) (slot : ℕ) : Vec α × Vec α :=
  if (slot : ℤ) < r.nFromTail then
    let p := phys c.tailSize (r.tailLogicalBase + slot)
    (t.tailScore r.reqPoolIdx.toNat p, t.tailK r.reqPoolIdx.toNat p)
  else
    let ci := (r.chunkSrcStart + (slot - r.nFromTail)).toNat
    (t.chunkScore ci, t.chunkK ci)

/-- One row of `assemble_impl`. -/
def assembleRow (who : String) (t : PrefillTensors α) (r : PoolRow) (out : ℕ → ℕ → Cell) :
    Except String (ℕ → ℕ → Cell) :=
  if r.writeMask = some 0 then .ok out
  else if ¬ (0 ≤ r.reqPoolIdx ∧ r.reqPoolIdx < c.nReqs) then .error (who ++ ": req_pool_idx out of range")
  else if ¬ (0 ≤ r.nFromTail ∧ r.nFromTail ≤ c.poolSize) then
    .error (who ++ ": n_from_tail out of range [0, pool_size)")
  else if 0 < c.poolSize - r.nFromTail ∧
      ¬ (0 ≤ r.chunkSrcStart ∧ r.chunkSrcStart + (c.poolSize - r.nFromTail) - 1 < t.numChunks) then
    .error (who ++ ": chunk_src_start out of range")
  else if ¬ (0 ≤ r.loc ∧ r.loc < c.numPages * c.slotsPerPage) then
    .error (who ++ ": loc out of range [0, num_pages*ssp)")
  else
    let pairs := fun d => (List.range c.poolSize).map fun slot =>
      ((gather c t r slot).1 d + ape slot d, (gather c t r slot).2 d)
    let acc := fun d => (online exp (pairs d)).acc
    let denom := fun d => (online exp (pairs d)).denom
    .ok (writeSlot out (r.loc.toNat / c.slotsPerPage) (r.loc.toNat % c.slotsPerPage) (store acc denom))

/-- `assemble_impl`. -/
def assemble (who : String) (t : PrefillTensors α) (rows : List PoolRow) (out : ℕ → ℕ → Cell) :
    Except String (ℕ → ℕ → Cell) :=
  if rows = [] then .ok out
  else if c.numPages = 0 then
    .error (who ++ ": positive pool_size/tail_size/slots_per_page/num_pages, head_dim==128, " ++
      "non-negative counts")
  else rows.foldlM (fun out r => assembleRow c exp ape store who t r out) out

/-! ## Decode -/

/-- Row `r` of the arguments of a decode update, with its row of the block tables. -/
structure DecodeRow (α : Type) where
  key : Vec α
  score : Vec α
  blockTable : List ℤ
  reqPoolIndex : ℤ
  position : ℤ
  seqLen : ℤ
  outCacheLoc : ℤ
  blockTable_ne : blockTable ≠ []

/-- What a decode update writes. -/
structure Live (α Cell : Type) where
  tailK : ℕ → ℕ → Vec α
  tailScore : ℕ → ℕ → Vec α
  out : ℕ → ℕ → Cell

namespace DecodeRow

variable (r : DecodeRow α)

def reqValid : Bool := 0 ≤ r.reqPoolIndex && r.reqPoolIndex < c.nReqs

def req : ℕ :=
  (if r.reqValid c then r.reqPoolIndex else min (max r.reqPoolIndex 0) (c.nReqs - 1)).toNat

def safePos : ℕ := (max r.position 0).toNat

def posValid : Bool :=
  r.reqValid c && r.outCacheLoc != 0 && 0 ≤ r.position && r.position < r.seqLen

/-- The position within the pool. -/
def slot : ℕ := r.safePos % c.poolSize

def completes : Bool := r.posValid c && r.slot c == c.poolSize - 1

def poolId : ℕ := r.safePos / c.poolSize

def tokenPageRow : ℕ := min (r.poolId c / c.slotsPerPage * c.poolSize) (r.blockTable.length - 1)

def packedPage : ℤ := r.blockTable.getD (r.tokenPageRow c) 0

end DecodeRow

/-- The pair at place `p` of the pool that a row completes. -/
def decodePair (s : Live α Cell) (r : DecodeRow α) (d : Fin 128) (p : ℕ) : α × α :=
  let cell := phys c.tailSize ((r.safePos - r.slot c : ℕ) + p : ℕ)
  ((if p = r.slot c then r.score d else s.tailScore (r.req c) cell d) + ape p d,
    if p = r.slot c then r.key d else s.tailK (r.req c) cell d)

/-- The vector stored for the pool that a row completes. -/
def decodeVector (s : Live α Cell) (r : DecodeRow α) : Cell :=
  let pairs := fun d => (List.range c.poolSize).map (decodePair c ape s r d)
  store (fun d => (twoPass exp (pairs d)).1) fun d => (twoPass exp (pairs d)).2

def writeTail (s : Live α Cell) (r : DecodeRow α) : Live α Cell :=
  if r.posValid c then
    { s with
      tailK := writeSlot s.tailK (r.req c) (phys c.tailSize r.safePos) r.key
      tailScore := writeSlot s.tailScore (r.req c) (phys c.tailSize r.safePos) r.score }
  else s

/-- One row of `decode_impl`. -/
def decodeRow (who : String) (s : Live α Cell) (r : DecodeRow α) : Except String (Live α Cell) :=
  if r.completes c then
    if 0 ≤ r.packedPage c ∧ r.packedPage c < c.numPages then
      .ok (writeTail c
        { s with
          out := writeSlot s.out (r.packedPage c).toNat (r.poolId c % c.slotsPerPage)
            (decodeVector c exp ape store s r) } r)
    else .error (who ++ ": block_tables entry out of range [0, num_pages)")
  else .ok (writeTail c s r)

/-- `decode_impl` over a batch. -/
def decodeUpdate (who : String) (s : Live α Cell) (batch : List (DecodeRow α)) : Except String (Live α Cell) :=
  batch.foldlM (decodeRow c exp ape store who) s

end

/-! ## The store of the unquantised cache -/

section

variable {α : Type} [Field α]

/-- One stage of the transform: sums and differences over groups of stride `S`. -/
def hadamardStage (S : ℕ) (x : ℕ → α) (i : ℕ) : α :=
  let base := i / (2 * S) * (2 * S)
  let s := i % S
  if i % (2 * S) < S then x (base + s) + x (base + S + s) else x (base + s) - x (base + S + s)

/-- `hadamard128`: the seven stages, then the factor `1 / sqrt 128` as written. -/
def hadamard128 (x : ℕ → α) (i : ℕ) : α :=
  [1, 2, 4, 8, 16, 32, 64].foldl (fun x S => hadamardStage S x) x i * (8838834764831845 / 100000000000000000)

/-- The weighted mean, transformed. -/
def cacheVector (acc denom : Vec α) : Vec α := fun i =>
  hadamard128 (fun j => if h : j < 128 then acc ⟨j, h⟩ / denom ⟨j, h⟩ else 0) i

end

end VKernels.Dsa
