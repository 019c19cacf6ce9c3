import VKernels.Lib.VectorLanes

/-!
# The DSA row resolver

Model of `torch_ops/dsa_resolve_rows.py`: the Triton kernel `_resolve_rows_fast`, its launch over
requests and layers, and the CPU oracle `resolve_rows_reference`.

* `Geometry`, `Tables`, `Mem` — the constants of a launch, the tensors it reads, those it writes.
* `referenceStep`, `referenceRow` — one turn of the oracle's loop, and the oracle for one request.

Integers are unbounded.  The kernel divides and shifts tokens and tags only under masks that make
them non-negative.
-/

namespace VKernels.Dsa

open VKernels.VectorLanes
open Function (update)
open List

/-- `triton.next_power_of_2`. -/
def nextPowerOf2 (n : ℕ) : ℕ := if n ≤ 1 then 1 else 2 ^ ((n - 1).log2 + 1)

/-- `0x7FFFFFFFFFFFFFFF`. -/
def int64Max : ℤ := 0x7FFFFFFFFFFFFFFF

structure Geometry where
  page : ℕ
  width : ℕ
  gpuRows : ℕ
  hostRows : ℕ
  pages : ℕ
  batch : ℕ
  k : ℕ
  h : ℕ
  hotPages : ℕ
  blockK : ℕ
  fillChunk : ℕ
  allowPadding : Bool
  hasFence : Bool
  page_pos : 0 < page
  h_pos : 0 < h
  blockK_pos : 0 < blockK
  fillChunk_pos : 0 < fillChunk

namespace Geometry

def words (g : Geometry) : ℕ := (g.pages * g.page + 31) / 32

def blockH (g : Geometry) : ℕ := nextPowerOf2 g.h

def blockD (g : Geometry) : ℕ := nextPowerOf2 g.width

end Geometry

structure Tables where
  resident : Buffer ℤ
  backing : Buffer ℤ
  generations : Buffer ℤ
  lengths : Buffer ℤ
  hotSlots : Buffer ℤ
  selected : Buffer ℤ
  fence : Buffer ℤ
  expected : Buffer ℤ

structure Mem (V : Type) where
  kv : Buffer V
  fill : Buffer ℤ
  tags : Buffer ℤ
  tagGenerations : Buffer ℤ
  ages : Buffer ℤ
  clock : Buffer ℤ
  output : Buffer ℤ
  counters : Buffer ℤ
  errors : Buffer ℤ
  bitmap : Buffer (BitVec 32)
  worklist : Buffer ℤ

section

variable (g : Geometry) (T : Tables) (request : ℤ)

/-! ## Selections -/

/-- The token at position `j`, `-1` beyond the selection. -/
def token (j : ℕ) : ℤ := if j < g.k then T.selected (request * g.k + j) else -1

def valid (j : ℕ) : Bool := j < g.k && 0 ≤ token g T request j && token g T request j < T.lengths request

/-- The page-table entry of the token, `-1` for an invalid one. -/
def residentPage (j : ℕ) : ℤ :=
  if valid g T request j then T.resident (request * g.pages + token g T request j / g.page) else -1

def isRes (j : ℕ) : Bool := valid g T request j && 0 ≤ residentPage g T request j

def residentRow (j : ℕ) : ℤ := residentPage g T request j * g.page + token g T request j % g.page

def isMiss (j : ℕ) : Bool := valid g T request j && !isRes g T request j

def isErr (j : ℕ) : Bool :=
  j < g.k && !valid g T request j && (!g.allowPadding || token g T request j != -1)

/-- What the selection pass carries and writes. -/
structure Selection where
  bitmap : Buffer (BitVec 32)
  output : Buffer ℤ
  worklist : Buffer ℤ
  residentCount : ℕ
  errCount : ℕ
  workcnt : ℕ

/-- Phase 0: the bitmap of the state, 1024 words at a time. -/
def clearBitmap (st : ℤ) (bitmap : Buffer (BitVec 32)) : Buffer (BitVec 32) :=
  (range ((g.words + 1023) / 1024)).foldl
    (fun b c => storeLanes b 1024 (fun w => c * 1024 + w < g.words)
      (fun w => st * g.words + (c * 1024 : ℕ) + w) fun _ => 0) bitmap

/-- Phase 1, one chunk: mark, classify, answer the resident tokens, line up the misses. -/
def selectChunk (st : ℤ) (s : Selection) (c : ℕ) : Selection :=
  let jv := fun l => c * g.blockK + l
  let tok := fun l => token g T request (jv l)
  let miss := fun l => isMiss g T request (jv l)
  let out := storeLanes s.output g.blockK (fun l => isRes g T request (jv l))
    (fun l => st * g.k + (c * g.blockK : ℕ) + l) fun l => residentRow g T request (jv l)
  { bitmap := orLanes s.bitmap g.blockK (fun l => valid g T request (jv l))
      (fun l => st * g.words + tok l / 32) fun l => 1#32 <<< (tok l % 32).toNat
    output := storeLanes out g.blockK (fun l => jv l < g.k && !valid g T request (jv l))
      (fun l => st * g.k + (c * g.blockK : ℕ) + l) fun _ => -1
    worklist := storeLanes s.worklist g.blockK miss
      (fun l => st * g.k + s.workcnt + cumsum miss l - 1) fun l => jv l
    residentCount := s.residentCount + (range g.blockK).countP fun l => isRes g T request (jv l)
    errCount := s.errCount + (range g.blockK).countP fun l => isErr g T request (jv l)
    workcnt := s.workcnt + (range g.blockK).countP miss }

/-- Phase 1. -/
def select (st : ℤ) (s : Selection) : Selection :=
  (range ((g.k + g.blockK - 1) / g.blockK)).foldl (selectChunk g T request st) s

/-! ## The miss walk -/

/-- What the walk carries and writes. -/
structure Walk where
  tags : ℕ → ℤ
  tagGenerations : ℕ → ℤ
  ages : ℕ → ℤ
  isProtected : ℕ → Bool
  hitCount : ℕ
  missCount : ℕ
  errCount : ℕ
  fill : Buffer ℤ
  output : Buffer ℤ

/-- Phase 2: the lanes that hold a selected token at its page's generation, by the bitmap. -/
def protectedLanes (st : ℤ) (bitmap : Buffer (BitVec 32)) (tags tagGenerations : ℕ → ℤ) (h : ℕ) : Bool :=
  let tagged := h < g.h && 0 ≤ tags h
  let gen := if tagged then T.generations (request * g.pages + tags h / g.page) else -1
  let word := if tagged then bitmap (st * g.words + tags h / 32) else 0
  let selbit := word.sshiftRight (tags h % 32).toNat &&& 1#32 != 0#32
  tagged && gen == tagGenerations h && selbit

/-- The first lane that holds the token, else the oldest unprotected lane, else `blockH`; and whether
it was a hit. -/
def claimSlot (w : Walk) (tok generation : ℤ) : ℕ × Bool :=
  let hit := fun h => h < g.h && w.tags h == tok && w.tagGenerations h == generation
  let slot := vecMin (fun h => if hit h then h else g.blockH) g.blockH
  if slot < g.h then (slot, true)
  else
    let oldest := vecMin (fun h => if h < g.h && !w.isProtected h then w.ages h else int64Max) g.blockH
    (vecMin (fun h => if h < g.h && !w.isProtected h && w.ages h == oldest then h else g.blockH) g.blockH,
      false)

/-- Phase 3, one missed position. -/
def walkStep (st clock : ℤ) (w : Walk) (mi : ℤ) : Walk :=
  let tok := T.selected (request * g.k + mi)
  let page := tok / g.page
  let offset := tok % g.page
  let generation := T.generations (request * g.pages + page)
  let (slot, isHit) := claimSlot g w tok generation
  let claim : Bool := slot < g.h
  let hotPage := if claim then T.hotSlots (request * g.hotPages + (slot / g.page : ℕ)) else 0
  let fenced :=
    if g.hasFence then
      (if claim then T.fence hotPage else 0) == (if claim then T.expected hotPage else -1)
    else claim
  let ok := claim && fenced
  let isEvict := ok && !isHit
  let rowId := if ok then hotPage * g.page + (slot % g.page : ℕ) else -1
  let dst := hotPage * g.page + (slot % g.page : ℕ)
  { tags := fun h => if isEvict && h == slot then tok else w.tags h
    tagGenerations := fun h => if isEvict && h == slot then generation else w.tagGenerations h
    ages := fun h => if ok && h == slot then clock else w.ages h
    isProtected := fun h => w.isProtected h || (ok && h == slot)
    hitCount := w.hitCount + (ok && isHit).toNat
    missCount := w.missCount + isEvict.toNat
    errCount := w.errCount + (claim && !fenced).toNat
    fill :=
      if isEvict then
        update
          (update w.fill ((st * g.k + w.missCount) * 2)
            (T.backing (request * g.pages + page) * g.page + offset))
          ((st * g.k + w.missCount) * 2 + 1) dst
      else w.fill
    output := update w.output (st * g.k + mi) rowId }

/-- Phase 3: the worklist in order. -/
def walk (st clock : ℤ) (worklist : Buffer ℤ) (workcnt : ℕ) (w : Walk) : Walk :=
  (range workcnt).foldl (fun w (i : ℕ) => walkStep g T request st clock w (worklist (st * g.k + i))) w

end

section

variable {V : Type} (g : Geometry) (T : Tables) (host : Buffer V)

/-- Phase 5, one tile: copy the live fills, clear the others. -/
def copyChunk (layer st : ℤ) (missCount : ℕ) (s : Buffer ℤ × Buffer V) (c : ℕ) : Buffer ℤ × Buffer V :=
  let jv := fun l => c * g.fillChunk + l
  let live := fun l => decide (jv l < missCount)
  let dead := fun l => decide (missCount ≤ jv l) && decide (jv l < g.k)
  let src := fun l => if live l then s.1 ((st * g.k + jv l) * 2) else 0
  let dst := fun l => if live l then s.1 ((st * g.k + jv l) * 2 + 1) else 0
  let fill := storeLanes s.1 g.fillChunk dead (fun l => (st * g.k + jv l) * 2) fun _ => 0
  let fill := storeLanes fill g.fillChunk dead (fun l => (st * g.k + jv l) * 2 + 1) fun _ => 0
  let kv := (range g.fillChunk).foldl
    (fun kv l => storeLanes kv g.blockD (fun d => live l && d < g.width)
      (fun d => layer * g.gpuRows * g.width + dst l * g.width + d)
      fun d => host (layer * g.hostRows * g.width + src l * g.width + d)) s.2
  (fill, kv)

/-- Phase 5. -/
def copyPass (layer st : ℤ) (missCount : ℕ) (s : Buffer ℤ × Buffer V) : Buffer ℤ × Buffer V :=
  (range ((g.k + g.fillChunk - 1) / g.fillChunk)).foldl (copyChunk g host layer st missCount) s

/-! ## Programs -/

/-- The hot tier of a state as lanes, and the protected ones. -/
def loadWalk (request st : ℤ) (m : Mem V) (s : Selection) : Walk :=
  let tags := fun h : ℕ => if h < g.h then m.tags (st * g.h + h) else -1
  let tagGenerations := fun h : ℕ => if h < g.h then m.tagGenerations (st * g.h + h) else -1
  { tags := tags
    tagGenerations := tagGenerations
    ages := fun h => if h < g.h then m.ages (st * g.h + h) else 0
    isProtected := protectedLanes g T request st s.bitmap tags tagGenerations
    hitCount := 0
    missCount := 0
    errCount := s.errCount
    fill := m.fill
    output := s.output }

/-- A vector of lanes back into the state. -/
def storeState (st : ℤ) (buf : Buffer ℤ) (lanes : ℕ → ℤ) : Buffer ℤ :=
  storeLanes buf g.blockH (fun h => h < g.h) (fun h => st * g.h + h) lanes

def program (request layer : ℤ) (m : Mem V) : Mem V :=
  let st := layer * g.batch + request
  let s := select g T request st
    { bitmap := clearBitmap g st m.bitmap, output := m.output, worklist := m.worklist,
      residentCount := 0, errCount := 0, workcnt := 0 }
  let clock := m.clock st + 1
  let w := walk g T request st clock s.worklist s.workcnt (loadWalk g T request st m s)
  let (fill, kv) := copyPass g host layer st w.missCount (w.fill, m.kv)
  { kv := kv
    fill := fill
    tags := storeState g st m.tags w.tags
    tagGenerations := storeState g st m.tagGenerations w.tagGenerations
    ages := storeState g st m.ages w.ages
    clock := update m.clock st clock
    output := w.output
    counters := update
      (update (update m.counters (st * 3) s.residentCount) (st * 3 + 1) w.hitCount)
      (st * 3 + 2) w.missCount
    errors := update m.errors st w.errCount
    bitmap := s.bitmap
    worklist := s.worklist }

/-- Programs `(request, layer)` of the grid, one after the other. -/
def launch (order : List (ℤ × ℤ)) (m : Mem V) : Mem V :=
  order.foldl (fun m rl => program g T host rl.1 rl.2 m) m

end

/-! ## The oracle -/

section

variable (g : Geometry) (T : Tables) (b : ℤ)

/-- What the oracle's loop carries. -/
structure Reference where
  tags : ℕ → ℤ
  tagGenerations : ℕ → ℤ
  ages : ℕ → ℤ
  isProtected : ℕ → Bool
  resN : ℕ
  hitN : ℕ
  missN : ℕ
  errN : ℕ
  fills : ℕ → ℤ × ℤ
  output : ℕ → ℤ

/-- The tokens of the selection within the length. -/
def selValid : List ℤ :=
  ((range g.k).map fun i : ℕ => T.selected (b * g.k + i)).filter fun t => 0 ≤ t && t < T.lengths b

/-- The protect pre-pass. -/
def referenceProtected (tags tagGenerations : ℕ → ℤ) (h : ℕ) : Bool :=
  0 ≤ tags h && T.generations (b * g.pages + tags h / g.page) == tagGenerations h &&
    tags h ∈ selValid g T b

/-- The branch of a valid token without a resident page. -/
def referenceMiss (clock : ℤ) (i : ℕ) (tok : ℤ) (s : Reference) : Reference :=
  let pg := tok / g.page
  let off := tok % g.page
  let gen := T.generations (b * g.pages + pg)
  let hitIdx := (range g.h).find? fun h => s.tags h == tok && s.tagGenerations h == gen
  let slot :=
    match hitIdx with
    | some h => some h
    | none =>
      let oldest := vecMin (fun h => if !s.isProtected h then s.ages h else int64Max) g.h
      (range g.h).find? fun h => !s.isProtected h && s.ages h == oldest
  match slot with
  | none => { s with output := update s.output i (-1) }
  | some slot =>
    let hotPage := T.hotSlots (b * g.hotPages + (slot / g.page : ℕ))
    if g.hasFence && T.fence hotPage != T.expected hotPage then
      { s with errN := s.errN + 1, output := update s.output i (-1) }
    else
      let row := hotPage * g.page + (slot % g.page : ℕ)
      let s :=
        if hitIdx.isSome then { s with hitN := s.hitN + 1 }
        else
          { s with
            fills := update s.fills s.missN (T.backing (b * g.pages + pg) * g.page + off, row)
            missN := s.missN + 1
            tags := update s.tags slot tok
            tagGenerations := update s.tagGenerations slot gen }
      { s with
        isProtected := update s.isProtected slot true
        ages := update s.ages slot clock
        output := update s.output i row }

def referenceStep (clock : ℤ) (s : Reference) (i : ℕ) : Reference :=
  let tok := T.selected (b * g.k + i)
  if 0 ≤ tok ∧ tok < T.lengths b then
    let r := T.resident (b * g.pages + tok / g.page)
    if 0 ≤ r then
      { s with resN := s.resN + 1, output := update s.output i (r * g.page + tok % g.page) }
    else referenceMiss g T b clock i tok s
  else if g.allowPadding && tok == -1 then { s with output := update s.output i (-1) }
  else { s with errN := s.errN + 1, output := update s.output i (-1) }

/-- The oracle for request `b`, from the hot tier and the clock of its state. -/
def referenceRow (tags tagGenerations ages : ℕ → ℤ) (clock : ℤ) : Reference :=
  (range g.k).foldl (referenceStep g T b (clock + 1))
    { tags := tags, tagGenerations := tagGenerations, ages := ages,
      isProtected := referenceProtected g T b tags tagGenerations, resN := 0, hitN := 0, missN := 0,
      errN := 0, fills := fun _ => (0, 0), output := fun _ => -1 }

end

end VKernels.Dsa
