import Mathlib.Data.Rat.Defs
import VKernels.Lib.Interleaving

/-!
# The op-config cache

Model of `tuning/cache.py`: launch configs per operator, persisted in one JSON file per operator
and capability, shared by any number of processes.

* `Device`, `Key`, `Record`, `StoreFile` — the identity triple, the memo key, and what a file holds.

`json`, the clock and the bench blocks of the records are left out: no lookup reads them.
-/

namespace VKernels.Tuning

open Function (update)

structure Device where
  capability : Option String
  smCount : Option ℤ
  name : Option String
  deriving DecidableEq

/-- The statuses of records, and the two that never reach the store. -/
inductive Status where
  | tuned
  | seeded
  | default
  | off
  | capture
  deriving DecidableEq

/-- The key of `_MEMO`: what a config is resolved for. -/
structure Key where
  op : String
  device : Device
  source : String
  shapeClass : String
  deriving DecidableEq

structure Record (C : Type) where
  config : C
  status : Status
  timeMs : Option ℚ
  device : Device
  source : String
  origin : String

/-- The record map of a file, by shape class. -/
abbrev Records (C : Type) := String → Option (Record C)

/-- What is on disk: something foreign or unreadable, or a document of this schema. -/
inductive StoreFile (C : Type) where
  | foreign
  | doc (op : String) (device : Device) (records : Records C)

/-- The records of a file; an absent or foreign one has none. -/
def fileRecords {C : Type} : Option (StoreFile C) → Records C
  | some (.doc _ _ records) => records
  | some .foreign | none => fun _ => none

/-! ## Paths -/

section

variable (isalnum : Char → Bool)

/-- `_sanitize`; `isalnum` is Python's character test. -/
def sanitize (name : String) : String :=
  String.ofList (name.toList.map fun c => if isalnum c || c ∈ ['.', '_', '-'] then c else '-')

/-- `device.get("capability") or "unknown"`. -/
def Device.capabilityOrUnknown (device : Device) : String :=
  match device.capability with
  | none => "unknown"
  | some c => if c = "" then "unknown" else c

/-- `str(device.get("capability"))`. -/
def Device.capabilityStr (device : Device) : String := device.capability.getD "None"

/-- `_store_path`: the directory and the file name. -/
def storePath {Dir : Type} (op : String) (device : Device) (dir : Dir) : Dir × String :=
  (dir, sanitize isalnum op ++ "." ++ sanitize isalnum device.capabilityOrUnknown ++ ".json")

end

/-! ## Sweeps and seeds -/

/-- One candidate of a sweep: whether the budget was spent when its turn came, and its time, if the
bench gave a finite one. -/
structure Trial (C : Type) where
  config : C
  late : Bool
  ms : Option ℚ

/-- The loop over the candidates: the best so far, and whether the budget ran out. -/
def sweepLoop {C : Type} : List (Trial C) → Option (C × ℚ) → Option (C × ℚ) × Bool
  | [], winner => (winner, false)
  | t :: rest, winner =>
    if t.late then (winner, true)
    else
      match t.ms with
      | none => sweepLoop rest winner
      | some ms =>
        if ms ≤ 0 then sweepLoop rest winner
        else
          match winner with
          | none => sweepLoop rest (some (t.config, ms))
          | some (w, wms) => sweepLoop rest (if ms < wms then some (t.config, ms) else some (w, wms))

/-- A call of `op_config`. -/
structure Call (C Dir : Type) where
  key : Key
  default : C
  candidates : List (Trial C)
  hasBench : Bool
  dir : Dir
  off : Bool
  capturing : Bool

/-- What a sweep comes to: the config, its status and its time. -/
def tune {C Dir : Type} (call : Call C Dir) : C × Status × Option ℚ :=
  if call.candidates.isEmpty || !call.hasBench then (call.default, .default, none)
  else
    match sweepLoop call.candidates none with
    | (some (winner, ms), false) => (winner, .tuned, some ms)
    | _ => (call.default, .default, none)

structure Entry (C : Type) where
  config : C
  timeMs : Option ℚ
  origin : String

/-- A call of `seed`. -/
structure SeedCall (C Dir : Type) where
  op : String
  device : Device
  source : String
  entries : List (String × Entry C)
  dir : Dir
  off : Bool
  force : Bool

/-- Whether a class holds a tuned record. -/
def tunedAt {C : Type} (records : Records C) (c : String) : Bool :=
  (records c).any fun r => r.status = .tuned

/-- The record `seed` makes of an entry. -/
def SeedCall.record {C Dir : Type} (call : SeedCall C Dir) (e : Entry C) : Record C where
  config := e.config
  status := .seeded
  timeMs := e.timeMs
  device := call.device
  source := call.source
  origin := e.origin

/-- The loop of `seed` over the entries: tuned classes are passed over. -/
def seedLoop {C : Type} (force : Bool) (mk : Entry C → Record C) :
    List (String × Entry C) → Records C → List (String × Record C) → List (String × Record C)
  | [], _, landed => landed
  | (c, e) :: rest, records, landed =>
    if tunedAt records c && !force then seedLoop force mk rest records landed
    else seedLoop force mk rest (update records c (some (mk e))) (landed ++ [(c, mk e)])

/-- `merged.update(records)`. -/
def merge {C : Type} (disk : Records C) (landed : List (String × Record C)) : Records C :=
  landed.foldl (fun m cr => update m cr.1 (some cr.2)) disk

/-! ## Processes -/

/-- Why a call writes: `op_config` freezes the result for its key, `seed` forgets its operator. -/
inductive Purpose (C : Type) where
  | resolve (key : Key) (config : C) (status : Status)
  | seed (source : String) (force : Bool)

/-- A call that holds the lock of its process and has still to write. -/
structure Pending (C Dir : Type) where
  op : String
  device : Device
  dir : Dir
  landed : List (String × Record C)
  purpose : Purpose C

/-- One process: `_MEMO`, `_FILES` and the call that holds `_LOCK`. -/
structure Proc (C Dir : Type) where
  memo : Key → Option (C × Status)
  files : String × String × Dir × String → Option (Records C)
  pending : Option (Pending C Dir)

/-- The disk, the processes, and every config handed to `_write_records` with the key it was made
for. -/
structure State (P C Dir : Type) where
  disk : Dir × String → Option (StoreFile C)
  proc : P → Proc C Dir
  recorded : List (Key × C)

/-- What a process can do next. -/
inductive Action (P C Dir : Type) where
  | opConfig (p : P) (call : Call C Dir)
  | seed (p : P) (call : SeedCall C Dir)
  | write (p : P) (ok : Bool)
  | storedRecords (p : P) (op : String) (device : Device) (dir : Dir)
  | resetMemo (p : P) (op : Option String)

section

variable {P C Dir : Type} [DecidableEq P] [DecidableEq Dir] (isalnum : Char → Bool)

/-- The processes before anything was looked up. -/
def Proc.fresh : Proc C Dir where
  memo := fun _ => none
  files := fun _ => none
  pending := none

/-- Fresh processes over a given disk. -/
def init (disk : Dir × String → Option (StoreFile C)) : State P C Dir where
  disk := disk
  proc := fun _ => .fresh
  recorded := []

/-- The key of `_FILES`. -/
def fileKey (op : String) (device : Device) (dir : Dir) : String × String × Dir × String :=
  (op, device.capabilityStr, storePath isalnum op device dir)

/-- What `_load_records` returns to a process. -/
def view (s : State P C Dir) (p : P) (op : String) (device : Device) (dir : Dir) : Records C :=
  ((s.proc p).files (fileKey isalnum op device dir)).getD
    (fileRecords (s.disk (storePath isalnum op device dir)))

def State.setProc (s : State P C Dir) (p : P) (q : Proc C Dir) : State P C Dir :=
  { s with proc := update s.proc p q }

/-- `_load_records`, with the view kept in `_FILES`. -/
def load (s : State P C Dir) (p : P) (op : String) (device : Device) (dir : Dir) : State P C Dir :=
  s.setProc p { s.proc p with
    files := update (s.proc p).files (fileKey isalnum op device dir)
      (some (view isalnum s p op device dir)) }

/-- The store hit of `_resolve`: source, identity and status are checked again. -/
def storeHit (records : Records C) (key : Key) : Option (C × Status) :=
  match records key.shapeClass with
  | none => none
  | some r =>
    if r.source = key.source ∧ r.device = key.device ∧ r.status ∈ [.tuned, .seeded, .default] then
      some (r.config, r.status)
    else none

/-- What `op_config` serves without a sweep: the memo, else a valid record. -/
def serve (s : State P C Dir) (p : P) (key : Key) (dir : Dir) : Option (C × Status) :=
  ((s.proc p).memo key).or (storeHit (view isalnum s p key.op key.device dir) key)

def State.freeze (s : State P C Dir) (p : P) (key : Key) (r : C × Status) : State P C Dir :=
  s.setProc p { s.proc p with memo := update (s.proc p).memo key (some r) }

def State.await (s : State P C Dir) (p : P) (q : Pending C Dir) : State P C Dir :=
  s.setProc p { s.proc p with pending := some q }

/-- The write `_persist` asks for. -/
def Call.pending (call : Call C Dir) : Pending C Dir :=
  let (config, status, timeMs) := tune call
  { op := call.key.op
    device := call.key.device
    dir := call.dir
    landed := [(call.key.shapeClass,
      { config := config, status := status, timeMs := timeMs, device := call.key.device,
        source := call.key.source, origin := "op-config-tune" })]
    purpose := .resolve call.key config status }

/-- `op_config` up to its write. -/
def stepOpConfig (s : State P C Dir) (p : P) (call : Call C Dir) : Option (State P C Dir) :=
  match (s.proc p).memo call.key with
  | some _ => some s
  | none =>
    match (s.proc p).pending with
    | some _ => none
    | none =>
      if call.off then some (s.freeze p call.key (call.default, .off))
      else if call.capturing then some (s.freeze p call.key (call.default, .capture))
      else
        let s := load isalnum s p call.key.op call.key.device call.dir
        match storeHit (view isalnum s p call.key.op call.key.device call.dir) call.key with
        | some r => some (s.freeze p call.key r)
        | none => some (s.await p call.pending)

/-- `seed` up to its write. -/
def stepSeed (s : State P C Dir) (p : P) (call : SeedCall C Dir) : Option (State P C Dir) :=
  match (s.proc p).pending with
  | some _ => none
  | none =>
    if call.off then some s
    else
      let s := load isalnum s p call.op call.device call.dir
      let landed := seedLoop call.force call.record call.entries
        (view isalnum s p call.op call.device call.dir) []
      if landed = [] then some s
      else
        some (s.await p
          { op := call.op, device := call.device, dir := call.dir, landed := landed,
            purpose := .seed call.source call.force })

/-- `reset_memo`. -/
def resetMemo (memo : Key → Option (C × Status)) (op : Option String) : Key → Option (C × Status) :=
  fun key => if op.all (key.op = ·) then none else memo key

def State.setFile (s : State P C Dir) (path : Dir × String) (f : StoreFile C) : State P C Dir :=
  { s with disk := update s.disk path (some f) }

/-- The transaction of `_write_records`: merge with what is on disk now, replace, refresh the view. -/
def commit (s : State P C Dir) (p : P) (q : Pending C Dir) : State P C Dir :=
  let path := storePath isalnum q.op q.device q.dir
  let merged := merge (fileRecords (s.disk path)) q.landed
  (s.setFile path (.doc q.op q.device merged)).setProc p { s.proc p with
    files := update (s.proc p).files (fileKey isalnum q.op q.device q.dir) (some merged) }

/-- The keys and configs a write is about. -/
def Pending.entries (q : Pending C Dir) : List (Key × C) :=
  q.landed.map fun cr => (⟨q.op, q.device, cr.2.source, cr.1⟩, cr.2.config)

def State.record (s : State P C Dir) (entries : List (Key × C)) : State P C Dir :=
  { s with recorded := s.recorded ++ entries }

/-- What the call does once it has written, or failed to. -/
def settle (s : State P C Dir) (p : P) (q : Pending C Dir) (ok : Bool) : State P C Dir :=
  s.setProc p
    { s.proc p with
      pending := none
      memo :=
        match q.purpose with
        | .resolve key config status => update (s.proc p).memo key (some (config, status))
        | .seed _ _ => if ok then resetMemo (s.proc p).memo (some q.op) else (s.proc p).memo }

/-- The rest of a call: the write, which may fail, and the memo. -/
def stepWrite (s : State P C Dir) (p : P) (ok : Bool) : Option (State P C Dir) :=
  match (s.proc p).pending with
  | none => none
  | some q =>
    let s := s.record q.entries
    some (settle (if ok then commit isalnum s p q else s) p q ok)

def step : Action P C Dir → State P C Dir → Option (State P C Dir)
  | .opConfig p call, s => stepOpConfig isalnum s p call
  | .seed p call, s => stepSeed isalnum s p call
  | .write p ok, s => stepWrite isalnum s p ok
  | .storedRecords p op device dir, s => some (load isalnum s p op device dir)
  | .resetMemo p op, s =>
    match (s.proc p).pending with
    | some _ => none
    | none => some (s.setProc p { s.proc p with memo := resetMemo (s.proc p).memo op })

end

end VKernels.Tuning
