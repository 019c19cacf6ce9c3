import Mathlib.Algebra.Order.Ring.Unbundled.Rat
import Mathlib.Data.List.MinMax
import VKernels.Lib.FloatValues
import VKernels.Tuning.OpConfig
import VKernels.Tuning.TuningCache

/-!
# A first `op_config` call

`op_config` of `tuning/cache.py` for a key that is not in the memo, down to `_load_records` and `_write_records`, over any
content of the store file, any bench outcomes and any readings of the clock.  The file may change between its two reads.
The times and the bench block of a record are left out: no lookup reads them.

* `Call.opConfig` — what the call returns, the candidates it starts and the document it writes.
* `Resolved` — the five ways to come to a config; `Sound` — the calls that meet no other exception than those caught.

## Results

* `op_config_resilient_iff` — a call resolves exactly where it is sound.
-/

namespace VKernels.OpCache

open List
open TextLines
open TileLookup (Json)
open Tuning (Status Trial sweepLoop)

/-! ## The call -/

/-- A serialisable config, and any dictionary of a JSON text. -/
abbrev Config := List (Text × Json)

/-- What `json.loads(path.read_text())` comes to: `OSError` or `ValueError`; `RecursionError`, or the same when the records
are written again; or a value. -/
inductive Content where
  | absent
  | unreadable
  | tooDeep
  | value (doc : Json)

/-- How far `_write_records` comes: an `OSError` before the file is read again, before the temporary file is open, or
before it replaces the file. -/
inductive Progress where
  | unlocked
  | noTemp
  | notReplaced
  | replaced
  deriving DecidableEq

/-- What `float(bench(cand))` comes to; `except Exception` prunes the second. -/
inductive Bench where
  | ms (value : Fp ℚ)
  | raised

structure Device where
  capability : Option Text
  smCount : Option ℕ
  name : Option Text
  /-- the entries that are no identity -/
  other : Config

/-- `limit` is what `tune_budget` returns, `viewed` the entry of `_FILES`. -/
structure Call where
  op : Text
  shapeClass : Text
  source : Text
  device : Device
  default : Config
  candidates : List (Config × Bench)
  hasBench : Bool
  limit : Fp ℚ
  clock : ℕ → ℚ
  enabled : Bool
  capturing : Bool
  viewed : Option Config
  store : Content
  reread : Content
  progress : Progress

/-- `none` where the call raises. -/
structure Outcome where
  result : Option (Config × Status)
  started : List Config
  written : Option Json

def schemaName : Text := "vk-op-config-cache/1".toList

/-- `doc.get("schema") == SCHEMA`. -/
def isSchema (doc : Config) : Bool := ((doc.lookup "schema".toList).getD .null).isText schemaName

/-- `value or {}`, whose `get` is called. -/
def orEmpty (value : Json) : Option Config :=
  if value.truthy then
    match value with
    | .obj items => some items
    | _ => none
  else some []

/-- `value.get(key) == expected`. -/
def sameField {A : Type} (test : A → Json → Bool) : Option A → Option Json → Bool
  | some expected, some value => test expected value
  | none, none | none, some .null => true
  | _, _ => false

/-- `_identity_key(record) == _identity_key(device)`. -/
def Device.same (d : Device) (record : Config) : Bool :=
  sameField Json.isText d.capability (record.lookup "capability".toList) &&
    sameField Json.isNat d.smCount (record.lookup "sm_count".toList) &&
    sameField Json.isText d.name (record.lookup "name".toList)

def Device.identity (d : Device) : Config :=
  [("capability".toList, (d.capability.map Json.str).getD .null),
    ("sm_count".toList, (d.smCount.map fun n => Json.int n).getD .null),
    ("name".toList, (d.name.map Json.str).getD .null)]

def statusText : Status → Text
  | .tuned => "tuned".toList
  | .seeded => "seeded".toList
  | .default => "default".toList
  | .off => "off".toList
  | .capture => "capture".toList

/-- The status that a record can carry. -/
def statusOf (value : Option Json) : Option Status :=
  [Status.tuned, .seeded, .default].find? fun status => (value.getD .null).isText (statusText status)

/-- The two items of an element that `dict` takes. -/
def pairOf : Json → Option (Json × Json)
  | .arr [key, value] => some (key, value)
  | .str [a, b] => some (.str [a], .str [b])
  | .obj [(a, _), (b, _)] => some (.str a, .str b)
  | _ => none

def hashable : Json → Bool
  | .arr _ | .obj _ => false
  | _ => true

/-- `dict(value)`, item by item. -/
def dictOf : Json → Option (List (Json × Json))
  | .obj items => some (items.map fun item => (.str item.1, item.2))
  | .arr xs => xs.mapM fun x => (pairOf x).filter (hashable ·.1)
  | _ => none

/-- An item with a text for a key: `sort_keys` compares every key with one. -/
def textKey : Json × Json → Option (Text × Json)
  | (.str key, value) => some (key, value)
  | _ => none

namespace Call

variable (c : Call)

/-- `_load_records`. -/
def loadRecords : Option Config :=
  match c.viewed with
  | some records => some records
  | none => match c.store with
    | .absent | .unreadable => some []
    | .tooDeep => none
    | .value (.obj doc) => match isSchema doc, doc.lookup "records".toList with
      | true, some (.obj records) => some records
      | _, _ => some []
    | .value _ => none

/-- The store hit of `_resolve`, over the record of the shape class. -/
def storeHit : Option Json → Option (Option (Config × Status))
  | none | some .null => some none
  | some (.obj record) =>
    if ((record.lookup "source".toList).getD .null).isText c.source then
      (orEmpty ((record.lookup "device".toList).getD .null)).map fun device =>
        match c.device.same device, statusOf (record.lookup "status".toList), record.lookup "config".toList with
        | true, some status, some (.obj config) => some (config, status)
        | _, _, _ => none
    else some none
  | some _ => none

/-- The disk state that `_write_records` merges with. -/
def diskRecords : Option (List (Json × Json)) :=
  match c.reread with
  | .absent | .unreadable => some []
  | .tooDeep => none
  | .value (.obj doc) =>
    let records := (doc.lookup "records".toList).getD .null
    if isSchema doc && records.truthy then dictOf records else some []
  | .value _ => none

def storeDoc (records : Config) : Json :=
  .obj [("schema".toList, .str schemaName), ("op".toList, .str c.op),
    ("device".toList, .obj (c.device.identity ++ c.device.other)), ("records".toList, .obj records)]

/-- `_write_records`: what it leaves in the file. -/
def writeRecords (record : Json) : Option (Option Json) :=
  if c.progress = .unlocked then some none
  else c.diskRecords.bind fun disk =>
    if c.progress = .noTemp then some none
    else (disk.mapM textKey).map fun disk =>
      let merged := Json.setItem (disk.foldl (fun d item => Json.setItem d item.1 item.2) []) c.shapeClass record
      if c.progress = .replaced then some (c.storeDoc merged) else none

/-- `_persist` and the return after it. -/
def persist (started : List Config) (config : Config) (status : Status) (timeMs : Option ℚ) : Outcome :=
  let record := .obj [("config".toList, .obj config), ("status".toList, .str (statusText status)),
    ("time_ms".toList, (timeMs.map Json.float).getD .null), ("device".toList, .obj c.device.identity),
    ("source".toList, .str c.source), ("origin".toList, .str "op-config-tune".toList)]
  match c.writeRecords record with
  | none => ⟨none, started, none⟩
  | some written => ⟨some (config, status), started, written⟩

/-- The budget is spent at the turn of candidate `i`. -/
def spent (i : ℕ) : Bool :=
  match c.limit with
  | .fin limit => limit ≤ (c.clock (i + 1) - c.clock 0) * 1000
  | .negInf => true
  | .nan | .posInf => false

def trials : List (Trial Config) :=
  c.candidates.zipIdx.map fun (cand, i) =>
    { config := cand.1
      late := c.spent i
      ms := match cand.2 with
        | .ms (.fin ms) => some ms
        | _ => none }

/-- `_resolve` past the store hit. -/
def tuneOnMiss : Outcome :=
  if c.candidates.isEmpty || !c.hasBench then c.persist [] c.default .default none
  else
    let started := (c.trials.takeWhile fun trial => !trial.late).map Trial.config
    match sweepLoop c.trials none with
    | (some (winner, ms), false) => c.persist started winner .tuned (some ms)
    | _ => c.persist started c.default .default none

def opConfig : Outcome :=
  if !c.enabled then ⟨some (c.default, .off), [], none⟩
  else if c.capturing then ⟨some (c.default, .capture), [], none⟩
  else match c.loadRecords with
    | none => ⟨none, [], none⟩
    | some records => match c.storeHit (records.lookup c.shapeClass) with
      | none => ⟨none, [], none⟩
      | some (some hit) => ⟨some hit, [], none⟩
      | some none => c.tuneOnMiss

end Call

/-! ## What is promised -/

section

variable (c : Call)

/-- The stored records: what the process has seen, else what a file of this schema holds. -/
inductive Stored : Config → Prop
  | viewed {records : Config} (h : c.viewed = some records) : Stored records
  | file {doc records : Config} (h : c.viewed = none) (hstore : c.store = .value (.obj doc)) (hschema : isSchema doc = true)
      (hrecords : doc.lookup "records".toList = some (.obj records)) : Stored records

/-- A stored record for this shape class whose source and device match. -/
def StoredAs (config : Config) (status : Status) : Prop :=
  ∃ records record device, Stored c records ∧ records.lookup c.shapeClass = some (.obj record) ∧
    ((record.lookup "source".toList).getD .null).isText c.source = true ∧
    orEmpty ((record.lookup "device".toList).getD .null) = some device ∧ c.device.same device = true ∧
    statusOf (record.lookup "status".toList) = some status ∧ record.lookup "config".toList = some (.obj config)

/-- The candidates with a finite positive time. -/
def Call.times : List (Config × ℚ) :=
  c.candidates.filterMap fun cand =>
    match cand.2 with
    | .ms (.fin ms) => if 0 < ms then some (cand.1, ms) else none
    | _ => none

/-- What a call may come to; only the last two start candidates or write. -/
inductive Resolved : Outcome → Prop
  | off (h : c.enabled = false) : Resolved ⟨some (c.default, .off), [], none⟩
  | capture (h : c.enabled = true) (hcapturing : c.capturing = true) : Resolved ⟨some (c.default, .capture), [], none⟩
  | stored {config : Config} {status : Status} (h : c.enabled = true) (hcapturing : c.capturing = false)
      (hstored : StoredAs c config status) : Resolved ⟨some (config, status), [], none⟩
  | fallback {started : List Config} {written : Option Json} (h : c.enabled = true) (hcapturing : c.capturing = false)
      (hmiss : ∀ config status, ¬StoredAs c config status)
      (hnone : c.hasBench = false ∨ (∃ i < c.candidates.length, c.spent i = true) ∨ c.times = []) :
      Resolved ⟨some (c.default, .default), started, written⟩
  | tuned {config : Config} {ms : ℚ} {written : Option Json} (h : c.enabled = true) (hcapturing : c.capturing = false)
      (hmiss : ∀ config status, ¬StoredAs c config status) (hbench : c.hasBench = true)
      (hbudget : ∀ i < c.candidates.length, c.spent i = false) (hbest : c.times.argmin Prod.snd = some (config, ms)) :
      Resolved ⟨some (config, .tuned), c.candidates.map Prod.fst, written⟩

/-! ## Sound calls -/

/-- The first read of the file gives no value that is not a dictionary. -/
def Loadable : Prop :=
  c.viewed.isSome ∨ c.store = .absent ∨ c.store = .unreadable ∨ ∃ doc, c.store = .value (.obj doc)

/-- The entries of the shape class that a call can look into. -/
inductive Examinable : Option Json → Prop
  | missing : Examinable none
  | null : Examinable (some .null)
  | record {record : Config} (h : ((record.lookup "source".toList).getD .null).isText c.source = true →
      (orEmpty ((record.lookup "device".toList).getD .null)).isSome) : Examinable (some (.obj record))

/-- A key of the records that the write bears: without a temporary file they are not sorted. -/
def KeyOk (key : Json) : Prop := if c.progress = .noTemp then hashable key = true else ∃ text, key = .str text

/-- The second read gives records that a record can be added to, and that can be written in the order of their keys. -/
inductive Mergeable : Prop
  | unlocked (h : c.progress = .unlocked)
  | noFile (h : c.reread = .absent ∨ c.reread = .unreadable)
  | noRecords {doc : Config} (h : c.reread = .value (.obj doc))
      (hnone : (isSchema doc && ((doc.lookup "records".toList).getD .null).truthy) = false)
  | records {doc records : Config} (h : c.reread = .value (.obj doc))
      (hrecords : doc.lookup "records".toList = some (.obj records))
  | pairs {doc : Config} {xs : List Json} (h : c.reread = .value (.obj doc))
      (hrecords : doc.lookup "records".toList = some (.arr xs)) (hpairs : ∀ x ∈ xs, ∃ key value,
        pairOf x = some (key, value) ∧ KeyOk c key)

/-- The calls that meet no exception but those that are caught. -/
def Sound : Prop :=
  c.enabled = false ∨ c.capturing = true ∨
    Loadable c ∧ (∀ records, Stored c records → Examinable c (records.lookup c.shapeClass)) ∧
      ((∃ config status, StoredAs c config status) ∨ Mergeable c)

end

/-! ## The sweep -/

section

variable {C : Type}

def timed (t : Trial C) : Option (C × ℚ) := t.ms.bind fun ms => if 0 < ms then some (t.config, ms) else none

/-- A sweep within the budget keeps the first of the least times. -/
lemma sweepLoop_eq {trials : List (Trial C)} (winner : Option (C × ℚ)) (h : ∀ t ∈ trials, t.late = false) :
    sweepLoop trials winner = ((trials.filterMap timed).foldl (argAux fun b c => b.2 < c.2) winner, false) := by
  induction trials generalizing winner with
  | nil => rfl
  | cons t rest ih =>
    have hlate : t.late = false := h t mem_cons_self
    have hrest := fun winner => ih winner fun t ht => h t (mem_cons_of_mem _ ht)
    rw [sweepLoop, hlate, if_neg Bool.false_ne_true, filterMap_cons]
    cases hms : t.ms with
    | none =>
      rw [show timed t = none by simp [timed, hms]]
      exact hrest winner
    | some ms =>
      by_cases hle : ms ≤ 0
      · rw [show timed t = none by simp [timed, hms, not_lt.mpr hle]]
        simp only [if_pos hle]
        exact hrest winner
      · rw [show timed t = some (t.config, ms) by simp [timed, hms, not_le.mp hle]]
        simp only [if_neg hle, foldl_cons]
        cases winner <;> exact hrest _

lemma sweepLoop_late {trials : List (Trial C)} (winner : Option (C × ℚ)) (h : ∃ t ∈ trials, t.late = true) :
    (sweepLoop trials winner).2 = true := by
  induction trials generalizing winner with
  | nil => exact absurd h (by simp)
  | cons t rest ih =>
    unfold sweepLoop
    cases hlate : t.late with
    | true => rfl
    | false =>
      have hrest : ∃ t ∈ rest, t.late = true := by simpa [hlate] using h
      rw [if_neg Bool.false_ne_true]
      split
      · exact ih _ hrest
      · split
        · exact ih _ hrest
        · split <;> exact ih _ hrest

end

section

variable {c : Call}

lemma exists_late_iff : (∃ t ∈ c.trials, t.late = true) ↔ ∃ i < c.candidates.length, c.spent i = true := by
  constructor
  · rintro ⟨t, ht, hlate⟩
    obtain ⟨⟨_, i⟩, hmem, rfl⟩ := mem_map.mp ht
    exact ⟨i, (mem_zipIdx' hmem).1, hlate⟩
  · rintro ⟨i, hi, hspent⟩
    exact ⟨_, mem_map_of_mem (mk_mem_zipIdx_iff_getElem?.mpr (getElem?_eq_getElem hi)), hspent⟩

lemma filterMap_timed : c.trials.filterMap timed = c.times := by
  unfold Call.trials Call.times
  conv_rhs => rw [← zipIdx_map_fst 0 c.candidates, filterMap_map]
  rw [filterMap_map]
  refine filterMap_congr fun x _ => ?_
  obtain ⟨⟨_, bench⟩, i⟩ := x
  rcases bench with (_ | _ | _ | _) | _ <;> rfl

lemma started_all (h : ∀ t ∈ c.trials, t.late = false) :
    (c.trials.takeWhile fun trial => !trial.late).map Trial.config = c.candidates.map Prod.fst := by
  rw [takeWhile_eq_self_iff.mpr fun t ht => by rw [h t ht]; rfl]
  unfold Call.trials
  conv_rhs => rw [← zipIdx_map_fst 0 c.candidates]
  rw [map_map, map_map]
  rfl

/-! ## Where a call raises -/

lemma loads_of_stored {records : Config} (h : Stored c records) : c.loadRecords = some records := by
  unfold Call.loadRecords
  cases h with
  | viewed h => rw [h]
  | file h hstore hschema hrecords =>
    rw [h, hstore]
    simp only [hschema, hrecords]

lemma loadRecords_isSome_iff : c.loadRecords.isSome ↔ Loadable c := by
  unfold Call.loadRecords Loadable
  cases c.viewed with
  | some records => simp
  | none =>
    rcases c.store with _ | _ | _ | doc
    · simp
    · simp
    · simp
    · cases doc with
      | obj doc =>
        simp only [Content.value.injEq, Json.obj.injEq, exists_eq', or_true, iff_true]
        split <;> rfl
      | _ => simp

lemma stored_of_loads {records : Config} (h : c.loadRecords = some records) : records = [] ∨ Stored c records := by
  unfold Call.loadRecords at h
  cases hviewed : c.viewed with
  | some viewed =>
    rw [hviewed] at h
    cases h
    exact .inr (.viewed hviewed)
  | none =>
    rw [hviewed] at h
    dsimp only at h
    split at h
    · cases h
      exact .inl rfl
    · cases h
      exact .inl rfl
    · cases h
    · next _ hstore =>
      split at h
      · next hschema hrecords =>
        cases h
        exact .inr (.file hviewed hstore hschema hrecords)
      · cases h
        exact .inl rfl
    · cases h

lemma storeHit_isSome_iff {entry : Option Json} : (c.storeHit entry).isSome ↔ Examinable c entry := by
  unfold Call.storeHit
  split
  · exact ⟨fun _ => .missing, fun _ => rfl⟩
  · exact ⟨fun _ => .null, fun _ => rfl⟩
  · next record =>
    split
    · next hsource =>
      rw [Option.isSome_map]
      exact ⟨fun h => .record fun _ => h, fun | .record h => h hsource⟩
    · next hsource => exact ⟨fun _ => .record fun h => absurd h hsource, fun _ => rfl⟩
  · next _ hnull hobj =>
    refine ⟨fun h => (nomatch h), fun h => ?_⟩
    cases h with
    | null => exact absurd rfl hnull
    | record => exact absurd rfl (hobj _)

lemma storedAs_iff {records config : Config} {status : Status} (h : c.loadRecords = some records) :
    StoredAs c config status ↔ c.storeHit (records.lookup c.shapeClass) = some (some (config, status)) := by
  constructor
  · rintro ⟨records', record, device, hstored, hentry, hsource, hdevice, hsame, hstatus, hconfig⟩
    obtain rfl : records' = records := Option.some.inj ((loads_of_stored hstored).symm.trans h)
    rw [hentry]
    simp only [Call.storeHit, hsource, if_true, hdevice, Option.map_some, hsame, hstatus, hconfig]
  · intro hhit
    unfold Call.storeHit at hhit
    split at hhit
    · cases hhit
    · cases hhit
    · next record hentry =>
      split at hhit
      · next hsource =>
        obtain ⟨device, hdevice, hhit⟩ := Option.map_eq_some_iff.mp hhit
        split at hhit
        · next hsame hstatus hconfig =>
          cases hhit
          have hstored : Stored c records := (stored_of_loads h).resolve_left fun hnil => by
            rw [hnil] at hentry
            cases hentry
          exact ⟨records, record, device, hstored, hentry, hsource, hdevice, hsame, hstatus, hconfig⟩
        · cases hhit
      · cases hhit
    · cases hhit

lemma mapM_isSome {A B : Type} {f : A → Option B} {xs : List A} :
    (xs.mapM f).isSome ↔ ∀ x ∈ xs, (f x).isSome := by
  induction xs with
  | nil => simp
  | cons x xs ih =>
    rw [forall_mem_cons, ← ih, mapM_cons]
    cases f x <;> cases xs.mapM f <;> simp

lemma mapM_bind_isSome {A B D : Type} {f : A → Option B} {g : B → Option D} {xs : List A} :
    ((xs.mapM f).bind fun ys => ys.mapM g).isSome ↔ ∀ x ∈ xs, ((f x).bind g).isSome := by
  induction xs with
  | nil => simp
  | cons x xs ih =>
    rw [forall_mem_cons, ← ih, mapM_cons]
    cases f x with
    | none => simp
    | some y =>
      cases xs.mapM f with
      | none => simp
      | some ys => cases hg : g y <;> cases hys : ys.mapM g <;> simp [mapM_cons, hg, hys]

lemma KeyOk.hashable {key : Json} (h : KeyOk c key) : hashable key = true := by
  unfold KeyOk at h
  split at h
  · exact h
  · obtain ⟨_, rfl⟩ := h
    rfl

lemma keyOk_str (text : Text) : KeyOk c (.str text) := by
  unfold KeyOk
  split
  · rfl
  · exact ⟨text, rfl⟩

/-- Reading the records again and going through their items, by what the items bear. -/
lemma merge_isSome_iff {D : Type} {g : Json × Json → Option D} (hlocked : c.progress ≠ .unlocked)
    (hg : ∀ key value, hashable key = true → ((g (key, value)).isSome ↔ KeyOk c key)) :
    (c.diskRecords.bind fun items => items.mapM g).isSome ↔ Mergeable c := by
  have hpair (x : Json) : (((pairOf x).filter (OpCache.hashable ·.1)).bind g).isSome ↔
      ∃ key value, pairOf x = some (key, value) ∧ KeyOk c key := by
    cases pairOf x with
    | none => simp
    | some item =>
      obtain ⟨key, value⟩ := item
      cases hkey : OpCache.hashable key with
      | false => simpa [Option.filter, hkey] using fun h : KeyOk c key => by simp [h.hashable] at hkey
      | true => simpa [Option.filter, hkey] using hg key value hkey
  unfold Call.diskRecords
  constructor
  · intro h
    split at h
    · next hreread => exact .noFile (.inl hreread)
    · next hreread => exact .noFile (.inr hreread)
    · cases h
    · next doc hreread =>
      dsimp only at h
      cases hnone : isSchema doc && ((doc.lookup "records".toList).getD .null).truthy with
      | false => exact .noRecords hreread hnone
      | true =>
        rw [hnone, if_pos rfl] at h
        cases hrecords : doc.lookup "records".toList with
        | none =>
          rw [hrecords] at h
          cases h
        | some value =>
          rw [hrecords] at h
          cases value with
          | obj records => exact .records hreread hrecords
          | arr xs => exact .pairs hreread hrecords fun x hx => (hpair x).mp (mapM_bind_isSome.mp h x hx)
          | _ => cases h
    · cases h
  · rintro (h | h | ⟨h, hnone⟩ | ⟨h, hrecords⟩ | ⟨h, hrecords, hpairs⟩)
    · exact absurd h hlocked
    · rcases h with h | h <;> rw [h] <;> rfl
    · rw [h]
      dsimp only
      rw [hnone]
      rfl
    · rw [h]
      dsimp only
      split
      · rw [hrecords]
        refine mapM_isSome.mpr fun item hitem => ?_
        obtain ⟨⟨text, _⟩, -, rfl⟩ := mem_map.mp hitem
        exact (hg _ _ rfl).mpr (keyOk_str text)
      · rfl
    · rw [h]
      dsimp only
      split
      · rw [hrecords]
        exact mapM_bind_isSome.mpr fun x hx => (hpair x).mpr (hpairs x hx)
      · rfl

lemma writeRecords_isSome_iff {record : Json} : (c.writeRecords record).isSome ↔ Mergeable c := by
  unfold Call.writeRecords
  by_cases hlocked : c.progress = .unlocked
  · rw [if_pos hlocked]
    exact ⟨fun _ => .unlocked hlocked, fun _ => rfl⟩
  · rw [if_neg hlocked]
    by_cases hnoTemp : c.progress = .noTemp
    · rw [← merge_isSome_iff (g := some) hlocked fun key value hkey => by simp [KeyOk, hnoTemp, hkey]]
      cases c.diskRecords <;> simp [hnoTemp, mapM_isSome]
    · rw [← merge_isSome_iff (g := textKey) hlocked fun key value hkey => by
        simp only [KeyOk, if_neg hnoTemp]
        cases key <;> simp [textKey]]
      cases c.diskRecords <;> simp [hnoTemp]

variable (c) in
lemma persist_cases (started : List Config) (config : Config) (status : Status) (timeMs : Option ℚ) :
    (Mergeable c ∧ ∃ written, c.persist started config status timeMs = ⟨some (config, status), started, written⟩) ∨
      (¬Mergeable c ∧ c.persist started config status timeMs = ⟨none, started, none⟩) := by
  unfold Call.persist
  dsimp only
  split
  · next hwrite =>
    exact .inr ⟨fun hmerge => Option.not_isSome_iff_eq_none.mpr hwrite (writeRecords_isSome_iff.mpr hmerge), rfl⟩
  · next written hwrite => exact .inl ⟨writeRecords_isSome_iff.mp (by rw [hwrite]; rfl), written, rfl⟩

/-- **A sweep** whose result can be written ends in the default or in the first of the least times. -/
theorem tuneOnMiss_resolved (h : c.enabled = true) (hcapturing : c.capturing = false)
    (hmiss : ∀ config status, ¬StoredAs c config status) (hmerge : Mergeable c) : Resolved c c.tuneOnMiss := by
  have hpersist := fun started config status timeMs =>
    ((persist_cases c started config status timeMs).resolve_right fun h => h.1 hmerge).2
  unfold Call.tuneOnMiss
  split
  · next hspace =>
    obtain ⟨written, heq⟩ := hpersist [] c.default .default none
    rw [heq]
    refine .fallback h hcapturing hmiss ?_
    rcases Bool.or_eq_true_iff.mp hspace with hempty | hbench
    · refine .inr (.inr ?_)
      rw [Call.times, isEmpty_iff.mp hempty, filterMap_nil]
    · exact .inl (by simpa using hbench)
  · next hspace =>
    have hbench : c.hasBench = true := by simp at hspace; exact hspace.2
    by_cases hlate : ∃ t ∈ c.trials, t.late = true
    · have hexhausted := sweepLoop_late none hlate
      split
      · next hsweep =>
        rw [hsweep] at hexhausted
        cases hexhausted
      · obtain ⟨written, heq⟩ := hpersist _ c.default .default none
        rw [heq]
        exact .fallback h hcapturing hmiss (.inr (.inl (exists_late_iff.mp hlate)))
    · have hbudget : ∀ t ∈ c.trials, t.late = false := fun t ht => by
        cases ht' : t.late with
        | false => rfl
        | true => exact absurd ⟨t, ht, ht'⟩ hlate
      have hsweep : sweepLoop c.trials none = (c.times.argmin Prod.snd, false) := by
        rw [sweepLoop_eq none hbudget, filterMap_timed]
        rfl
      dsimp only
      rw [hsweep]
      cases hbest : c.times.argmin Prod.snd with
      | none =>
        obtain ⟨written, heq⟩ := hpersist _ c.default .default none
        rw [heq]
        exact .fallback h hcapturing hmiss (.inr (.inr (argmin_eq_none.mp hbest)))
      | some best =>
        obtain ⟨winner, ms⟩ := best
        obtain ⟨_, heq⟩ := hpersist _ winner .tuned _
        dsimp only
        rw [heq, started_all hbudget]
        refine .tuned h hcapturing hmiss hbench (fun i hi => ?_) hbest
        cases hspent : c.spent i with
        | false => rfl
        | true => exact absurd (exists_late_iff.mpr ⟨i, hi, hspent⟩) hlate

lemma tuneOnMiss_isSome (h : c.tuneOnMiss.result.isSome) : Mergeable c := by
  by_contra hmerge
  have hpersist := fun started config status timeMs =>
    ((persist_cases c started config status timeMs).resolve_left fun h => hmerge h.1).2
  unfold Call.tuneOnMiss at h
  simp only [hpersist] at h
  split at h
  · cases h
  · split at h <;> cases h

/-- **Resolution is resilient** exactly for sound calls: the call returns, and what it returns is one of the five. -/
theorem op_config_resilient_iff (c : Call) : Resolved c c.opConfig ↔ Sound c := by
  have hreturns (o : Outcome) (h : Resolved c o) : o.result.isSome := by cases h <;> rfl
  unfold Sound Call.opConfig
  cases henabled : c.enabled with
  | false => exact ⟨fun _ => .inl rfl, fun _ => .off henabled⟩
  | true =>
    cases hcapturing : c.capturing with
    | true => exact ⟨fun _ => .inr (.inl rfl), fun _ => .capture henabled hcapturing⟩
    | false =>
      simp only [Bool.not_true, Bool.false_eq_true, if_false, reduceCtorEq, false_or]
      cases hload : c.loadRecords with
      | none =>
        refine ⟨fun h => absurd (hreturns _ h) (by simp), fun h => ?_⟩
        have hsome := loadRecords_isSome_iff.mpr h.1
        rw [hload] at hsome
        cases hsome
      | some records =>
        have hloadable : Loadable c := loadRecords_isSome_iff.mp (by rw [hload]; rfl)
        have hentry : (∀ records, Stored c records → Examinable c (records.lookup c.shapeClass)) ↔
            Examinable c (records.lookup c.shapeClass) := by
          constructor
          · intro hall
            rcases stored_of_loads hload with rfl | hstored
            · exact .missing
            · exact hall records hstored
          · intro h records' hstored
            obtain rfl : records' = records := Option.some.inj ((loads_of_stored hstored).symm.trans hload)
            exact h
        simp only [hloadable, true_and, hentry, storedAs_iff hload]
        rw [← storeHit_isSome_iff]
        cases hhit : c.storeHit (records.lookup c.shapeClass) with
        | none => exact ⟨fun h => absurd (hreturns _ h) (by simp), fun h => by cases h.1⟩
        | some hit =>
          cases hit with
          | some found =>
            obtain ⟨config, status⟩ := found
            refine ⟨fun _ => ⟨rfl, .inl ⟨config, status, rfl⟩⟩, fun _ => ?_⟩
            exact .stored henabled hcapturing ((storedAs_iff hload).mpr hhit)
          | none =>
            have hmiss : ∀ config status, ¬StoredAs c config status := fun config status h => by
              rw [storedAs_iff hload, hhit] at h
              cases h
            refine ⟨fun h => ⟨rfl, .inr (tuneOnMiss_isSome (hreturns _ h))⟩, fun h => ?_⟩
            exact tuneOnMiss_resolved henabled hcapturing hmiss (h.2.resolve_left (by simp))

/-- A call without candidates over a store file. -/
def bareCall (store : Json) : Call :=
  ⟨[], [], [], ⟨none, none, none, []⟩, [], [], false, .fin 2000, fun _ => 0, true, false, none, .value store, .value store,
    .replaced⟩

/-- A list in place of the document raises at the lookup, a list of numbers in place of the records at the write. -/
theorem op_config_list_raises : ¬Resolved (bareCall (.arr [])) (bareCall (.arr [])).opConfig ∧
    ¬Resolved (bareCall (.obj [("schema".toList, .str schemaName), ("records".toList, .arr [.int 1])]))
      (bareCall (.obj [("schema".toList, .str schemaName), ("records".toList, .arr [.int 1])])).opConfig := by
  constructor <;> intro h <;> cases h

end

end VKernels.OpCache
