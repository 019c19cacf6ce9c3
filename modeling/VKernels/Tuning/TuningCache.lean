import VKernels.Tuning.TileCaches

/-!
# The tuning cache

`_load`, `lookup` and `record` of `TuningCache` of `torch_ops/tuning_cache.py`, over any content of the store file.  A
file is what `json.loads` makes of its text, a key is its `_key_json`, and `==` does not see the order of keys, so
`sort_keys` is left out.

* `load`, `lookup`, `record` — the three methods; `Json.isDict` — `==` with a dictionary.
* `Shaped` — the files that `_load` turns into a dictionary; `Examinable` — the entries that a lookup can look into.

## Results

* `tuning_cache_lenient_iff` — a lookup misses or finds a current record exactly where the dictionary and the entry are
  sound, and a record is found again exactly where the dictionary is.
-/

namespace VKernels

open List

/-! ## Dictionaries -/

namespace TileLookup.Json

open TextLines

/-- `value == expected`, for a dictionary given by tests of its values. -/
def isDict (expected : List (Text × (Json → Bool))) : Json → Bool
  | obj items => decide (items.length = expected.length) &&
      expected.all fun field => (items.lookup field.1).any field.2
  | _ => false

/-- `items[key] = value`. -/
def setItem (items : List (Text × Json)) (key : Text) (value : Json) : List (Text × Json) :=
  if (items.lookup key).isSome then items.map fun item => if item.1 = key then (key, value) else item
  else items ++ [(key, value)]

lemma lookup_setItem (items : List (Text × Json)) (key : Text) (value : Json) :
    (setItem items key value).lookup key = some value := by
  unfold setItem
  split
  · next hsome =>
    induction items with
    | nil => cases hsome
    | cons item items ih =>
      by_cases hkey : item.1 = key
      · simp [hkey]
      · have hne : (key == item.1) = false := beq_eq_false_iff_ne.mpr (Ne.symm hkey)
        rw [lookup_cons, hne] at hsome
        rw [map_cons, if_neg hkey, lookup_cons, hne]
        exact ih hsome
  · next hnone =>
    induction items with
    | nil => simp
    | cons item items ih =>
      have hne : (key == item.1) = false := by
        by_contra h
        rw [Bool.not_eq_false] at h
        exact hnone (by rw [lookup_cons, h]; rfl)
      rw [lookup_cons, hne] at hnone
      rw [cons_append, lookup_cons, hne]
      exact ih hnone

lemma lookup_map {A : Type} (f : Text → A) (keys : List Text) {key : Text} (hkey : key ∈ keys) :
    (keys.map fun k => (k, f k)).lookup key = some (f key) := by
  induction keys with
  | nil => cases hkey
  | cons k keys ih =>
    rw [map_cons, lookup_cons]
    by_cases heq : key = k
    · subst heq
      simp
    · rw [beq_eq_false_iff_ne.mpr heq]
      exact ih ((mem_cons.mp hkey).resolve_left heq)

end TileLookup.Json

namespace TuningCache

open TextLines
open TileLookup (Json)

/-! ## The methods -/

/-- `device_fingerprint()`. -/
structure Device where
  name : Text
  arch : Text
  cuCount : ℕ
  torch : Text
  triton : Text
  hip : Option Text

def Device.software (d : Device) : List (Text × Text) :=
  [("torch".toList, d.torch), ("triton".toList, d.triton)] ++ d.hip.toList.map fun hip => ("hip".toList, hip)

def Device.toJson (d : Device) : Json :=
  .obj [("name".toList, .str d.name), ("arch".toList, .str d.arch), ("cu_count".toList, .int d.cuCount),
    ("software".toList, .obj (d.software.map fun item => (item.1, .str item.2)))]

/-- `value == self.device`. -/
def Device.same (d : Device) : Json → Bool :=
  Json.isDict [("name".toList, Json.isText d.name), ("arch".toList, Json.isText d.arch),
    ("cu_count".toList, Json.isNat d.cuCount),
    ("software".toList, Json.isDict (d.software.map fun item => (item.1, Json.isText item.2)))]

/-- `TuningCacheError`, and any other exception. -/
inductive Raised where
  | tuningCache
  | other
  deriving DecidableEq

structure Cache where
  enabled : Bool
  strict : Bool
  device : Device
  sourceFiles : List Text
  /-- `fingerprint_file`, where the file can be read. -/
  fingerprintFile : Text → Option Text

/-- No file, or what `json.loads(path.read_text())` makes of it: nothing where it raises. -/
abbrev StoreFile := Option (Option Json)

/-- The store file and `_records`, `null` for `None`. -/
structure State where
  file : StoreFile
  records : Json

def schemaName : Text := "vk-tuning-store/1".toList

/-- `value.get(key)`. -/
def get (value : Json) (key : Text) : Except Raised (Option Json) :=
  match value with
  | .obj items => .ok (items.lookup key)
  | _ => .error .other

section

variable (c : Cache) (s : State) (key : Text)

/-- `{path: fingerprint_file(path) for path in self.source_files}`. -/
def fingerprints : Except Raised (List (Text × Text)) :=
  if ∀ path ∈ c.sourceFiles, (c.fingerprintFile path).isSome then
    .ok (c.sourceFiles.dedup.map fun path => (path, (c.fingerprintFile path).getD []))
  else .error .other

/-- `_load` past `json.loads`. -/
def recordsOf (doc : Json) : Except Raised Json := do
  let schema := (← get doc "schema".toList).getD .null
  if schema.isText schemaName then
    match ← get doc "records".toList with
    | some records => .ok records
    | none => .error .other
  else if c.strict then .error .tuningCache
  else .ok (.obj [])

def load : Except Raised State :=
  match s.records with
  | .null => match s.file with
    | none => .ok { s with records := .obj [] }
    | some none => .error .other
    | some (some doc) => (recordsOf c doc).map fun records => { s with records }
  | _ => .ok s

/-- `not self._fingerprint_mismatch(recorded)`. -/
def sameFingerprints (current : List (Text × Text)) : Json → Bool :=
  Json.isDict (current.map fun item => (item.1, Json.isText item.2))

/-- `lookup` past the test for a missing record. -/
def examine (record : Json) : Except Raised (Option Json) := do
  let device := (← get record "device".toList).getD .null
  let producer := (← get record "producer".toList).getD (.obj [])
  let recorded := (← get producer "fingerprints".toList).getD (.obj [])
  let current ← fingerprints c
  if c.device.same device && sameFingerprints current recorded then return some record
  else if c.strict then .error .tuningCache
  else return none

/-- `lookup` past `_load`. -/
def find (records : Json) : Except Raised (Option Json) :=
  match get records key with
  | .error e => .error e
  | .ok none => .ok none
  | .ok (some .null) => .ok none
  | .ok (some record) => examine c record

def lookup : Except Raised (Option Json) × State :=
  if c.enabled then
    match load c s with
    | .error e => (.error e, s)
    | .ok s => (find c key s.records, s)
  else (.ok none, s)

/-- The arguments of `record`, and the two readings of the clock. -/
structure Entry where
  kwargs : List (Text × Json)
  numWarps : ℤ
  numStages : ℤ
  timeMs : Json
  measuredAt : Text
  updated : Text

def docRecord (e : Entry) (current : List (Text × Text)) : Json :=
  .obj [("config".toList, .obj [("kwargs".toList, .obj e.kwargs), ("num_warps".toList, .int e.numWarps),
      ("num_stages".toList, .int e.numStages)]),
    ("time_ms".toList, e.timeMs),
    ("device".toList, c.device.toJson),
    ("producer".toList, .obj [("fingerprints".toList, .obj (current.map fun item => (item.1, .str item.2)))]),
    ("measured_at".toList, .str e.measuredAt)]

/-- What `_write` puts into the file of a kernel. -/
def storeDoc (kernel : Text) (e : Entry) (records : Json) : Json :=
  .obj [("schema".toList, .str schemaName), ("kernel".toList, .str kernel), ("device".toList, c.device.toJson),
    ("records".toList, records), ("updated".toList, .str e.updated)]

def record (kernel : Text) (e : Entry) : Except Raised Json × State :=
  if c.enabled then
    let s := { s with records := .null }
    match load c s with
    | .error err => (.error err, s)
    | .ok s => match fingerprints c with
      | .error err => (.error err, s)
      | .ok current => match s.records with
        | .obj items =>
          let records := .obj (Json.setItem items key (docRecord c e current))
          (.ok (docRecord c e current), ⟨some (some (storeDoc c kernel e records)), records⟩)
        | _ => (.error .other, s)
  else (.ok (.obj []), s)

end

/-! ## Sound files -/

/-- The files that `_load` turns into a dictionary of records. -/
inductive Shaped : StoreFile → List (Text × Json) → Prop
  | absent : Shaped none []
  | foreign {items : List (Text × Json)}
      (h : ((items.lookup "schema".toList).getD .null).isText schemaName = false) : Shaped (some (some (.obj items))) []
  | store {items records : List (Text × Json)}
      (h : ((items.lookup "schema".toList).getD .null).isText schemaName = true)
      (hrecords : items.lookup "records".toList = some (.obj records)) : Shaped (some (some (.obj items))) records

/-- The records are a dictionary, read before or in the file. -/
def State.Holds (s : State) (records : List (Text × Json)) : Prop :=
  s.records = .obj records ∨ s.records = .null ∧ Shaped s.file records

def Cache.Readable (c : Cache) : Prop := ∀ path ∈ c.sourceFiles, (c.fingerprintFile path).isSome

/-- The entries that a lookup can look into. -/
inductive Examinable (c : Cache) : Option Json → Prop
  | missing : Examinable c none
  | null : Examinable c (some .null)
  | entry {items producer : List (Text × Json)} (hproducer : (items.lookup "producer".toList).getD (.obj []) = .obj producer)
      (hreadable : c.Readable) : Examinable c (some (.obj items))

/-- A record of this device and of the current sources. -/
inductive Current (c : Cache) : Json → Prop
  | mk {items producer : List (Text × Json)} {current : List (Text × Text)}
      (hdevice : c.device.same ((items.lookup "device".toList).getD .null) = true)
      (hproducer : (items.lookup "producer".toList).getD (.obj []) = .obj producer)
      (hcurrent : fingerprints c = .ok current)
      (hsame : sameFingerprints current ((producer.lookup "fingerprints".toList).getD (.obj [])) = true) :
      Current c (.obj items)

section

variable {c : Cache} {s : State} {key : Text} {records : List (Text × Json)}

lemma fingerprints_ok_iff : (∃ current, fingerprints c = .ok current) ↔ c.Readable := by
  unfold fingerprints Cache.Readable
  split
  · next h => exact ⟨fun _ => h, fun _ => ⟨_, rfl⟩⟩
  · next h => exact ⟨fun ⟨_, hok⟩ => (nomatch hok), fun hall => absurd hall h⟩

lemma recordsOf_iff (hstrict : c.strict = false) {doc : Json} :
    recordsOf c doc = .ok (.obj records) ↔ Shaped (some (some doc)) records := by
  cases doc with
  | obj items =>
    have hdoc : recordsOf c (.obj items) = if ((items.lookup "schema".toList).getD .null).isText schemaName then
        match items.lookup "records".toList with
        | some records => .ok records
        | none => .error .other
      else .ok (.obj []) := by
      unfold recordsOf
      rw [hstrict]
      rfl
    rw [hdoc]
    cases hschema : ((items.lookup "schema".toList).getD .null).isText schemaName with
    | false =>
      constructor
      · intro h
        cases h
        exact .foreign hschema
      · rintro (_ | _ | ⟨hstore, -⟩)
        · rfl
        · rw [hschema] at hstore
          cases hstore
    | true =>
      rw [if_pos rfl]
      constructor
      · intro h
        cases hrecords : items.lookup "records".toList with
        | none =>
          rw [hrecords] at h
          cases h
        | some value =>
          rw [hrecords] at h
          cases h
          exact .store hschema hrecords
      · rintro (_ | ⟨hforeign⟩ | ⟨-, hrecords⟩)
        · rw [hschema] at hforeign
          cases hforeign
        · rw [hrecords]
  | _ =>
    constructor
    · intro h
      cases h
    · intro h
      cases h

lemma load_iff (hstrict : c.strict = false) :
    (∃ s', load c s = .ok s' ∧ s'.records = .obj records) ↔ s.Holds records := by
  obtain ⟨file, memo⟩ := s
  cases memo with
  | null =>
    have hnull : State.Holds ⟨file, .null⟩ records ↔ Shaped file records := by simp [State.Holds]
    rw [hnull]
    match file with
    | none =>
      constructor
      · rintro ⟨s', hload, hrecords⟩
        cases hload
        cases hrecords
        exact .absent
      · rintro ⟨⟩
        exact ⟨_, rfl, rfl⟩
    | some none =>
      constructor
      · rintro ⟨s', hload, -⟩
        cases hload
      · intro h
        cases h
    | some (some doc) =>
      rw [← recordsOf_iff hstrict]
      show (∃ s', (recordsOf c doc).map _ = .ok s' ∧ _) ↔ _
      cases recordsOf c doc <;> simp [Except.map]
  | obj items =>
    constructor
    · rintro ⟨s', hload, hrecords⟩
      cases hload
      exact .inl hrecords
    · rintro (h | ⟨h, -⟩)
      · exact ⟨_, rfl, h⟩
      · cases h
  | _ =>
    constructor
    · rintro ⟨_, hload, hrecords⟩
      cases hload
      cases hrecords
    · rintro (h | ⟨h, -⟩) <;> cases h

lemma examine_obj (items : List (Text × Json)) : examine c (.obj items) = do
    let recorded ← get ((items.lookup "producer".toList).getD (.obj [])) "fingerprints".toList
    let current ← fingerprints c
    if c.device.same ((items.lookup "device".toList).getD .null) &&
        sameFingerprints current (recorded.getD (.obj [])) then return some (.obj items)
    else if c.strict then .error .tuningCache
    else return none := rfl

lemma examine_iff (hstrict : c.strict = false) {record : Json} :
    (∃ r, examine c record = .ok r ∧ ∀ found, r = some found → Current c found) ↔
      ∃ items producer, record = .obj items ∧ (items.lookup "producer".toList).getD (.obj []) = .obj producer ∧
        c.Readable := by
  constructor
  · rintro ⟨r, hexamine, -⟩
    cases record with
    | obj items =>
      refine ⟨items, ?_⟩
      cases hproducer : (items.lookup "producer".toList).getD _ with
      | obj producer =>
        refine ⟨producer, rfl, rfl, ?_⟩
        rw [← fingerprints_ok_iff]
        cases hcurrent : fingerprints c with
        | ok current => exact ⟨current, rfl⟩
        | error e =>
          rw [examine_obj, hproducer, hcurrent] at hexamine
          cases hexamine
      | _ =>
        rw [examine_obj, hproducer] at hexamine
        cases hexamine
    | _ => cases hexamine
  · rintro ⟨items, producer, rfl, hproducer, hreadable⟩
    obtain ⟨current, hcurrent⟩ := fingerprints_ok_iff.mpr hreadable
    have hexamine : examine c (.obj items) = if (c.device.same ((items.lookup "device".toList).getD .null) &&
        sameFingerprints current ((producer.lookup "fingerprints".toList).getD (.obj []))) = true then
        .ok (some (.obj items)) else .ok none := by
      rw [examine_obj, hproducer, hcurrent, hstrict]
      rfl
    rw [hexamine]
    split
    · next hsame =>
      obtain ⟨hdevice, hsame⟩ := Bool.and_eq_true_iff.mp hsame
      refine ⟨_, rfl, fun found hfound => ?_⟩
      cases hfound
      exact .mk hdevice hproducer hcurrent hsame
    · exact ⟨_, rfl, fun found hfound => by cases hfound⟩

lemma find_iff (hstrict : c.strict = false) {value : Json} :
    (∃ r, find c key value = .ok r ∧ ∀ found, r = some found → Current c found) ↔
      ∃ items, value = .obj items ∧ Examinable c (items.lookup key) := by
  cases value with
  | obj items =>
    have hitems : (∃ items', Json.obj items = .obj items' ∧ Examinable c (items'.lookup key)) ↔
        Examinable c (items.lookup key) := by simp
    rw [hitems]
    cases hentry : items.lookup key with
    | none =>
      have hfind : find c key (.obj items) = .ok none := by simp only [find, get, hentry]
      exact ⟨fun _ => .missing, fun _ => ⟨none, hfind, nofun⟩⟩
    | some record =>
      by_cases hnull : record = .null
      · subst hnull
        have hfind : find c key (.obj items) = .ok none := by simp only [find, get, hentry]
        exact ⟨fun _ => .null, fun _ => ⟨none, hfind, nofun⟩⟩
      · have hfind : find c key (.obj items) = examine c record := by
          simp [find, get, hentry]
        rw [hfind, examine_iff hstrict]
        constructor
        · rintro ⟨items, _, rfl, hproducer, hreadable⟩
          exact .entry hproducer hreadable
        · rintro (_ | _ | ⟨hproducer, hreadable⟩)
          · exact absurd rfl hnull
          · exact ⟨_, _, rfl, hproducer, hreadable⟩
  | _ =>
    constructor
    · rintro ⟨r, hfind, -⟩
      cases hfind
    · rintro ⟨_, hitems, -⟩
      cases hitems

end

/-! ## The contract -/

section

variable {c : Cache} {s : State} {key kernel : Text} {e : Entry}

/-- A lookup that gives nothing or a current record. -/
def LookupLenient (c : Cache) (s : State) (key : Text) : Prop :=
  ∃ r, (lookup c s key).1 = .ok r ∧ ∀ found, r = some found → Current c found

/-- A record that a new cache finds in the file that `record` leaves. -/
def RecordFound (c : Cache) (s : State) (key kernel : Text) (e : Entry) : Prop :=
  ∃ written s', record c s key kernel e = (.ok written, s') ∧
    (lookup c ⟨s'.file, .null⟩ key).1 = .ok (some written)

lemma lookupLenient_iff (hstrict : c.strict = false) : LookupLenient c s key ↔
    c.enabled = false ∨ ∃ records, s.Holds records ∧ Examinable c (records.lookup key) := by
  unfold LookupLenient lookup
  cases henabled : c.enabled with
  | false => exact ⟨fun _ => .inl rfl, fun _ => ⟨none, rfl, nofun⟩⟩
  | true =>
    rw [if_pos rfl, or_iff_right (by decide)]
    cases hload : load c s with
    | error err =>
      constructor
      · rintro ⟨r, h, -⟩
        cases h
      · rintro ⟨records, hholds, -⟩
        obtain ⟨s', h, -⟩ := (load_iff hstrict).mpr hholds
        rw [hload] at h
        cases h
    | ok s' =>
      have hholds (records : List (Text × Json)) : s.Holds records ↔ s'.records = .obj records := by
        rw [← load_iff hstrict, hload]
        simp
      simp only [hholds]
      exact find_iff hstrict

lemma same_toJson (d : Device) : d.same d.toJson = true := by
  obtain ⟨_, _, _, _, _, hip⟩ := d
  cases hip <;> simp [Device.same, Device.toJson, Device.software, Json.isDict, Json.isText, Json.isNat, lookup_cons]

variable {current : List (Text × Text)}

lemma sameFingerprints_written (hcurrent : fingerprints c = .ok current) :
    sameFingerprints current (.obj (current.map fun item => (item.1, .str item.2))) = true := by
  unfold fingerprints at hcurrent
  split at hcurrent
  · cases hcurrent
    unfold sameFingerprints Json.isDict
    simp only [map_map, length_map, decide_true, Bool.true_and, all_map, all_eq_true]
    intro path hpath
    have hlookup := Json.lookup_map (fun path => Json.str ((c.fingerprintFile path).getD [])) c.sourceFiles.dedup hpath
    show Option.any _ (List.lookup path (c.sourceFiles.dedup.map fun path => (path, _))) = true
    rw [hlookup]
    simp [Json.isText]
  · cases hcurrent

lemma find_written (hcurrent : fingerprints c = .ok current) (items : List (Text × Json)) :
    find c key (.obj (Json.setItem items key (docRecord c e current))) = .ok (some (docRecord c e current)) := by
  have hfind : find c key (.obj (Json.setItem items key (docRecord c e current))) =
      examine c (docRecord c e current) := by
    simp only [find, get, Json.lookup_setItem]
    rfl
  have hfields : (c.device.same c.device.toJson && sameFingerprints current
      (.obj (current.map fun item => (item.1, .str item.2)))) = true := by
    rw [same_toJson, sameFingerprints_written hcurrent]
    rfl
  rw [hfind]
  unfold docRecord
  rw [examine_obj, hcurrent]
  exact if_pos hfields

lemma recordFound_iff (hstrict : c.strict = false) : RecordFound c s key kernel e ↔
    c.enabled = true ∧ (∃ records, Shaped s.file records) ∧ c.Readable := by
  have hloaded (records : List (Text × Json)) :
      (∃ s', load c ⟨s.file, .null⟩ = .ok s' ∧ s'.records = .obj records) ↔ Shaped s.file records := by
    rw [load_iff hstrict]
    simp [State.Holds]
  unfold RecordFound record
  constructor
  · rintro ⟨_, _, hrecord, hlookup⟩
    cases henabled : c.enabled with
    | false =>
      rw [lookup, henabled, if_neg Bool.false_ne_true] at hlookup
      cases hlookup
    | true =>
      rw [henabled, if_pos rfl] at hrecord
      dsimp only at hrecord
      refine ⟨rfl, ?_⟩
      cases hload : load c ⟨s.file, .null⟩ with
      | error err =>
        rw [hload] at hrecord
        cases hrecord
      | ok loaded =>
        rw [hload] at hrecord
        cases hcurrent : fingerprints c with
        | error err =>
          rw [hcurrent] at hrecord
          cases hrecord
        | ok current =>
          rw [hcurrent] at hrecord
          refine ⟨?_, fingerprints_ok_iff.mp ⟨current, hcurrent⟩⟩
          cases hrecords : loaded.records with
          | obj items => exact ⟨items, (hloaded items).mp ⟨loaded, hload, hrecords⟩⟩
          | _ =>
            dsimp only at hrecord
            rw [hrecords] at hrecord
            cases hrecord
  · rintro ⟨henabled, ⟨records, hshaped⟩, hreadable⟩
    obtain ⟨_, hload, hrecords⟩ := (hloaded records).mpr hshaped
    obtain ⟨_, hcurrent⟩ := fingerprints_ok_iff.mpr hreadable
    rw [henabled, if_pos rfl]
    dsimp only
    rw [hload, hcurrent]
    dsimp only
    rw [hrecords]
    refine ⟨_, _, rfl, ?_⟩
    rw [lookup, henabled, if_pos rfl]
    exact find_written hcurrent records

/-- **The cache is lenient** exactly on sound files: a lookup misses or finds a current record, and what `record` wrote
is found again. -/
theorem tuning_cache_lenient_iff (c : Cache) (s : State) (key kernel : Text) (e : Entry) (hstrict : c.strict = false) :
    (LookupLenient c s key ↔ c.enabled = false ∨ ∃ records, s.Holds records ∧ Examinable c (records.lookup key)) ∧
    (RecordFound c s key kernel e ↔ c.enabled = true ∧ (∃ records, Shaped s.file records) ∧ c.Readable) :=
  ⟨lookupLenient_iff hstrict, recordFound_iff hstrict⟩

/-- A device without ROCm, no source file, and the store enabled. -/
def plainCache : Cache :=
  ⟨true, false, ⟨"gpu".toList, "sm90".toList, 132, "2.8".toList, "3.4".toList, none⟩, [], fun _ => none⟩

/-- Without a file nothing is found. -/
theorem tuning_cache_lenient_absent : LookupLenient plainCache ⟨none, .null⟩ [] :=
  ((tuning_cache_lenient_iff plainCache ⟨none, .null⟩ [] [] ⟨[], 4, 2, .null, [], []⟩ rfl).1).mpr
    (.inr ⟨[], .inr ⟨rfl, .absent⟩, .missing⟩)

/-- Over a truncated file both calls raise. -/
theorem tuning_cache_truncated : ¬LookupLenient plainCache ⟨some none, .null⟩ [] ∧
    ¬RecordFound plainCache ⟨some none, .null⟩ [] [] ⟨[], 4, 2, .null, [], []⟩ := by
  constructor
  · rintro ⟨r, hlookup, -⟩
    cases hlookup
  · rintro ⟨_, _, hrecord, -⟩
    cases hrecord

end

end TuningCache

end VKernels
