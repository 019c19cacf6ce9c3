import VKernels.Lib.PyDict
import Mathlib.Data.Rat.Defs

/-!
# Tuning manifests

`build_manifest`, `write_manifest`, `load_manifest` and `validate_manifest` of `torch_ops/tuning_manifest.py`.  The
digest of a file and the rows that `csv.reader` gives are parameters; a dictionary that goes through the JSON file
comes back in the order of its keys.

* `Host` — the files and the device of one moment; `buildManifest`, `validateManifest` — at two moments.
* `Caught` — the changes that `validateManifest` compares.

## Results

* `validateManifest_ok_iff` — a built manifest is accepted exactly when nothing is caught.
* `contract_iff` — the contract holds exactly when nothing has changed or something is caught.
-/

namespace VKernels.TuningManifest

open PyDict
open List

abbrev Bytes := List UInt8

/-- What `collect_environment` gives on a GPU host. -/
structure Environment where
  arch : String
  cuCount : ℕ
  torch : String
  hip : Option ℕ
  deriving DecidableEq

structure Host where
  files : String → Option Bytes
  gpu : Option Environment

/-- A JSON value below the level that the validation reads. -/
inductive Value where
  | null
  | bool (b : Bool)
  | num (q : ℚ)
  | str (s : String)

def schemaName : String := "vk-tuning-manifest/1"

/-- `manifest["device"]`. -/
structure Device where
  arch : Option String
  cuCount : Option ℕ

/-- `manifest["software"]`. -/
structure Software where
  torch : Option String
  hip : Option ℕ

/-- A manifest with all of `_REQUIRED_KEYS`. -/
structure Manifest where
  schema : String
  kernel : String
  csv : String
  csvSha256 : String
  op : String
  shapes : Dict String (Dict String Value)
  algos : Dict String String
  validators : Dict String String
  device : Device
  software : Software
  fingerprints : Dict String String
  qualityGates : Dict String Value
  created : String
  job : Option String
  notes : String

/-- Why a call does not return; the first is an `open` that fails. -/
inductive Failure where
  | notFound (path : String)
  | csvRows (path : String)
  | schema (recorded : String)
  | csvName (recorded given : String)
  | csvChanged (name : String)
  | validators (missing differing : List String)
  | algos (recorded expected : Dict String String)
  | staleDevice (label : String)
  | staleSoftware (label : String)
  | sourceAbsent (path : String)
  | sourceChanged (path digest actual : String)

/-- `raise`, when the condition holds. -/
def rejectIf (cond : Prop) [Decidable cond] (failure : Failure) : Except Failure Unit :=
  if cond then .error failure else .ok ()

/-- `Path(path).name`. -/
def pathName (path : String) : String := String.ofList (path.toList.reverse.takeWhile (· ≠ '/')).reverse

variable (sha256 : Bytes → String) (csvReader : Bytes → Option (List (List String)))

def sha256File (host : Host) (path : String) : Except Failure String :=
  match host.files path with
  | some bytes => .ok ("sha256:" ++ sha256 bytes)
  | none => .error (.notFound path)

def fingerprintFiles (host : Host) (paths : List String) : Except Failure (Dict String String) := do
  let pairs ← paths.mapM fun path => do
    let digest ← sha256File sha256 host path
    return (path, digest)
  return .ofPairs pairs

abbrev CsvBlock := Dict String String × Dict (String × String) String

/-- The two comprehensions of `read_csv_block`. -/
def csvBlock (rows : List (List String)) : CsvBlock :=
  (.ofPairs (rows.filterMap fun row => match row with
    | kind :: key :: value :: _ => if kind = "Validator" then some (key, value) else none
    | _ => none),
   .ofPairs (rows.filterMap fun row => match row with
    | op :: signature :: winner :: _ :: _ => if op ≠ "Validator" then some ((op, signature), winner) else none
    | _ => none))

def readCsvBlock (host : Host) (path : String) : Except Failure CsvBlock :=
  match host.files path with
  | none => .error (.notFound path)
  | some bytes =>
    match csvReader bytes with
    | some rows => .ok (csvBlock rows)
    | none => .error (.csvRows path)

/-- `{signature: winner for (name, signature), winner in results.items() if name == op}`. -/
def algosOf (op : String) (results : Dict (String × String) String) : Dict String String :=
  .ofPairs (results.items.filterMap fun item => if item.1.1 = op then some (item.1.2, item.2) else none)

def defaultQualityGates : Dict String Value := .ofPairs [
  ("max_abs_vs_fp64_oracle", .num (8 / 1000)),
  ("max_rel_vs_fp64_oracle", .num (8 / 1000)),
  ("min_argmax_agreement", .num (95 / 100)),
  ("require_reference_repeat_identical", .bool true),
  ("model_nll_regression_max", .num (5 / 1000))]

/-- What the caller of `build_manifest` gives, and the time. -/
structure BuildArgs where
  csvPath : String
  kernel : String
  op : String
  shapes : Dict String (Dict String Value)
  producerPaths : List String
  qualityGates : Option (Dict String Value)
  job : Option String
  notes : String
  now : String

def buildManifest (host : Host) (args : BuildArgs) : Except Failure Manifest := do
  let (validators, results) ← readCsvBlock csvReader host args.csvPath
  let algos := algosOf args.op results
  let csvSha256 ← sha256File sha256 host args.csvPath
  let fingerprints ← fingerprintFiles sha256 host args.producerPaths
  return {
    schema := schemaName
    kernel := args.kernel
    csv := pathName args.csvPath
    csvSha256
    op := args.op
    shapes := args.shapes
    algos
    validators
    -- "filled below when a GPU is present": nothing below does
    device := ⟨none, none⟩
    software := ⟨none, none⟩
    fingerprints
    qualityGates := defaultQualityGates.update (args.qualityGates.getD .empty)
    created := args.now
    job := args.job
    notes := args.notes }

/-- The order of `sort_keys`. -/
def keyLe (a b : String) : Bool := decide (a ≤ b)

/-- `write_manifest`, and `load_manifest` of what it wrote. -/
def reload (m : Manifest) : Manifest :=
  { m with
    shapes := m.shapes.sorted keyLe
    algos := m.algos.sorted keyLe
    validators := m.validators.sorted keyLe
    fingerprints := m.fingerprints.sorted keyLe
    qualityGates := m.qualityGates.sorted keyLe }

/-- The keyword arguments of `validate_manifest`. -/
structure ValidateArgs where
  csvPath : Option String
  csvRows : Option CsvBlock
  environment : Option Environment
  producerPaths : Option (List String)

def rejectEnvironmentMismatch (host : Host) (m : Manifest) (environment : Option Environment) : Except Failure Unit :=
  match environment.or host.gpu with
  | none => .ok ()
  | some live => do
    rejectIf (m.device.arch ≠ none ∧ m.device.arch ≠ some live.arch) (.staleDevice "device architecture")
    rejectIf (m.device.cuCount ≠ none ∧ m.device.cuCount ≠ some live.cuCount) (.staleDevice "CU count")
    rejectIf (m.software.torch ≠ none ∧ m.software.torch ≠ some live.torch) (.staleSoftware "PyTorch")
    rejectIf (m.software.hip ≠ none ∧ m.software.hip ≠ live.hip) (.staleSoftware "HIP")

/-- The checks against the CSV file. -/
def checkCsv (host : Host) (m : Manifest) (path : String) : Except Failure Unit := do
  rejectIf (m.csv ≠ "" ∧ m.csv ≠ pathName path) (.csvName m.csv (pathName path))
  if m.csvSha256 = "" then return ()
  let digest ← sha256File sha256 host path
  rejectIf (m.csvSha256 ≠ digest) (.csvChanged (pathName path))

/-- The checks against the rows of the CSV file. -/
def checkRows (m : Manifest) (rows : CsvBlock) : Except Failure Unit := do
  let missing := (rows.1.keys.filter fun key => m.validators.get? key = none).mergeSort keyLe
  let differing := (rows.1.keys.filter fun key =>
    m.validators.get? key ≠ none ∧ rows.1.get? key ≠ m.validators.get? key).mergeSort keyLe
  rejectIf (missing ≠ [] ∨ differing ≠ []) (.validators missing differing)
  let expected := algosOf m.op rows.2
  rejectIf (¬ expected.Same m.algos) (.algos m.algos expected)

def checkSource (host : Host) (item : String × String) : Except Failure Unit :=
  match host.files item.1 with
  | none => .error (.sourceAbsent item.1)
  | some bytes =>
    let actual := "sha256:" ++ sha256 bytes
    rejectIf (actual ≠ item.2) (.sourceChanged item.1 item.2 actual)

/-- `fingerprints.update(fingerprint_files(producer_paths))`. -/
def refingerprint (host : Host) (recorded : Dict String String) : Option (List String) →
    Except Failure (Dict String String)
  | some paths => do
    let given ← fingerprintFiles sha256 host paths
    return recorded.update given
  | none => .ok recorded

/-- A check of an argument that may be left out. -/
def checkGiven {α : Type} (given : Option α) (check : α → Except Failure Unit) : Except Failure Unit :=
  match given with
  | some a => check a
  | none => .ok ()

def validateManifest (host : Host) (m : Manifest) (args : ValidateArgs) : Except Failure Unit := do
  rejectIf (m.schema ≠ schemaName) (.schema m.schema)
  checkGiven args.csvPath (checkCsv sha256 host m)
  checkGiven args.csvRows (checkRows m)
  rejectEnvironmentMismatch host m args.environment
  let fingerprints ← refingerprint sha256 host m.fingerprints args.producerPaths
  fingerprints.items.forM (checkSource sha256 host)

/-! ## Calls that return -/

section

variable {α β : Type}

lemma bind_returns {x : Except Failure α} {f : α → Except Failure β} {r : β} :
    (x >>= f) = .ok r ↔ ∃ a, x = .ok a ∧ f a = .ok r := by
  cases x with
  | error e => simp [bind, Except.bind]
  | ok a => simp [bind, Except.bind]

lemma rejectIf_returns {cond : Prop} [Decidable cond] {failure : Failure} :
    rejectIf cond failure = .ok () ↔ ¬ cond := by
  unfold rejectIf
  split <;> simp_all

lemma rejectIf_bind {cond : Prop} [Decidable cond] {failure : Failure} {k : Except Failure α} {r : α} :
    (rejectIf cond failure >>= fun _ => k) = .ok r ↔ ¬ cond ∧ k = .ok r := by
  rw [bind_returns]
  constructor
  · rintro ⟨_, hcond, hk⟩
    exact ⟨rejectIf_returns.mp hcond, hk⟩
  · rintro ⟨hcond, hk⟩
    exact ⟨(), rejectIf_returns.mpr hcond, hk⟩

lemma forM_returns {f : α → Except Failure Unit} : ∀ {l : List α}, l.forM f = .ok () ↔ ∀ a ∈ l, f a = .ok ()
  | [] => by simp [pure, Except.pure]
  | a :: l => by
    rw [forM_eq_forM, forM_cons, bind_returns, forall_mem_cons]
    constructor
    · rintro ⟨_, ha, hl⟩
      exact ⟨ha, forM_returns.mp hl⟩
    · rintro ⟨ha, hl⟩
      exact ⟨(), ha, forM_returns.mpr hl⟩

end

/-! ## Fingerprints -/

section

variable {sha256 : Bytes → String} {host : Host}

/-- The fingerprint of a file. -/
def digest (sha256 : Bytes → String) (host : Host) (path : String) : Option String :=
  (host.files path).map fun bytes => "sha256:" ++ sha256 bytes

lemma sha256File_returns {path recorded : String} :
    sha256File sha256 host path = .ok recorded ↔ digest sha256 host path = some recorded := by
  unfold sha256File digest
  cases host.files path <;> simp

lemma fingerprintPairs_returns {paths : List String} {pairs : List (String × String)} :
    (paths.mapM fun path => do
      let digest ← sha256File sha256 host path
      return (path, digest)) = .ok pairs ↔
      (∀ path ∈ paths, host.files path ≠ none) ∧
        pairs = paths.map fun path => (path, (digest sha256 host path).getD "") := by
  induction paths generalizing pairs with
  | nil => simp [pure, Except.pure, eq_comm]
  | cons path paths ih =>
    rw [mapM_cons]
    simp only [bind_returns, sha256File_returns, ih, forall_mem_cons, map_cons]
    constructor
    · rintro ⟨_, ⟨_, hdigest, hpair⟩, _, ⟨hfiles, rfl⟩, hpairs⟩
      cases hpair
      cases hpairs
      refine ⟨⟨fun hnone => ?_, hfiles⟩, by rw [hdigest, Option.getD_some]⟩
      rw [digest, hnone] at hdigest
      cases hdigest
    · rintro ⟨⟨hfile, hfiles⟩, rfl⟩
      obtain ⟨bytes, hbytes⟩ := Option.ne_none_iff_exists'.mp hfile
      refine ⟨_, ⟨"sha256:" ++ sha256 bytes, by rw [digest, hbytes]; rfl, rfl⟩, _, ⟨hfiles, rfl⟩, ?_⟩
      rw [digest, hbytes]
      rfl

lemma fingerprintFiles_returns {paths : List String} {fingerprints : Dict String String} :
    fingerprintFiles sha256 host paths = .ok fingerprints ↔ (∀ path ∈ paths, host.files path ≠ none) ∧
      fingerprints = .ofPairs (paths.map fun path => (path, (digest sha256 host path).getD "")) := by
  unfold fingerprintFiles
  rw [bind_returns]
  constructor
  · rintro ⟨_, hpairs, hok⟩
    obtain ⟨hfiles, rfl⟩ := fingerprintPairs_returns.mp hpairs
    cases hok
    exact ⟨hfiles, rfl⟩
  · rintro ⟨hfiles, rfl⟩
    exact ⟨_, fingerprintPairs_returns.mpr ⟨hfiles, rfl⟩, rfl⟩

lemma get?_fingerprints {f : String → String} (paths : List String) (path : String) :
    (Dict.ofPairs (paths.map fun path => (path, f path))).get? path = if path ∈ paths then some (f path) else none := by
  rw [Dict.get?_ofPairs, ← map_reverse]
  have hlookup : ∀ paths : List String, (paths.map fun path => (path, f path)).lookup path =
      if path ∈ paths then some (f path) else none := by
    intro paths
    induction paths with
    | nil => rfl
    | cons first paths ih =>
      rw [map_cons, Dict.lookup_cons_eq, ih]
      by_cases h : path = first
      · simp [h]
      · simp [h]
  rw [hlookup]
  simp

lemma checkSource_returns {item : String × String} :
    checkSource sha256 host item = .ok () ↔ digest sha256 host item.1 = some item.2 := by
  unfold checkSource digest
  cases host.files item.1 with
  | none => simp
  | some bytes => simp [rejectIf_returns]

end

/-! ## What is compared -/

section

variable (before now : Host) (args : BuildArgs) (vargs : ValidateArgs)

/-- No two contents at hand have the same digest. -/
def CollisionFree : Prop := ∀ path path' a b, before.files path = some a → now.files path' = some b →
  sha256 a = sha256 b → a = b

/-- The rows are those that the manifest was made of, up to validators that are gone. -/
def RowsAgree (op : String) (recorded rows : CsvBlock) : Prop :=
  (∀ key value, rows.1.get? key = some value → recorded.1.get? key = some value) ∧
    (algosOf op rows.2).Same (algosOf op recorded.2)

/-- `producer_paths`, if given. -/
def ValidateArgs.named : List String := vargs.producerPaths.getD []

/-- A change that the validation compares: the name or the bytes of a CSV that is given, rows that are given, the
bytes of a source that is not named again, or a named source that is gone. -/
def Caught : Prop :=
  (∃ path, vargs.csvPath = some path ∧ (pathName args.csvPath ≠ "" ∧ pathName args.csvPath ≠ pathName path ∨
    now.files path ≠ before.files args.csvPath)) ∨
  (∃ recorded rows, vargs.csvRows = some rows ∧ readCsvBlock csvReader before args.csvPath = .ok recorded ∧
    ¬ RowsAgree args.op recorded rows) ∨
  (∃ path ∈ args.producerPaths, path ∉ vargs.named ∧ now.files path ≠ before.files path) ∨
  ∃ path ∈ vargs.named, now.files path = none

/-- Everything that the artifact was made with is as it was; a host without a GPU has no environment. -/
structure Unchanged : Prop where
  csv : now.files (vargs.csvPath.getD args.csvPath) = before.files args.csvPath
  sources : ∀ path ∈ args.producerPaths, now.files path = before.files path
  environment : ∀ made live, before.gpu = some made → now.gpu = some live → live = made

/-- A validation of the artifact in its place, with its own rows if any and with sources that exist. -/
structure InPlace : Prop where
  csvPath : ∀ path, vargs.csvPath = some path → path = args.csvPath
  csvRows : ∀ rows, vargs.csvRows = some rows → readCsvBlock csvReader now args.csvPath = .ok rows
  named : ∀ path ∈ vargs.named, now.files path ≠ none

/-- **Soundness** of an accepted manifest, and acceptance of an unchanged artifact. -/
structure Contract (m : Manifest) : Prop where
  sound : validateManifest sha256 now (reload m) vargs = .ok () → Unchanged before now args vargs
  complete : InPlace csvReader now args vargs → Unchanged before now args vargs →
    validateManifest sha256 now (reload m) vargs = .ok ()

structure Built (m : Manifest) (block : CsvBlock) (bytes : Bytes) : Prop where
  rows : readCsvBlock csvReader before args.csvPath = .ok block
  file : before.files args.csvPath = some bytes
  schema : m.schema = schemaName
  csv : m.csv = pathName args.csvPath
  csvSha256 : m.csvSha256 = "sha256:" ++ sha256 bytes
  op : m.op = args.op
  algos : m.algos = algosOf args.op block.2
  validators : m.validators = block.1
  device : m.device = ⟨none, none⟩
  software : m.software = ⟨none, none⟩
  sources : ∀ path ∈ args.producerPaths, before.files path ≠ none
  fingerprints : m.fingerprints = .ofPairs (args.producerPaths.map fun path => (path, (digest sha256 before path).getD ""))

end

section

variable {sha256 : Bytes → String} {csvReader : Bytes → Option (List (List String))} {before now : Host}
  {args : BuildArgs} {vargs : ValidateArgs} {m : Manifest} {block : CsvBlock} {bytes : Bytes}

lemma built_of_returns (h : buildManifest sha256 csvReader before args = .ok m) :
    ∃ block bytes, Built sha256 csvReader before args m block bytes := by
  obtain ⟨block, hrows, h⟩ := bind_returns.mp h
  obtain ⟨_, hsha, h⟩ := bind_returns.mp h
  obtain ⟨_, hfingerprints, h⟩ := bind_returns.mp h
  obtain ⟨hsources, rfl⟩ := fingerprintFiles_returns.mp hfingerprints
  cases h
  rw [sha256File_returns] at hsha
  obtain ⟨bytes, hfile, rfl⟩ := Option.map_eq_some_iff.mp hsha
  exact ⟨block, bytes, ⟨hrows, hfile, rfl, rfl, rfl, rfl, rfl, rfl, rfl, rfl, hsources, rfl⟩⟩

lemma checkGiven_returns {α : Type} {given : Option α} {check : α → Except Failure Unit} :
    checkGiven given check = .ok () ↔ ∀ a, given = some a → check a = .ok () := by
  cases given <;> simp [checkGiven]

lemma checkCsv_returns (hfree : CollisionFree sha256 before now)
    (hm : Built sha256 csvReader before args m block bytes) {path : String} :
    checkCsv sha256 now (reload m) path = .ok () ↔
      ¬ (pathName args.csvPath ≠ "" ∧ pathName args.csvPath ≠ pathName path ∨
        now.files path ≠ before.files args.csvPath) := by
  have hsha : ¬ (reload m).csvSha256 = "" := by
    simp [reload, hm.csvSha256]
  unfold checkCsv
  rw [rejectIf_bind, if_neg hsha, bind_returns]
  simp only [sha256File_returns, rejectIf_returns]
  rw [not_or, not_not, hm.file]
  refine and_congr (by simp [reload, hm.csv]) ?_
  simp only [reload, hm.csvSha256, digest]
  constructor
  · rintro ⟨_, hrecorded, hsame⟩
    obtain ⟨bytes', hfile, rfl⟩ := Option.map_eq_some_iff.mp hrecorded
    have hdigest : sha256 bytes = sha256 bytes' := by simpa using hsame
    rw [hfile, hfree _ _ _ _ hm.file hfile hdigest]
  · intro hfile
    exact ⟨_, by rw [hfile]; rfl, not_not.mpr rfl⟩

lemma checkRows_returns (hm : Built sha256 csvReader before args m block bytes) {rows : CsvBlock} :
    checkRows (reload m) rows = .ok () ↔ RowsAgree args.op block rows := by
  unfold checkRows RowsAgree
  simp only [rejectIf_bind, rejectIf_returns, not_not]
  refine and_congr ?_ ?_
  · have hnil : ∀ keys : List String, keys.mergeSort keyLe = [] ↔ keys = [] := by
      intro keys
      constructor
      · intro h
        exact (h ▸ mergeSort_perm keys keyLe).nil_eq.symm
      · rintro rfl
        exact mergeSort_nil
    simp only [not_or, not_not, hnil, filter_eq_nil_iff, decide_eq_true_eq, Dict.mem_keys, reload, Dict.get?_sorted,
      hm.validators]
    constructor
    · rintro ⟨hmissing, hdiffering⟩ key value hvalue
      have hsome := hmissing key ⟨value, hvalue⟩
      by_contra hne
      exact hdiffering key ⟨value, hvalue⟩ ⟨hsome, fun heq => hne (heq ▸ hvalue)⟩
    · intro h
      constructor
      · rintro key ⟨value, hvalue⟩
        simp [h key value hvalue]
      · rintro key ⟨value, hvalue⟩ ⟨-, hne⟩
        exact hne (hvalue.trans (h key value hvalue).symm)
  · simp [Dict.Same, reload, Dict.get?_sorted, hm.algos, hm.op]

/-- A built manifest records no device and no software: nothing is compared. -/
lemma rejectEnvironmentMismatch_returns (hm : Built sha256 csvReader before args m block bytes)
    (environment : Option Environment) : rejectEnvironmentMismatch now (reload m) environment = .ok () := by
  unfold rejectEnvironmentMismatch
  cases environment.or now.gpu with
  | none => rfl
  | some live => simp [reload, hm.device, hm.software, rejectIf_bind, rejectIf_returns]

lemma sources_returns (hfree : CollisionFree sha256 before now)
    (hm : Built sha256 csvReader before args m block bytes) :
    (refingerprint sha256 now (reload m).fingerprints vargs.producerPaths >>= fun fingerprints =>
      fingerprints.items.forM (checkSource sha256 now)) = .ok () ↔
      (∀ path ∈ args.producerPaths, path ∉ vargs.named → now.files path = before.files path) ∧
        ∀ path ∈ vargs.named, now.files path ≠ none := by
  have hrecorded : ∀ path, (reload m).fingerprints.get? path =
      if path ∈ args.producerPaths then some ((digest sha256 before path).getD "") else none := by
    intro path
    simp only [reload, Dict.get?_sorted, hm.fingerprints]
    exact get?_fingerprints args.producerPaths path
  -- a recorded digest is met by the bytes that it was taken of, and by no others
  have hsource : ∀ path ∈ args.producerPaths,
      digest sha256 now path = some ((digest sha256 before path).getD "") ↔ now.files path = before.files path := by
    intro path hpath
    obtain ⟨a, ha⟩ := Option.ne_none_iff_exists'.mp (hm.sources path hpath)
    unfold digest
    rw [ha]
    constructor
    · intro hdigest
      obtain ⟨b, hb, hsame⟩ := Option.map_eq_some_iff.mp hdigest
      have hshaEq : sha256 a = sha256 b := by simpa using hsame.symm
      rw [hb, hfree path path a b ha hb hshaEq]
    · intro hfile
      rw [hfile]
      rfl
  unfold ValidateArgs.named
  cases hpaths : vargs.producerPaths with
  | none =>
    rw [refingerprint, bind_returns]
    simp only [Except.ok.injEq, exists_eq_left', forM_returns, checkSource_returns, Option.getD_none, not_mem_nil,
      not_false_eq_true, true_implies, false_implies, implies_true, and_true]
    constructor
    · intro h path hpath
      have hitem := h _ (Dict.mem_items.mpr (by rw [hrecorded, if_pos hpath]))
      exact (hsource path hpath).mp hitem
    · rintro h ⟨path, recorded⟩ hitem
      rw [Dict.mem_items, hrecorded] at hitem
      split at hitem
      · rename_i hpath
        cases hitem
        exact (hsource path hpath).mpr (h path hpath)
      · cases hitem
  | some paths =>
    rw [refingerprint, bind_returns]
    simp only [Option.getD_some]
    constructor
    · rintro ⟨_, hgiven, hall⟩
      obtain ⟨_, hgiven, hok⟩ := bind_returns.mp hgiven
      obtain ⟨hfiles, rfl⟩ := fingerprintFiles_returns.mp hgiven
      cases hok
      refine ⟨fun path hpath hnamed => ?_, hfiles⟩
      rw [forM_returns] at hall
      have hitem := hall _ (Dict.mem_items.mpr (by
        rw [Dict.get?_update, get?_fingerprints, if_neg hnamed, hrecorded, if_pos hpath, Option.none_or]))
      exact (hsource path hpath).mp (checkSource_returns.mp hitem)
    · rintro ⟨hsources, hfiles⟩
      refine ⟨_, bind_returns.mpr ⟨_, fingerprintFiles_returns.mpr ⟨hfiles, rfl⟩, rfl⟩, ?_⟩
      rw [forM_returns]
      rintro ⟨path, _⟩ hitem
      rw [Dict.mem_items, Dict.get?_update, get?_fingerprints, hrecorded] at hitem
      rw [checkSource_returns]
      by_cases hnamed : path ∈ paths
      · -- recomputed just now
        rw [if_pos hnamed, Option.some_or] at hitem
        cases hitem
        obtain ⟨a, ha⟩ := Option.ne_none_iff_exists'.mp (hfiles path hnamed)
        simp [digest, ha]
      · rw [if_neg hnamed, Option.none_or] at hitem
        split at hitem
        · rename_i hpath
          cases hitem
          exact (hsource path hpath).mpr (hsources path hpath hnamed)
        · cases hitem

lemma validateManifest_ok_iff (hfree : CollisionFree sha256 before now)
    (hm : Built sha256 csvReader before args m block bytes) :
    validateManifest sha256 now (reload m) vargs = .ok () ↔ ¬ Caught csvReader before now args vargs := by
  have hschema : ¬ (reload m).schema ≠ schemaName := not_not.mpr hm.schema
  have hrows : ∀ recorded, readCsvBlock csvReader before args.csvPath = .ok recorded ↔ recorded = block := by
    intro recorded
    rw [hm.rows]
    simp [eq_comm]
  unfold validateManifest Caught
  rw [rejectIf_bind, bind_returns]
  have hpath : checkGiven vargs.csvPath (checkCsv sha256 now (reload m)) = .ok () ↔
      ¬ ∃ path, vargs.csvPath = some path ∧ (pathName args.csvPath ≠ "" ∧ pathName args.csvPath ≠ pathName path ∨
        now.files path ≠ before.files args.csvPath) := by
    rw [checkGiven_returns]
    simp [checkCsv_returns hfree hm, not_exists, not_and]
  rw [not_or, not_or, not_or]
  constructor
  · rintro ⟨-, _, hcsv, h⟩
    obtain ⟨_, hagree, h⟩ := bind_returns.mp h
    obtain ⟨_, -, h⟩ := bind_returns.mp h
    obtain ⟨hsources, hnamed⟩ := (sources_returns hfree hm).mp h
    refine ⟨hpath.mp hcsv, ?_, ?_, ?_⟩
    · rintro ⟨recorded, rows, hgiven, hrecorded, hdiffer⟩
      rw [(hrows recorded).mp hrecorded] at hdiffer
      exact hdiffer ((checkRows_returns hm).mp (checkGiven_returns.mp hagree rows hgiven))
    · rintro ⟨path, hmem, hnot, hfile⟩
      exact hfile (hsources path hmem hnot)
    · rintro ⟨path, hmem, hgone⟩
      exact hnamed path hmem hgone
  · rintro ⟨hcsv, hagree, hsources, hnamed⟩
    refine ⟨hschema, (), hpath.mpr hcsv, bind_returns.mpr ⟨(), checkGiven_returns.mpr fun rows hgiven => ?_, ?_⟩⟩
    · rw [checkRows_returns hm]
      by_contra hdiffer
      exact hagree ⟨block, rows, hgiven, hm.rows, hdiffer⟩
    · refine bind_returns.mpr ⟨(), rejectEnvironmentMismatch_returns hm _, (sources_returns hfree hm).mpr ⟨?_, ?_⟩⟩
      · intro path hmem hnot
        by_contra hfile
        exact hsources ⟨path, hmem, hnot, hfile⟩
      · intro path hmem hgone
        exact hnamed ⟨path, hmem, hgone⟩

lemma not_caught (hplace : InPlace csvReader now args vargs)
    (hsame : Unchanged before now args vargs) : ¬ Caught csvReader before now args vargs := by
  have hcsv : now.files args.csvPath = before.files args.csvPath := by
    have hgiven := hsame.csv
    cases hpath : vargs.csvPath with
    | none => rwa [hpath] at hgiven
    | some path =>
      obtain rfl := hplace.csvPath path hpath
      rwa [hpath] at hgiven
  rintro (⟨path, hpath, hname | hfile⟩ | ⟨_, rows, hgiven, hrecorded, hdiffer⟩ | ⟨path, hpath, -, hfile⟩ |
    ⟨path, hnamed, hgone⟩)
  · rw [hplace.csvPath path hpath] at hname
    exact hname.2 rfl
  · rw [hplace.csvPath path hpath] at hfile
    exact hfile hcsv
  · have hrows := hplace.csvRows rows hgiven
    have hread : readCsvBlock csvReader now args.csvPath = readCsvBlock csvReader before args.csvPath := by
      unfold readCsvBlock
      rw [hcsv]
    rw [hread, hrecorded] at hrows
    cases hrows
    exact hdiffer ⟨fun _ _ h => h, fun _ => rfl⟩
  · exact hfile (hsame.sources path hpath)
  · exact hplace.named path hnamed hgone

/-- **The contract** holds exactly when nothing has changed or a change is one that is compared. -/
theorem contract_iff (hfree : CollisionFree sha256 before now) (hbuild : buildManifest sha256 csvReader before args = .ok m) :
    Contract sha256 csvReader before now args vargs m ↔
      Unchanged before now args vargs ∨ Caught csvReader before now args vargs := by
  obtain ⟨_, _, hm⟩ := built_of_returns hbuild
  constructor
  · intro h
    by_cases hcaught : Caught csvReader before now args vargs
    · exact .inr hcaught
    · exact .inl (h.sound ((validateManifest_ok_iff hfree hm).mpr hcaught))
  · intro h
    constructor
    · intro haccepted
      exact h.resolve_right ((validateManifest_ok_iff hfree hm).mp haccepted)
    · intro hplace hsame
      exact (validateManifest_ok_iff hfree hm).mpr (not_caught hplace hsame)

end

/-! ## A host that got another GPU -/

/-- SHA-256 of no bytes, and of `a`. -/
def sampleSha256 (bytes : Bytes) : String :=
  if bytes = [] then "e3b0c44298fc1c149afbf4c8996fb92427ae41e4649b934ca495991b7852b855"
  else if bytes = [0x61] then "ca978112ca1bbdcafac231b39a23dc4da786eff8147c4e72b9807785afee48bb"
  else ""

/-- An empty CSV file has no rows. -/
def sampleReader (bytes : Bytes) : Option (List (List String)) := if bytes = [] then some [] else none

def sampleHost (source : Bytes) (arch : String) : Host where
  files path := if path = "tuned.csv" then some [] else if path = "sweep.py" then some source else none
  gpu := some ⟨arch, 228, "2.9.1", some 603⟩

def sampleBuild : BuildArgs where
  csvPath := "tuned.csv"
  kernel := "qkv_projection"
  op := "GemmTunableOp_BFloat16_TN"
  shapes := .empty
  producerPaths := ["sweep.py"]
  qualityGates := none
  job := none
  notes := ""
  now := "2026-01-01T00:00:00Z"

lemma sample_collisionFree {source : Bytes} (hsource : source = [] ∨ source = [0x61]) (arch arch' : String) :
    CollisionFree sampleSha256 (sampleHost [] arch) (sampleHost source arch') := by
  have hfiles : ∀ source arch path bytes, (sampleHost source arch).files path = some bytes → bytes = [] ∨ bytes = source := by
    intro _ _ path _ h
    simp only [sampleHost] at h
    split at h
    · exact .inl (Option.some.inj h).symm
    · split at h
      · exact .inr (Option.some.inj h).symm
      · cases h
  intro _ _ a b ha hb hsame
  obtain rfl : a = [] := (hfiles _ _ _ _ ha).elim id id
  rcases hfiles _ _ _ _ hb with rfl | rfl
  · rfl
  · rcases hsource with rfl | rfl
    · rfl
    · revert hsame
      decide

theorem contract_iff_sample : ∃ m, buildManifest sampleSha256 sampleReader (sampleHost [] "gfx942") sampleBuild = .ok m ∧
    Contract sampleSha256 sampleReader (sampleHost [] "gfx942") (sampleHost [] "gfx942") sampleBuild
      ⟨some "tuned.csv", none, none, none⟩ m := by
  have hfree := sample_collisionFree (.inl rfl) "gfx942" "gfx942"
  refine ⟨_, rfl, (contract_iff hfree rfl).mpr (.inl ⟨rfl, fun _ _ => rfl, ?_⟩)⟩
  rintro _ _ ⟨⟩ ⟨⟩
  rfl

/-- Another GPU, and another source that is named again: both are accepted. -/
theorem other_gpu_accepted : ∃ m, buildManifest sampleSha256 sampleReader (sampleHost [] "gfx90a") sampleBuild = .ok m ∧
      validateManifest sampleSha256 (sampleHost [] "gfx942") (reload m) ⟨some "tuned.csv", none, none, none⟩ = .ok () ∧
      ¬ Unchanged (sampleHost [] "gfx90a") (sampleHost [] "gfx942") sampleBuild ⟨some "tuned.csv", none, none, none⟩ ∧
      validateManifest sampleSha256 (sampleHost [0x61] "gfx90a") (reload m)
        ⟨some "tuned.csv", none, none, some ["sweep.py"]⟩ = .ok () ∧
      ¬ Unchanged (sampleHost [] "gfx90a") (sampleHost [0x61] "gfx90a") sampleBuild
        ⟨some "tuned.csv", none, none, some ["sweep.py"]⟩ := by
  have hbuild : buildManifest sampleSha256 sampleReader (sampleHost [] "gfx90a") sampleBuild = .ok _ := rfl
  obtain ⟨_, _, hm⟩ := built_of_returns hbuild
  refine ⟨_, hbuild, ?_, fun h => ?_, ?_, fun h => ?_⟩
  · rw [validateManifest_ok_iff (sample_collisionFree (.inl rfl) "gfx90a" "gfx942") hm]
    rintro (⟨path, ⟨⟩, hname | hfile⟩ | ⟨recorded, rows, hrows, -⟩ | ⟨path, -, -, hfile⟩ | ⟨path, hnamed, -⟩)
    · exact hname.2 rfl
    · exact hfile rfl
    · cases hrows
    · exact hfile rfl
    · cases hnamed
  · have harch := congrArg Environment.arch (h.environment _ _ rfl rfl)
    revert harch
    decide
  · rw [validateManifest_ok_iff (sample_collisionFree (.inr rfl) "gfx90a" "gfx90a") hm]
    rintro (⟨_, ⟨⟩, hname | hfile⟩ | ⟨_, _, hrows, -⟩ | ⟨_, hmem, hnot, -⟩ | ⟨_, hnamed, hgone⟩)
    · exact hname.2 rfl
    · exact hfile rfl
    · cases hrows
    · exact hnot hmem
    · rw [mem_singleton.mp hnamed] at hgone
      cases hgone
  · have hsource := h.sources "sweep.py" (mem_singleton.mpr rfl)
    revert hsource
    decide

end VKernels.TuningManifest
