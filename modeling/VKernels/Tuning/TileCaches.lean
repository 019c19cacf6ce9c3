import VKernels.Lib.PyText
import VKernels.Tuning.Manifest
import VKernels.Tuning.TileConfigs

/-!
# Tile-config lookup

`lookup_tiles` of `torch_ops/tile_configs.py` for one sidecar, with `load_manifest` and `validate_manifest` of
`torch_ops/tuning_manifest.py` on the raw JSON.  The keys of both caches begin with the path, and a path has at most one
entry in each; the entries of other paths are left out.  The JSON parser, the digest and `pathlib` are parameters.

* `lookupTiles` — with its two caches; `evaluate` — without them; `bucketsOf` — the sidecar of a table of tiles.

## Results

* `lookupTiles_eq` — with fresh caches a lookup is its evaluation, and leaves them fresh.
* `evaluate_follows_iff` — an evaluation keeps the promise exactly on ordinary files.
* `tilesFor_bucketsOf` — the sidecar of a table is looked up as the table.
* `run_follows` — every lookup of a run keeps it when every rewrite leaves the caches fresh and every file is ordinary.
-/

namespace VKernels.TileLookup

open PyText TextLines TileConfigs
open TuningManifest (Bytes Environment)
open List

/-! ## JSON -/

/-- A parsed JSON text; `json.loads` takes infinite numbers and NaN. -/
inductive Json where
  | null
  | bool (b : Bool)
  | int (n : ℤ)
  | float (q : ℚ)
  | inf
  | nan
  | str (s : Text)
  | arr (xs : List Json)
  | obj (items : List (Text × Json))

namespace Json

/-- `bool(value)`. -/
def truthy : Json → Bool
  | null => false
  | bool b => b
  | int n => n ≠ 0
  | float q => q ≠ 0
  | inf => true
  | nan => true
  | str s => !s.isEmpty
  | arr xs => !xs.isEmpty
  | obj items => !items.isEmpty

/-- `value == text`. -/
def isText (text : Text) : Json → Bool
  | str s => s = text
  | _ => false

/-- `value == n`, with `True == 1` and `2.0 == 2`. -/
def isNat (n : ℕ) : Json → Bool
  | bool b => b.toNat = n
  | int k => k = n
  | float q => q = n
  | _ => false

end Json

/-- `TileConfigError`, `ManifestError`, and any other exception. -/
inductive Raised where
  | tileConfig
  | manifest
  | other
  deriving DecidableEq

/-- Why `json.loads(path.read_text())` fails: a `JSONDecodeError`, or another exception. -/
inductive LoadError where
  | decode
  | other

/-- What stays as it is while the sidecar and its manifest are rewritten. -/
structure Env where
  path : Text
  manifestPath : Text
  loads : Bytes → Except LoadError Json
  int : IntSyntax
  sha256 : Bytes → Text
  gpu : Option Environment
  /-- The other files. -/
  sources : Text → Option Bytes
  /-- `str(Path(path))`, `is_absolute` and `str(root / path)`. -/
  normal : Text → Text
  isAbsolute : Text → Bool
  underRoot : Text → Text

/-- A file, with its `st_mtime_ns`. -/
structure FileState where
  mtime : ℕ
  bytes : Bytes

/-- `_stat_key`. -/
def FileState.statKey (f : FileState) : ℕ × ℕ := (f.mtime, f.bytes.length)

open FileState (bytes statKey)

abbrev Buckets := List (Text × Json)

/-- The two stat keys of `_validated_buckets`. -/
abbrev Key := Option (ℕ × ℕ) × Option (ℕ × ℕ)

/-- The two files and the caches' entries for the path. -/
structure World where
  sidecar : Option FileState
  manifest : Option FileState
  jsonCache : Option (ℕ × Json)
  bucketCache : Option (Key × Buckets)

variable (env : Env)

/-! ## The audit -/

section

variable (w : World)

def World.read (p : Text) : Option Bytes :=
  if p = env.path then w.sidecar.map bytes
  else if p = env.manifestPath then w.manifest.map bytes
  else env.sources p

def rejectIf (cond : Prop) [Decidable cond] (e : Raised) : Except Raised Unit := if cond then .error e else .ok ()

/-- `json.loads(path.read_text())`, with a `JSONDecodeError` turned into a `ManifestError`. -/
def load (bytes : Bytes) : Except Raised Json :=
  match env.loads bytes with
  | .ok data => .ok data
  | .error .decode => .error .manifest
  | .error .other => .error .other

def sha256File (p : Text) : Except Raised Text :=
  match w.read env p with
  | some bytes => .ok ("sha256:".toList ++ env.sha256 bytes)
  | none => .error .other

/-- `load_manifest`, past its `is_file`. -/
def loadManifest (bytes : Bytes) : Except Raised (List (Text × Json)) := do
  match ← load env bytes with
  | .obj items => return items
  | _ => .error .manifest

/-- `(manifest.get("producer") or {}).get("fingerprints") or {}`, a dictionary. -/
def fingerprints (manifest : List (Text × Json)) : Except Raised (List (Text × Json)) := do
  let producer := (manifest.lookup "producer".toList).getD .null
  let recorded ← if producer.truthy then
      match producer with
      | .obj items => .ok ((items.lookup "fingerprints".toList).getD .null)
      | _ => .error .other
    else .ok .null
  if recorded.truthy then
    match recorded with
    | .obj items => .ok items
    | _ => .error .other
  else .ok []

/-- `_resolve_manifest_fingerprints`. -/
def resolve (p : Text) : Text :=
  if env.isAbsolute p ∨ w.read env (env.normal p) ≠ none then env.normal p else env.underRoot p

def requiredKeys : List Text :=
  ["schema", "kernel", "csv", "csv_sha256", "op", "shapes", "algos", "validators", "device", "software", "producer",
    "quality_gates", "created"].map String.toList

/-- `manifest.get(block, {}).get(key)`; the block is there. -/
def recordedIn (manifest : List (Text × Json)) (block key : String) : Except Raised Json :=
  match manifest.lookup block.toList with
  | some (.obj items) => .ok ((items.lookup key.toList).getD .null)
  | _ => .error .other

/-- `recorded is not None and recorded != live[key]`. -/
def differs (recorded : Json) (same : Json → Bool) : Prop :=
  match recorded with
  | .null => False
  | value => same value = false

instance (recorded : Json) (same : Json → Bool) : Decidable (differs recorded same) := by
  unfold differs
  split <;> infer_instance

def rejectEnvironmentMismatch (manifest : List (Text × Json)) : Except Raised Unit :=
  match env.gpu with
  | none => .ok ()
  | some live => do
    rejectIf (differs (← recordedIn manifest "device" "arch") (Json.isText live.arch.toList)) .manifest
    rejectIf (differs (← recordedIn manifest "device" "cu_count") (Json.isNat live.cuCount)) .manifest
    rejectIf (differs (← recordedIn manifest "software" "torch") (Json.isText live.torch.toList)) .manifest
    rejectIf (differs (← recordedIn manifest "software" "hip") fun value => live.hip.any fun n => value.isNat n) .manifest

/-- `Path(path).name`. -/
def nameOf (p : Text) : Text := (p.reverse.takeWhile (· ≠ '/')).reverse

/-- `source.is_file()`, and the digest. -/
def checkSource (item : Text × Json) : Except Raised Unit :=
  match w.read env (env.normal item.1) with
  | none => .error .manifest
  | some bytes => rejectIf (item.2.isText ("sha256:".toList ++ env.sha256 bytes) = false) .manifest

/-- `validate_manifest` with the sidecar and the producers of the manifest. -/
def validateManifest (manifest : List (Text × Json)) (producers : List Text) : Except Raised Unit := do
  rejectIf (∃ key ∈ requiredKeys, manifest.lookup key = none) .manifest
  rejectIf (((manifest.lookup "schema".toList).getD .null).isText TuningManifest.schemaName.toList = false) .manifest
  let name := (manifest.lookup "csv".toList).getD .null
  rejectIf (name.truthy = true ∧ name.isText (nameOf env.path) = false) .manifest
  let digest := (manifest.lookup "csv_sha256".toList).getD .null
  if digest.truthy then
    rejectIf (digest.isText (← sha256File env w env.path) = false) .manifest
  rejectEnvironmentMismatch env manifest
  let recorded ← fingerprints manifest
  let given ← producers.mapM fun p => do return (p, Json.str (← sha256File env w p))
  -- the update replaces what is recorded under the same path
  let kept := recorded.filter fun item => given.lookup item.1 |>.isNone
  (kept ++ given).forM (checkSource env w)

/-- `load_manifest` and `validate_manifest` as `_validated_buckets` calls them. -/
def audit (bytes : Bytes) : Except Raised Unit := do
  let manifest ← loadManifest env bytes
  let recorded ← fingerprints manifest
  validateManifest env w manifest (recorded.map fun item => resolve env w item.1)

/-! ## Tiles of a bucket table -/

/-- What `int(x)` gives; `TypeError` and `ValueError` are caught by `_parse_tiles`, `OverflowError` is not. -/
def pyInt : Json → Except Raised ℤ
  | .bool b => .ok (if b then 1 else 0)
  | .int n => .ok n
  | .float q => .ok (if 0 ≤ q then q.floor else q.ceil)
  | .inf => .error .other
  | .str s => match env.int.toInt s with
    | some n => .ok n
    | none => .error .tileConfig
  | _ => .error .tileConfig

/-- Iterating over an entry. -/
def items : Json → Option (List Json)
  | .arr xs => some xs
  | .str s => some (s.map fun c => .str [c])
  | .obj kvs => some (kvs.map fun kv => .str kv.1)
  | _ => none

def parseTiles (entry : Json) : Except Raised Tiles :=
  match items entry with
  | none => .error .tileConfig
  -- the unpacking looks at a fifth item
  | some xs => match (xs.take 5).mapM (pyInt env) with
    | .error e => .error e
    | .ok [bm, bn, warps, stages] =>
      if h : 0 < bm.toNat ∧ 0 < bn.toNat ∧ 0 < warps.toNat ∧ 0 < stages.toNat then
        .ok ⟨bm.toNat, bn.toNat, warps.toNat, stages.toNat, h.1, h.2.1, h.2.2.1, h.2.2.2⟩
      else .error .tileConfig
    | .ok _ => .error .tileConfig

/-- `sorted(int(k) for k in buckets)`, before the sort. -/
def bucketKeys (buckets : Buckets) : Option (List ℤ) := buckets.mapM fun kv => env.int.toInt kv.1

/-- The end of `lookup_tiles`. -/
def tilesFor (buckets : Buckets) (m : ℤ) : Except Raised (Option Tiles) :=
  match bucketKeys env buckets with
  | none => .error .other
  | some keys => match nearestBucket keys m with
    | none => .ok none
    | some b => match buckets.lookup (showInt b) with
      -- the table has no integer keys
      | none => .error .other
      | some entry => (parseTiles env entry).map some

/-- `data.get("buckets")`, a table that is not empty. -/
def usableBuckets : Json → Except Raised Buckets
  | .obj data => match data.lookup "buckets".toList with
    | some (.obj []) => .error .tileConfig
    | some (.obj buckets) => .ok buckets
    | _ => .error .tileConfig
  | _ => .error .tileConfig

/-! ## The lookup -/

/-- `_load_json` of a file that is there. -/
def loadJson (f : FileState) : Except Raised Json × World :=
  match w.jsonCache with
  | some (mtime, data) => if mtime = f.mtime then (.ok data, w) else loadNew
  | none => loadNew
where
  loadNew : Except Raised Json × World :=
    match load env f.bytes with
    | .ok data => (.ok data, { w with jsonCache := some (f.mtime, data) })
    | .error e => (.error e, w)

/-- The key of `_validated_buckets`. -/
def World.key : Key := (w.sidecar.map statKey, w.manifest.map statKey)

/-- `_validated_buckets` past a miss. -/
def validateNew (f : FileState) : Except Raised Buckets × World :=
  match loadJson env w f with
  | (.error e, w) => (.error e, w)
  | (.ok data, w) => match usableBuckets data with
    | .error e => (.error e, w)
    | .ok buckets => match w.manifest.elim (.ok ()) fun g => audit env w g.bytes with
      | .error e => (.error e, w)
      | .ok _ => (.ok buckets, { w with bucketCache := some (w.key, buckets) })

def validatedBuckets (f : FileState) : Except Raised Buckets × World :=
  match w.bucketCache with
  | some (key, buckets) => if key = w.key then (.ok buckets, w) else validateNew env w f
  | none => validateNew env w f

/-- `lookup_tiles`, by the op's name or with an explicit `config_path`. -/
def lookupTiles (explicit : Bool) (m : ℤ) : Except Raised (Option Tiles) × World :=
  match w.sidecar with
  -- `_config_path` gives `None`; an explicit path is read all the same
  | none => (if explicit then .error .other else .ok none, w)
  | some f => match validatedBuckets env w f with
    | (.error e, w) => (.error e, w)
    | (.ok buckets, w) => (tilesFor env buckets m, w)

/-- The table of the sidecar as it is, audited. -/
def freshBuckets (f : FileState) : Except Raised Buckets := do
  let data ← load env f.bytes
  let buckets ← usableBuckets data
  let _ ← w.manifest.elim (.ok ()) fun g => audit env w g.bytes
  return buckets

def evaluate (explicit : Bool) (m : ℤ) : Except Raised (Option Tiles) :=
  match w.sidecar with
  | none => if explicit then .error .other else .ok none
  | some f => match freshBuckets env w f with
    | .error e => .error e
    | .ok buckets => tilesFor env buckets m

end

/-! ## Caches that are right -/

/-- Every entry under the files' stat keys was made from what they hold. -/
structure Fresh (env : Env) (w : World) : Prop where
  json : ∀ mtime data, w.jsonCache = some (mtime, data) → ∀ f, w.sidecar = some f → mtime = f.mtime →
    load env f.bytes = .ok data
  buckets : ∀ key b, w.bucketCache = some (key, b) → ∀ f, w.sidecar = some f → key = w.key → freshBuckets env w f = .ok b

section

variable {env : Env} {w : World} {f : FileState}

lemma loadJson_spec (h : Fresh env w) (hf : w.sidecar = some f) :
    ∃ cache, loadJson env w f = (load env f.bytes, { w with jsonCache := cache }) ∧
      Fresh env { w with jsonCache := cache } := by
  have hnew : ∃ cache, loadJson.loadNew env w f = (load env f.bytes, { w with jsonCache := cache }) ∧
      Fresh env { w with jsonCache := cache } := by
    unfold loadJson.loadNew
    cases hload : load env f.bytes with
    | error e => exact ⟨w.jsonCache, rfl, h⟩
    | ok data =>
      refine ⟨some _, rfl, fun mtime data' hcache f' hf' _ => ?_, fun key b hcache f' hf' hkey => ?_⟩
      · cases hcache
        cases hf.symm.trans hf'
        exact hload
      · exact h.buckets key b hcache f' hf' hkey
  unfold loadJson
  split
  · rename_i mtime data hcache
    by_cases hmtime : mtime = f.mtime
    · refine ⟨w.jsonCache, ?_, h⟩
      rw [if_pos hmtime, h.json mtime data hcache f hf hmtime]
    · rw [if_neg hmtime]
      exact hnew
  · exact hnew

lemma freshBuckets_eq (env : Env) (w : World) (f : FileState) : freshBuckets env w f =
    match load env f.bytes with
    | .error e => .error e
    | .ok data => match usableBuckets data with
      | .error e => .error e
      | .ok buckets => match w.manifest.elim (.ok ()) fun g => audit env w g.bytes with
        | .error e => .error e
        | .ok _ => .ok buckets := by
  unfold freshBuckets
  cases load env f.bytes with
  | error e => rfl
  | ok data =>
    simp only [bind, Except.bind]
    cases usableBuckets data with
    | error e => rfl
    | ok buckets =>
      cases w.manifest.elim _ fun g => audit env w g.bytes <;> rfl

lemma validatedBuckets_spec (h : Fresh env w) (hf : w.sidecar = some f) :
    ∃ w', validatedBuckets env w f = (freshBuckets env w f, w') ∧ Fresh env w' ∧ w'.sidecar = w.sidecar ∧
      w'.manifest = w.manifest := by
  have hnew : ∃ w', validateNew env w f = (freshBuckets env w f, w') ∧ Fresh env w' ∧ w'.sidecar = w.sidecar ∧
      w'.manifest = w.manifest := by
    obtain ⟨cache, hload, hfresh⟩ := loadJson_spec h hf
    have hbuckets := freshBuckets_eq env w f
    unfold validateNew
    rw [hload]
    cases hdata : load env f.bytes with
    | error e =>
      rw [hdata] at hbuckets
      exact ⟨_, by rw [hbuckets], hfresh, rfl, rfl⟩
    | ok data =>
      rw [hdata] at hbuckets
      cases husable : usableBuckets data with
      | error e =>
        exact ⟨_, by simp [husable, hbuckets], hfresh, rfl, rfl⟩
      | ok buckets =>
        have hsame : (w.manifest.elim (.ok ()) fun g => audit env { w with jsonCache := cache } g.bytes) =
            w.manifest.elim _ fun g => audit env w g.bytes := rfl
        simp only [husable] at hbuckets ⊢
        rw [hsame]
        cases haudit : w.manifest.elim _ fun g => audit env w g.bytes with
        | error e =>
          rw [haudit] at hbuckets
          exact ⟨_, by rw [hbuckets], hfresh, rfl, rfl⟩
        | ok _ =>
          rw [haudit] at hbuckets
          refine ⟨{ w with jsonCache := cache, bucketCache := some (w.key, buckets) }, by rw [hbuckets]; rfl,
            ⟨hfresh.json, fun key b hcache f' hf' _ => ?_⟩, rfl, rfl⟩
          cases hcache
          cases hf.symm.trans hf'
          exact hbuckets
  unfold validatedBuckets
  split
  · rename_i key buckets hcache
    by_cases hkey : key = w.key
    · refine ⟨w, ?_, h, rfl, rfl⟩
      rw [if_pos hkey, h.buckets key buckets hcache f hf hkey]
    · rw [if_neg hkey]
      exact hnew
  · exact hnew

lemma lookupTiles_eq (h : Fresh env w) (explicit : Bool) (m : ℤ) :
    (lookupTiles env w explicit m).1 = evaluate env w explicit m ∧ Fresh env (lookupTiles env w explicit m).2 := by
  unfold lookupTiles evaluate
  cases hf : w.sidecar with
  | none => exact ⟨rfl, h⟩
  | some f =>
    obtain ⟨_, hbuckets, hfresh, -, -⟩ := validatedBuckets_spec h hf
    simp only [hbuckets]
    cases freshBuckets env w f with
    | error e => exact ⟨rfl, hfresh⟩
    | ok buckets => exact ⟨rfl, hfresh⟩

/-! ## What a lookup promises -/

/-- The tiles of the nearest bucket of the sidecar, which the manifest, if any, validates. -/
structure Served (env : Env) (w : World) (m : ℤ) (t : Tiles) : Prop where
  audited : ∃ f, w.sidecar = some f ∧ ∃ data, load env f.bytes = .ok data ∧ ∃ buckets, usableBuckets data = .ok buckets ∧
    (∀ g, w.manifest = some g → audit env w g.bytes = .ok ()) ∧
    ∃ keys, bucketKeys env buckets = some keys ∧
      ∃ b ∈ keys, (∀ c ∈ keys, |b - m| < |c - m| ∨ |b - m| = |c - m| ∧ b ≤ c) ∧
        ∃ entry, buckets.lookup (showInt b) = some entry ∧ parseTiles env entry = .ok t

/-- One of the two exceptions, `None` without a sidecar, or the tiles. -/
def Follows (env : Env) (w : World) (m : ℤ) (outcome : Except Raised (Option Tiles)) : Prop :=
  outcome = .error .tileConfig ∨ outcome = .error .manifest ∨ (w.sidecar = none ∧ outcome = .ok none) ∨
    ∃ t, outcome = .ok (some t) ∧ Served env w m t

/-- An infinite number before anything that `int` refuses, among the items that the unpacking looks at. -/
def Overflows (env : Env) (entry : Json) : Prop :=
  ∃ xs, items entry = some xs ∧ ∃ i < 5, xs[i]? = some Json.inf ∧ ∀ j < i, ∃ x n, xs[j]? = some x ∧ pyInt env x = .ok n

/-- Files that a lookup can read: a named sidecar is there, the text decodes, the audit raises nothing but a `ManifestError`,
every bucket is an integer, the nearest one is spelled as `str` spells it, and its entry does not overflow. -/
structure Ordinary (env : Env) (w : World) (explicit : Bool) (m : ℤ) : Prop where
  present : w.sidecar = none → explicit = false
  decodes : ∀ f, w.sidecar = some f → load env f.bytes ≠ .error .other
  audits : ∀ f data buckets g, w.sidecar = some f → load env f.bytes = .ok data → usableBuckets data = .ok buckets →
    w.manifest = some g → audit env w g.bytes ≠ .error .other
  spelled : ∀ f buckets, w.sidecar = some f → freshBuckets env w f = .ok buckets →
    ∃ keys, bucketKeys env buckets = some keys ∧ ∀ b, nearestBucket keys m = some b →
      ∃ entry, buckets.lookup (showInt b) = some entry ∧ ¬ Overflows env entry

section

lemma pyInt_other_iff {x : Json} : pyInt env x = .error .other ↔ x = .inf := by
  unfold pyInt
  split
  · simp
  · simp
  · simp
  · simp
  · split <;> simp
  · rename_i hinf _
    simpa using hinf

lemma mapM_other_iff {xs : List Json} : xs.mapM (pyInt env) = .error .other ↔
    ∃ i : ℕ, xs[i]? = some Json.inf ∧ ∀ j < i, ∃ x n, xs[j]? = some x ∧ pyInt env x = .ok n := by
  induction xs with
  | nil => simp [pure, Except.pure]
  | cons x xs ih =>
    rw [mapM_cons]
    cases hx : pyInt env x with
    | error e =>
      constructor
      · rintro h
        cases h
        exact ⟨0, congrArg some (pyInt_other_iff.mp hx), fun j hj => absurd hj (Nat.not_lt_zero j)⟩
      · rintro ⟨i, hi, hbefore⟩
        cases i with
        | zero =>
          cases hi
          cases hx
          rfl
        | succ i =>
          obtain ⟨_, n, hx', hn⟩ := hbefore 0 (Nat.succ_pos i)
          cases hx'
          rw [hx] at hn
          cases hn
    | ok n =>
      have hhead : x ≠ .inf := by
        rintro rfl
        cases hx
      have htail : (do let bs ← xs.mapM (pyInt env); pure (n :: bs)) = (.error .other : Except Raised (List ℤ)) ↔
          xs.mapM (pyInt env) = .error .other := by
        cases xs.mapM (pyInt env) <;> simp
      refine htail.trans (ih.trans ⟨?_, ?_⟩)
      · rintro ⟨i, hi, hbefore⟩
        refine ⟨i + 1, hi, fun j hj => ?_⟩
        cases j with
        | zero => exact ⟨x, n, rfl, hx⟩
        | succ j => exact hbefore j (Nat.lt_of_succ_lt_succ hj)
      · rintro ⟨i, hi, hbefore⟩
        cases i with
        | zero =>
          cases hi
          exact absurd rfl hhead
        | succ i => exact ⟨i, hi, fun j hj => hbefore (j + 1) (Nat.succ_lt_succ hj)⟩

lemma parseTiles_other_iff {entry : Json} : parseTiles env entry = .error .other ↔ Overflows env entry := by
  unfold parseTiles Overflows
  cases items entry with
  | none => simp
  | some xs =>
    have hmap : (xs.take 5).mapM (pyInt env) = .error .other ↔
        ∃ i < 5, xs[i]? = some Json.inf ∧ ∀ j < i, ∃ x n, xs[j]? = some x ∧ pyInt env x = .ok n := by
      rw [mapM_other_iff]
      constructor
      · rintro ⟨i, hi, hbefore⟩
        have hlt : i < 5 := by
          by_contra h
          rw [getElem?_take_eq_none (Nat.le_of_not_lt h)] at hi
          cases hi
        rw [getElem?_take_of_lt hlt] at hi
        refine ⟨i, hlt, hi, fun j hj => ?_⟩
        have hj' := hbefore j hj
        rwa [getElem?_take_of_lt (lt_trans hj hlt)] at hj'
      · rintro ⟨i, hlt, hi, hbefore⟩
        refine ⟨i, by rwa [getElem?_take_of_lt hlt], fun j hj => ?_⟩
        rw [getElem?_take_of_lt (lt_trans hj hlt)]
        exact hbefore j hj
    simp only [Option.some.injEq, exists_eq_left']
    rw [← hmap]
    split
    · rename_i e he
      rw [he, Except.error.injEq, Except.error.injEq]
    · rename_i _ _ _ _ he
      rw [he]
      split <;> simp
    · rename_i _ _ he
      rw [he]
      simp

variable {m : ℤ} {buckets : Buckets}

lemma nearestBucket_eq {keys : List ℤ} {b : ℤ} (hb : b ∈ keys)
    (hleast : ∀ c ∈ keys, |b - m| < |c - m| ∨ |b - m| = |c - m| ∧ b ≤ c) : nearestBucket keys m = some b := by
  cases hnear : nearestBucket keys m with
  | none =>
    rw [nearestBucket_eq_none.mp hnear] at hb
    cases hb
  | some c =>
    obtain ⟨hc, hcleast⟩ := nearestBucket_spec hnear
    have h1 := hleast c hc
    have h2 := hcleast b hb
    have heq : c = b := by omega
    rw [heq]

lemma freshBuckets_ok_iff : freshBuckets env w f = .ok buckets ↔
    ∃ data, load env f.bytes = .ok data ∧ usableBuckets data = .ok buckets ∧
      ∀ g, w.manifest = some g → audit env w g.bytes = .ok () := by
  rw [freshBuckets_eq]
  cases load env f.bytes with
  | error e => simp
  | ok data =>
    simp only [Except.ok.injEq, exists_eq_left']
    cases usableBuckets data with
    | error e => simp
    | ok b =>
      cases w.manifest with
      | none => simp
      | some g =>
        simp only [Option.elim_some, Option.some.injEq, forall_eq']
        cases audit env w g.bytes <;> simp

lemma usableBuckets_ne_other {data : Json} (h : usableBuckets data = .error .other) : False := by
  unfold usableBuckets at h
  split at h
  · split at h <;> cases h
  · cases h

lemma usableBuckets_ne_nil {data : Json} (h : usableBuckets data = .ok buckets) : buckets ≠ [] := by
  unfold usableBuckets at h
  split at h
  · split at h
    · cases h
    · rename_i hne _
      cases h
      rintro rfl
      exact hne rfl
    · cases h
  · cases h

lemma bucketKeys_ne_nil (hne : buckets ≠ []) {keys : List ℤ} (h : bucketKeys env buckets = some keys) :
    keys ≠ [] := by
  rintro rfl
  cases buckets with
  | nil => exact hne rfl
  | cons kv rest =>
    unfold bucketKeys at h
    rw [mapM_cons] at h
    cases hkey : env.int.toInt kv.1 with
    | none =>
      rw [hkey] at h
      cases h
    | some k =>
      rw [hkey] at h
      cases hrest : rest.mapM (fun kv => env.int.toInt kv.1) with
      | none =>
        rw [hrest] at h
        cases h
      | some ks =>
        rw [hrest] at h
        cases h

lemma ordinary_of_ne_other {explicit : Bool} (hother : evaluate env w explicit m ≠ .error .other) :
    Ordinary env w explicit m := by
  unfold evaluate at hother
  constructor
  · intro hnone
    rw [hnone] at hother
    cases explicit with
    | false => rfl
    | true => exact absurd rfl hother
  · intro f hf hload
    refine hother ?_
    rw [hf]
    simp only
    rw [freshBuckets_eq, hload]
  · intro f _ buckets g hf hload husable hg haudit
    refine hother ?_
    rw [hf]
    simp only
    rw [freshBuckets_eq, hload]
    simp [husable, hg, Option.elim_some, haudit]
  · intro f buckets hf hbuckets
    rw [hf] at hother
    simp only [hbuckets] at hother
    unfold tilesFor at hother
    cases hkeys : bucketKeys env buckets with
    | none =>
      rw [hkeys] at hother
      exact absurd rfl hother
    | some keys =>
      refine ⟨keys, rfl, fun b hb => ?_⟩
      simp only [hkeys, hb] at hother
      cases hentry : buckets.lookup _ with
      | none =>
        rw [hentry] at hother
        exact absurd rfl hother
      | some entry =>
        refine ⟨entry, rfl, fun hover => ?_⟩
        rw [hentry] at hother
        rw [← parseTiles_other_iff] at hover
        simp only [hover] at hother
        exact hother rfl

lemma evaluate_follows_iff {explicit : Bool} :
    Follows env w m (evaluate env w explicit m) ↔ Ordinary env w explicit m := by
  constructor
  · intro hfollows
    apply ordinary_of_ne_other
    intro h
    rw [h] at hfollows
    rcases hfollows with h | h | ⟨-, h⟩ | ⟨t, h, -⟩ <;> cases h
  · intro h
    unfold evaluate
    cases hf : w.sidecar with
    | none =>
      rw [h.present hf]
      exact .inr (.inr (.inl ⟨hf, rfl⟩))
    | some f =>
      simp only
      cases hbuckets : freshBuckets env w f with
      | error e =>
        cases e with
        | tileConfig => exact .inl rfl
        | manifest => exact .inr (.inl rfl)
        | other =>
          -- neither the text nor the audit raises it
          exfalso
          rw [freshBuckets_eq] at hbuckets
          cases hload : load env f.bytes with
          | error e =>
            rw [hload] at hbuckets
            cases hbuckets
            exact h.decodes f hf hload
          | ok data =>
            rw [hload] at hbuckets
            simp only at hbuckets
            cases husable : usableBuckets data with
            | error e =>
              rw [husable] at hbuckets
              cases hbuckets
              exact usableBuckets_ne_other husable
            | ok buckets =>
              rw [husable] at hbuckets
              cases hg : w.manifest with
              | none =>
                rw [hg] at hbuckets
                cases hbuckets
              | some g =>
                rw [hg] at hbuckets
                simp only [Option.elim_some] at hbuckets
                cases haudit : audit env w g.bytes with
                | ok _ =>
                  rw [haudit] at hbuckets
                  cases hbuckets
                | error e =>
                  rw [haudit] at hbuckets
                  cases hbuckets
                  exact h.audits f data buckets g hf hload husable hg haudit
      | ok buckets =>
        obtain ⟨keys, hkeys, hspelled⟩ := h.spelled f buckets hf hbuckets
        rw [freshBuckets_ok_iff] at hbuckets
        obtain ⟨data, hload, husable, haudit⟩ := hbuckets
        simp only
        unfold tilesFor
        rw [hkeys]
        simp only
        cases hnear : nearestBucket keys m with
        | none =>
          have hne := bucketKeys_ne_nil (usableBuckets_ne_nil husable) hkeys
          exact absurd (nearestBucket_eq_none.mp hnear) hne
        | some b =>
          obtain ⟨entry, hentry, hover⟩ := hspelled b hnear
          simp only [hentry]
          cases hparse : parseTiles env entry with
          | error e =>
            cases e with
            | tileConfig => exact .inl rfl
            | manifest => exact .inr (.inl rfl)
            | other => exact absurd (by rwa [← parseTiles_other_iff]) hover
          | ok t =>
            obtain ⟨hmem, hleast⟩ := nearestBucket_spec hnear
            exact .inr (.inr (.inr ⟨t, rfl, ⟨f, hf, data, hload, buckets, husable, haudit, keys, hkeys, b, hmem, hleast,
              entry, hentry, hparse⟩⟩))

lemma evaluate_of_served {t : Tiles} (h : Served env w m t) (explicit : Bool) :
    evaluate env w explicit m = .ok (some t) := by
  obtain ⟨f, hf, data, hload, _, husable, haudit, _, hkeys, b, hmem, hleast, _, hentry, hparse⟩ := h.audited
  unfold evaluate
  rw [hf]
  simp only [freshBuckets_ok_iff.mpr ⟨data, hload, husable, haudit⟩]
  unfold tilesFor
  rw [hkeys]
  simp only [nearestBucket_eq hmem hleast, hentry, hparse]
  rfl

end

end

/-! ## A table of tiles -/

section

def entryOf (t : Tiles) : Json := .arr [.int t.bm, .int t.bn, .int t.warps, .int t.stages]

/-- The sidecar's table, its buckets spelled as `str` spells them. -/
def bucketsOf (table : List (ℤ × Tiles)) : Buckets := table.map fun e => (showInt e.1, entryOf e.2)

lemma parseTiles_entryOf (t : Tiles) : parseTiles env (entryOf t) = .ok t := by
  have hpos : 0 < (t.bm : ℤ).toNat ∧ 0 < (t.bn : ℤ).toNat ∧ 0 < (t.warps : ℤ).toNat ∧ 0 < (t.stages : ℤ).toNat :=
    ⟨t.bm_pos, t.bn_pos, t.warps_pos, t.stages_pos⟩
  have hints : ([Json.int t.bm, .int t.bn, .int t.warps, .int t.stages].take 5).mapM (pyInt env) =
      .ok [(t.bm : ℤ), t.bn, t.warps, t.stages] := rfl
  unfold parseTiles entryOf items
  exact dif_pos hpos

variable {env} {table : List (ℤ × Tiles)} (hdigits : ∀ e ∈ table,
  env.int.maxDigits = 0 ∨ (Nat.toDigits 10 e.1.natAbs).length ≤ env.int.maxDigits)
include hdigits

lemma bucketKeys_bucketsOf : bucketKeys env (bucketsOf table) = some (table.map Prod.fst) := by
  induction table with
  | nil => rfl
  | cons e table ih =>
    have hrest := ih fun e he => hdigits e (mem_cons_of_mem _ he)
    unfold bucketKeys bucketsOf at hrest ⊢
    rw [map_cons, mapM_cons, IntSyntax.toInt_showInt (hdigits e mem_cons_self), hrest]
    rfl

lemma lookup_bucketsOf {b : ℤ} (hb : b ∈ table.map Prod.fst) :
    (bucketsOf table).lookup (showInt b) = (table.lookup b).map entryOf := by
  obtain ⟨e₀, he₀, rfl⟩ := mem_map.mp hb
  have hread := IntSyntax.toInt_showInt (hdigits e₀ he₀)
  clear hb he₀
  induction table with
  | nil => rfl
  | cons e table ih =>
    have hrest := ih fun e he => hdigits e (mem_cons_of_mem _ he)
    unfold bucketsOf at hrest ⊢
    rw [map_cons, lookup_cons, lookup_cons]
    by_cases h : e₀.1 = e.1
    · rw [h, beq_self_eq_true, beq_self_eq_true]
      rfl
    · -- different numbers are read back from different spellings
      have hspelling : showInt e₀.1 ≠ showInt e.1 := by
        intro heq
        rw [heq, IntSyntax.toInt_showInt (hdigits e mem_cons_self)] at hread
        exact h (Option.some.inj hread).symm
      rw [beq_false_of_ne h, beq_false_of_ne hspelling]
      exact hrest

/-- **A sidecar is looked up as its table.** -/
theorem tilesFor_bucketsOf (m : ℕ) : tilesFor env (bucketsOf table) m = .ok (tableTiles table m) := by
  unfold tilesFor tableTiles
  rw [bucketKeys_bucketsOf hdigits]
  simp only
  cases hnear : nearestBucket _ m with
  | none => rfl
  | some b =>
    have hmem := (nearestBucket_spec hnear).1
    obtain ⟨t, ht⟩ : ∃ t, table.lookup b = some t := by
      rw [← Option.isSome_iff_exists, lookup_isSome_iff]
      obtain ⟨e, he, rfl⟩ := mem_map.mp hmem
      exact ⟨e, he, beq_self_eq_true _⟩
    simp only [lookup_bucketsOf hdigits hmem, ht, Option.map_some, Option.bind_some, parseTiles_entryOf]
    rfl

end

/-! ## Runs -/

/-- A rewrite (or removal) of one of the files, or a lookup. -/
inductive Step where
  | rewriteSidecar (f : Option FileState)
  | rewriteManifest (f : Option FileState)
  | lookup (explicit : Bool) (m : ℤ)

/-- A lookup, with the files it was made on. -/
structure Observation where
  world : World
  m : ℤ
  outcome : Except Raised (Option Tiles)

section

def Step.after (w : World) : Step → World
  | .rewriteSidecar f => { w with sidecar := f }
  | .rewriteManifest f => { w with manifest := f }
  | .lookup explicit m => (lookupTiles env w explicit m).2

def Step.seen (w : World) : Step → List Observation
  | .lookup explicit m => [⟨w, m, (lookupTiles env w explicit m).1⟩]
  | _ => []

def observations : World → List Step → List Observation
  | _, [] => []
  | w, s :: steps => s.seen env w ++ observations (s.after env w) steps

/-- A rewrite leaves no entry of other contents under the new stat keys; a lookup is of ordinary files. -/
def Step.Admissible (w : World) : Step → Prop
  | .lookup explicit m => Ordinary env w explicit m
  | s => Fresh env (s.after env w)

/-- Every step is admissible where it is made. -/
def Meets : World → List Step → Prop
  | _, [] => True
  | w, s :: steps => s.Admissible env w ∧ Meets (s.after env w) steps

/-- Every rewrite changes the modification time or the size. -/
def Changes : World → List Step → Prop
  | _, [] => True
  | w, s :: steps => (match s with
      | .rewriteSidecar f => f.map statKey ≠ w.sidecar.map statKey
      | .rewriteManifest f => f.map statKey ≠ w.manifest.map statKey
      | .lookup _ _ => True) ∧ Changes (s.after env w) steps

def atStart (sidecar manifest : Option FileState) : World := ⟨sidecar, manifest, none, none⟩

variable {env}

lemma fresh_atStart (sidecar manifest : Option FileState) : Fresh env (atStart sidecar manifest) where
  json mtime data h := by cases h
  buckets key b h := by cases h

/-- **One step** keeps the caches fresh, and its lookup keeps the promise. -/
theorem step_follows {w : World} (hfresh : Fresh env w) {s : Step} (h : s.Admissible env w) :
    Fresh env (s.after env w) ∧ ∀ o ∈ s.seen env w, Follows env o.world o.m o.outcome := by
  cases s with
  | rewriteSidecar f => exact ⟨h, fun o ho => by cases ho⟩
  | rewriteManifest f => exact ⟨h, fun o ho => by cases ho⟩
  | lookup explicit m =>
    obtain ⟨hout, hafter⟩ := lookupTiles_eq hfresh explicit m
    refine ⟨hafter, fun o ho => ?_⟩
    rw [mem_singleton.mp ho]
    exact (hout ▸ evaluate_follows_iff.mpr h : Follows env w m (lookupTiles env w explicit m).1)

lemma run_follows_from (steps : List Step) : ∀ w : World, Fresh env w → Meets env w steps →
    ∀ o ∈ observations env w steps, Follows env o.world o.m o.outcome := by
  induction steps with
  | nil =>
    intro w _ _ o ho
    cases ho
  | cons s steps ih =>
    intro w hfresh hmeets o ho
    obtain ⟨hafter, hseen⟩ := step_follows hfresh hmeets.1
    rcases mem_append.mp ho with ho | ho
    · exact hseen o ho
    · exact ih _ hafter hmeets.2 o ho

end

/-- **Every lookup** of a run keeps the promise when its steps are admissible. -/
theorem run_follows (env : Env) (sidecar manifest : Option FileState) (steps : List Step)
    (h : Meets env (atStart sidecar manifest) steps) :
    ∀ o ∈ observations env (atStart sidecar manifest) steps, Follows env o.world o.m o.outcome :=
  run_follows_from steps _ (fresh_atStart sidecar manifest) h

/-! ## A rewrite within one timestamp -/

section

def asciiBytes (text : String) : Bytes := text.toList.map fun c => UInt8.ofNat c.toNat

def text16 : Bytes := asciiBytes "\x7b\"buckets\": \x7b\"16\": [16, 128, 4, 3]\x7d\x7d"

def text128 : Bytes := asciiBytes "\x7b\"buckets\": \x7b\"16\": [128, 128, 4, 3]\x7d\x7d"

def tableJson (bm : ℤ) : Json :=
  .obj [("buckets".toList, .obj [("16".toList, .arr [.int bm, .int 128, .int 4, .int 3])])]

/-- A host without a GPU that reads the two texts. -/
def plainEnv : Env where
  path := "configs/glm_fp8_grouped.json".toList
  manifestPath := "configs/glm_fp8_grouped.manifest.json".toList
  loads bytes := if bytes = text16 then .ok (tableJson 16) else if bytes = text128 then .ok (tableJson 128) else .error .decode
  int := IntSyntax.ascii
  sha256 _ := []
  gpu := none
  sources _ := none
  normal p := p
  isAbsolute p := p.head? = some '/'
  underRoot p := "vkernels/".toList ++ p

theorem tilesFor_bucketsOf_one : ∃ t : Tiles, t.bm = 128 ∧
    tilesFor plainEnv (bucketsOf [(2048, t)]) 7 = .ok (tableTiles [(2048, t)] 7) :=
  ⟨⟨128, 64, 4, 3, by decide, by decide, by decide, by decide⟩, rfl,
    tilesFor_bucketsOf (fun e he => by obtain rfl := mem_singleton.mp he; exact .inr (by decide)) 7⟩

def rewriteAt (mtime : ℕ) : List Step := [.lookup false 16, .rewriteSidecar (some ⟨mtime, text128⟩), .lookup false 16]

section

variable (mtime : ℕ) (json : Option (ℕ × Json)) (buckets : Option (Key × Buckets))

lemma evaluate_text16 :
    (evaluate plainEnv ⟨some ⟨mtime, text16⟩, none, json, buckets⟩ false 16).map (Option.map Tiles.bm) = .ok (some 16) := rfl

lemma evaluate_text128 :
    (evaluate plainEnv ⟨some ⟨mtime, text128⟩, none, json, buckets⟩ false 16).map (Option.map Tiles.bm) = .ok (some 128) := rfl

end

lemma ordinary_of_map {env : Env} {w : World} {explicit : Bool} {m : ℤ} {n : ℕ}
    (h : (evaluate env w explicit m).map (Option.map Tiles.bm) = .ok (some n)) : Ordinary env w explicit m := by
  apply ordinary_of_ne_other
  intro hother
  rw [hother] at h
  cases h

theorem run_follows_new_mtime : Changes plainEnv (atStart (some ⟨5, text16⟩) none) (rewriteAt 6) ∧
    ∀ o ∈ observations plainEnv (atStart (some ⟨5, text16⟩) none) (rewriteAt 6), Follows plainEnv o.world o.m o.outcome := by
  refine ⟨⟨trivial, fun h => ?_, trivial, trivial⟩, run_follows plainEnv (some ⟨5, text16⟩) none (rewriteAt 6)
    ⟨ordinary_of_map (evaluate_text16 5 none none), ⟨?_, ?_⟩, ordinary_of_map (evaluate_text128 6 _ _), trivial⟩⟩
  · exact absurd (congrArg (Option.map Prod.fst) h) (by decide)
  · rintro _ _ ⟨⟩ f ⟨⟩ hmtime
    exact absurd hmtime (by decide)
  · rintro key b ⟨⟩ f ⟨⟩ hkey
    exact absurd (congrArg (fun key => key.1.map Prod.fst) hkey) (by decide)

/-- Rewritten with another size but the same mtime, the sidecar's old tiles are served. -/
theorem same_mtime_serves_stale : Changes plainEnv (atStart (some ⟨5, text16⟩) none) (rewriteAt 5) ∧
    ¬ ∀ o ∈ observations plainEnv (atStart (some ⟨5, text16⟩) none) (rewriteAt 5), Follows plainEnv o.world o.m o.outcome := by
  refine ⟨⟨trivial, fun h => ?_, trivial, trivial⟩, fun hall => ?_⟩
  · exact absurd (congrArg (Option.map Prod.snd) h) (by decide)
  · have hstale := hall _ (.tail _ (.head _))
    rcases hstale with h | h | ⟨h, -⟩ | ⟨t, h, hserved⟩
    · cases h
    · cases h
    · cases h
    · have hold : Except.ok (some 16) = (.ok (some t.bm) : Except Raised (Option ℕ)) :=
        congrArg (Except.map (Option.map Tiles.bm)) h
      have hnew : Except.ok (some t.bm) = (.ok (some 128) : Except Raised (Option ℕ)) :=
        (congrArg (Except.map (Option.map Tiles.bm)) (evaluate_of_served hserved false)).symm.trans (evaluate_text128 5 _ _)
      exact absurd (hold.trans hnew) (by decide)

end

end VKernels.TileLookup
