import VKernels.Tuning.NativeStore

/-!
# Runs of the native tuning store

Operations on stores that share a directory, from an empty one.

* `Op`, `run` — operations one after the other; `wanted` — the records that they leave, kept apart by store.
* `StepOk`, `RunOk` — operations that meet only files of their own; `Unmixed` — a store read among its own files.

## Results

* `Layout.next` — a file holds the records wanted of its store, whatever the next operation is.
* `records_run` — after a run whose operations meet only files of their own, a store has the records wanted.
-/

namespace VKernels.Tuner

open TextLines hiding isSpace
open PyDict PyText VKernels.Core.Tuning
open List
open Dict (get?_set mem_items mem_keys)

/-! ## Runs -/

inductive Op where
  | upsert (store : NativeStore) (w : Winner)
  | clear (kernel : Text)
  | clearNames (names : List Text) (all : Bool)

/-- The kernels that an operation clears. -/
def Op.cleared : Op → List Text
  | .upsert _ _ => []
  | .clear kernel => [kernel]
  | .clearNames names all => (targets names all).flatMap kernelsOf

section

variable (H : Host)

def step (dir : Directory) : Op → Directory
  | .upsert store w => ((store.upsert H w dir).map Prod.fst).getD dir
  | .clear kernel => (clear H kernel dir).1
  | .clearNames names all => (clearNames H names all dir).1

/-- The directory after operations on an empty one. -/
def run (ops : List Op) : Directory := ops.foldl (step H) Dict.empty

/-- An `upsert` that does not raise by itself. -/
def Writes (I : IntSyntax) (store : NativeStore) (w : Winner) : Prop :=
  store.arch ≠ [] ∧ (w.cuCount > 0 → Printable I w.cuCount) ∧ (∀ v ∈ w.key, Printable I v) ∧
    ∀ param ∈ w.params.items, Printable I param.2

instance (I : IntSyntax) (store : NativeStore) (w : Winner) : Decidable (Writes I store w) :=
  inferInstanceAs (Decidable (_ ∧ _ ∧ _ ∧ _))

/-- What a store should have: an `upsert` replaces one key, and a clear leaves nothing of its kernels. -/
def wantedStep (W : NativeStore → RecordMap) : Op → NativeStore → RecordMap
  | .upsert store w => if Writes H.ints store w then Function.update W store ((W store).set w.key w.params) else W
  | op => fun store => if op.cleared.contains store.kernelName then Dict.empty else W store

def wanted (ops : List Op) : NativeStore → RecordMap := ops.foldl (wantedStep H) fun _ => Dict.empty

/-! ## Operations that meet only their own files -/

/-- A text that may be part of a file name. -/
def IsFileName (text : Text) : Prop := '/' ∉ text ∧ '\x00' ∉ text

/-- What an `upsert` writes can be read back, and the file that it replaces carries its arch. -/
structure UpsertOk (dir : Directory) (store : NativeStore) (w : Winner) : Prop where
  kernel : IsFileName store.kernelName
  arch : ∀ c ∈ store.arch, isSpace c = false
  key : w.key ≠ []
  names : ∀ param ∈ w.params.items, ParamName param.1
  header : parseTuneBody H.ints (fileHeader store.arch w.cuCount w.writtenBy) = Dict.empty
  file : store.fileName H ∈ dir.keys →
    parseTuneArch (readFile dir (store.fileName H)) (store.fileName H) = some store.arch

/-- The files that a clear removes are those of its kernels. -/
def StepOk (dir : Directory) : Op → Prop
  | .upsert store w => Writes H.ints store w → UpsertOk H dir store w
  | .clear kernel => ∀ name ∈ dir.keys, ownsFile kernel name = true → kernelOf name = kernel
  | .clearNames names all => (∀ kernel ∈ (targets names all).flatMap kernelsOf, IsFileName kernel) ∧
      ∀ name ∈ dir.keys, (∃ kernel ∈ (targets names all).flatMap kernelsOf, clearsFile kernel name = true) ↔
        kernelOf name ∈ (targets names all).flatMap kernelsOf

def RunOk : Directory → List Op → Prop
  | _, [] => True
  | dir, op :: ops => StepOk H dir op ∧ RunOk (step H dir op) ops

/-- No file among a store's files carries its arch for another kernel. -/
def Unmixed (dir : Directory) (store : NativeStore) : Prop :=
  ∀ name ∈ dir.keys, ownsFile store.kernelName name = true →
    parseTuneArch (readFile dir name) name = some store.arch → kernelOf name = store.kernelName

end

variable {H : Host} {W : NativeStore → RecordMap} {dir : Directory}

/-! ## What the files hold -/

section

/-- A file that holds the records of a store. -/
structure Keeps (H : Host) (W : NativeStore → RecordMap) (store : NativeStore) (body : Text) : Prop where
  nonempty : store.arch ≠ []
  word : ∀ c ∈ store.arch, isSpace c = false
  body : ∃ cuCount writtenBy, body = render store.arch cuCount writtenBy (W store) ∧
    parseTuneBody H.ints (fileHeader store.arch cuCount writtenBy) = Dict.empty
  writable : Writable H.ints (W store)

/-- Every file holds the records of its store, and every store with records has its file. -/
structure Layout (H : Host) (W : NativeStore → RecordMap) (dir : Directory) : Prop where
  file : ∀ name body, dir.get? name = some body → ∃ store, name = store.fileName H ∧ Keeps H W store body
  filed : ∀ store, W store ≠ Dict.empty → ∃ body, dir.get? (store.fileName H) = some body ∧ Keeps H W store body

variable {body : Text} {w : Winner}

lemma readFile_of_get? {name : Text} (h : dir.get? name = some body) : readFile dir name = readText body := by
  rw [readFile, h, Option.getD_some]

lemma Keeps.schema {store : NativeStore} (h : Keeps H W store body) :
    schemaLine.isPrefixOf (readText body) = true := by
  obtain ⟨_, _, rfl, -⟩ := h.body
  exact schemaLine_render _ _ _ _

lemma Keeps.arch {store : NativeStore} (h : Keeps H W store body) (name : Text) :
    parseTuneArch (readText body) name = some store.arch := by
  obtain ⟨_, _, rfl, -⟩ := h.body
  exact parseTuneArch_render h.nonempty h.word name

lemma Keeps.records {store : NativeStore} (h : Keeps H W store body) :
    parseTuneBody H.ints (readText body) = W store := by
  obtain ⟨_, _, rfl, hheader⟩ := h.body
  exact parseTuneBody_render hheader h.writable

lemma Keeps.congr {W' : NativeStore → RecordMap} {store : NativeStore} (h : Keeps H W store body)
    (heq : W' store = W store) : Keeps H W' store body :=
  ⟨h.nonempty, h.word, by rw [heq]; exact h.body, by rw [heq]; exact h.writable⟩

lemma kernelName_of_fileName {store other : NativeStore} (h : store.fileName H = other.fileName H) :
    store.kernelName = other.kernelName := by
  rw [← kernelOf_fileName, h, kernelOf_fileName]

/-- What `upsert` finds in its own file. -/
lemma Layout.found (h : Layout H W dir) {store : NativeStore} (hok : UpsertOk H dir store w)
    (hbody : dir.get? (store.fileName H) = some body) : Keeps H W store body := by
  obtain ⟨other, hname, hkeeps⟩ := h.file _ _ hbody
  have harch := hok.file (mem_keys.mpr ⟨body, hbody⟩)
  rw [readFile_of_get? hbody, hkeeps.arch] at harch
  have hsame : other = store := NativeStore.ext (kernelName_of_fileName hname).symm (Option.some.inj harch)
  exact hsame ▸ hkeeps

lemma Layout.merged (h : Layout H W dir) {store : NativeStore} (hok : UpsertOk H dir store w) :
    (if schemaLine.isPrefixOf (readFile dir (store.fileName H)) = true then
      parseTuneBody H.ints (readFile dir (store.fileName H)) else Dict.empty) = W store := by
  cases hbody : dir.get? (store.fileName H) with
  | some body =>
    have hkeeps := h.found hok hbody
    rw [readFile_of_get? hbody, if_pos hkeeps.schema, hkeeps.records]
  | none =>
    have hempty : W store = Dict.empty := by
      by_contra hne
      obtain ⟨_, hget, -⟩ := h.filed store hne
      rw [hbody] at hget
      cases hget
    have hfile : readFile dir (store.fileName H) = [] := by rw [readFile, hbody]; rfl
    rw [hfile, hempty]
    rfl

lemma Layout.writable (h : Layout H W dir) (store : NativeStore) : Writable H.ints (W store) := by
  by_cases hne : W store = Dict.empty
  · rw [hne]
    exact fun item hitem => absurd hitem not_mem_nil
  · obtain ⟨_, -, hkeeps⟩ := h.filed store hne
    exact hkeeps.writable

lemma mem_set {records : RecordMap} {key : List ℤ} {params : Dict Text ℤ} {item : List ℤ × Dict Text ℤ}
    (h : item ∈ (records.set key params).items) : item = (key, params) ∨ item ∈ records.items := by
  obtain ⟨_, _⟩ := item
  rw [mem_items, get?_set] at h
  split at h
  · rename_i hkey
    exact .inl (by rw [hkey, Option.some.inj h])
  · exact .inr (mem_items.mpr h)

lemma UpsertOk.writable {store : NativeStore} (hok : UpsertOk H dir store w)
    (hwrites : Writes H.ints store w) {records : RecordMap} (h : Writable H.ints records) :
    Writable H.ints (records.set w.key w.params) := by
  intro item hitem
  rcases mem_set hitem with rfl | hitem
  · exact ⟨hok.key, hwrites.2.2.1, hok.names, hwrites.2.2.2⟩
  · exact h item hitem

lemma Writable.allPrintable {records : RecordMap} (h : Writable H.ints records) : AllPrintable H.ints records :=
  fun item hitem => ⟨(h item hitem).cells, (h item hitem).values⟩

lemma upsert_eq_none {store : NativeStore} (h : ¬ Writes H.ints store w) : store.upsert H w dir = none := by
  unfold NativeStore.upsert
  by_cases harch : store.arch = []
  · rw [if_pos harch]
  · rw [if_neg harch]
    refine if_neg fun hprintable => h ⟨harch, hprintable.1, ?_⟩
    exact hprintable.2 _ (mem_items.mpr (by rw [get?_set, if_pos rfl]))

section

variable (h : Layout H W dir)
include h

lemma Layout.step_upsert {store : NativeStore} (hwrites : Writes H.ints store w)
    (hok : UpsertOk H dir store w) : step H dir (.upsert store w) =
      dir.set (store.fileName H) (render store.arch w.cuCount w.writtenBy ((W store).set w.key w.params)) := by
  have hprintable : (w.cuCount > 0 → Printable H.ints w.cuCount) ∧ AllPrintable H.ints ((W store).set w.key w.params) :=
    ⟨hwrites.2.1, (hok.writable hwrites (h.writable store)).allPrintable⟩
  simp only [step, NativeStore.upsert, if_neg hwrites.1, h.merged hok, if_pos hprintable, Option.map_some,
    Option.getD_some]

/-- **What `upsert` leaves.** -/
theorem Layout.upsert {store : NativeStore} (hwrites : Writes H.ints store w) (hok : UpsertOk H dir store w) :
    Layout H (Function.update W store ((W store).set w.key w.params)) (step H dir (.upsert store w)) := by
  have hkeeps : Keeps H (Function.update W store ((W store).set w.key w.params)) store
      (render store.arch w.cuCount w.writtenBy ((W store).set w.key w.params)) := by
    refine ⟨hwrites.1, hok.arch, ⟨w.cuCount, w.writtenBy, ?_, hok.header⟩, ?_⟩
    · rw [Function.update_self]
    · rw [Function.update_self]
      exact hok.writable hwrites (h.writable store)
  have hother : ∀ {other : NativeStore}, other ≠ store →
      Function.update W store ((W store).set w.key w.params) other = W other := fun hne =>
    Function.update_of_ne hne _ _
  rw [h.step_upsert hwrites hok]
  constructor
  · intro name body hget
    rw [get?_set] at hget
    by_cases hname : name = store.fileName H
    · rw [if_pos hname] at hget
      exact ⟨store, hname, Option.some.inj hget ▸ hkeeps⟩
    · rw [if_neg hname] at hget
      obtain ⟨other, rfl, hold⟩ := h.file name body hget
      have hne : other ≠ store := fun heq => hname (heq ▸ rfl)
      exact ⟨other, rfl, hold.congr (hother hne)⟩
  · intro other hrecords
    by_cases heq : other = store
    · subst heq
      exact ⟨_, by rw [get?_set, if_pos rfl], hkeeps⟩
    · rw [hother heq] at hrecords
      obtain ⟨body, hget, hold⟩ := h.filed other hrecords
      -- a file of the same name would carry the arch of both
      have hname : other.fileName H ≠ store.fileName H := by
        intro hname
        rw [hname] at hget
        have harch := (hold.arch []).symm.trans ((h.found hok hget).arch [])
        exact heq (NativeStore.ext (kernelName_of_fileName hname) (Option.some.inj harch))
      exact ⟨body, by rw [get?_set, if_neg hname, hget], hold.congr (hother heq)⟩

/-- **What a clear leaves**, where it removes just the files of its kernels. -/
theorem Layout.clear {cleared : List Text} {removes : Text → Prop} [DecidablePred removes]
    {dir' : Directory} (hget : ∀ name, dir'.get? name = if removes name then none else dir.get? name)
    (hown : ∀ name ∈ dir.keys, removes name ↔ kernelOf name ∈ cleared) :
    Layout H (fun store => if cleared.contains store.kernelName then Dict.empty else W store) dir' := by
  have hremoves : ∀ {store : NativeStore} {body : Text}, dir.get? (store.fileName H) = some body →
      (removes (store.fileName H) ↔ store.kernelName ∈ cleared) := by
    intro store body hbody
    rw [hown _ (mem_keys.mpr ⟨body, hbody⟩), kernelOf_fileName]
  constructor
  · intro name body hbody
    rw [hget] at hbody
    split at hbody
    · cases hbody
    · rename_i hkept
      obtain ⟨store, rfl, hold⟩ := h.file name body hbody
      rw [hremoves hbody] at hkept
      exact ⟨store, rfl, hold.congr (if_neg fun h => hkept (contains_iff_mem.mp h))⟩
  · intro store hrecords
    by_cases hcleared : cleared.contains store.kernelName = true
    · rw [if_pos hcleared] at hrecords
      exact absurd rfl hrecords
    · rw [if_neg hcleared] at hrecords
      obtain ⟨body, hbody, hold⟩ := h.filed store hrecords
      refine ⟨body, ?_, hold.congr (if_neg hcleared)⟩
      rw [hget, if_neg fun hr => hcleared (contains_iff_mem.mpr ((hremoves hbody).mp hr)), hbody]

lemma Layout.next {op : Op} (hok : StepOk H dir op) : Layout H (wantedStep H W op) (step H dir op) := by
  cases op with
  | upsert store w =>
    by_cases hwrites : Writes H.ints store w
    · rw [wantedStep, if_pos hwrites]
      exact h.upsert hwrites (hok hwrites)
    · have hsame : step H dir (.upsert store w) = dir := by
        rw [step, upsert_eq_none hwrites]
        rfl
      rw [wantedStep, if_neg hwrites, hsame]
      exact h
  | clear kernel =>
    refine h.clear (get?_clear kernel dir) fun name hname => ?_
    rw [Op.cleared, mem_singleton]
    refine ⟨hok name hname, fun hkernel => ?_⟩
    obtain ⟨body, hbody⟩ := mem_keys.mp hname
    obtain ⟨store, rfl, -⟩ := h.file name body hbody
    rw [kernelOf_fileName] at hkernel
    rw [← hkernel]
    exact ownsFile_fileName store
  | clearNames names all => exact h.clear (get?_clearNames names all dir) hok.2

lemma Layout.foldl {ops : List Op} (hok : RunOk H dir ops) :
    Layout H (ops.foldl (wantedStep H) W) (ops.foldl (step H) dir) := by
  induction ops generalizing dir W with
  | nil => exact h
  | cons op ops ih => exact ih (h.next hok.1) hok.2

end

lemma layout_run {ops : List Op} (hok : RunOk H Dict.empty ops) : Layout H (wanted H ops) (run H ops) :=
  Layout.foldl ⟨fun _ _ h => (by cases h), fun _ h => absurd rfl h⟩ hok

end

/-! ## What the stores have -/

lemma mapM_eq_some {α β : Type} {f : α → Option β} {l : List α} (h : ∀ x ∈ l, ∃ y, f x = some y) :
    ∃ ys, l.mapM f = some ys ∧ ∀ y, y ∈ ys ↔ ∃ x ∈ l, f x = some y := by
  induction l with
  | nil => exact ⟨[], rfl, fun y => by simp⟩
  | cons x l ih =>
    obtain ⟨y, hy⟩ := h x mem_cons_self
    obtain ⟨ys, hys, hmem⟩ := ih fun x hx => h x (mem_cons_of_mem _ hx)
    refine ⟨y :: ys, ?_, fun z => ?_⟩
    · rw [mapM_cons, hy, hys]
      rfl
    · simp only [mem_cons, hmem, exists_eq_or_imp, hy, Option.some.injEq]
      rw [eq_comm]

lemma Layout.exists_archs (h : Layout H W dir) (kernel : Text) : ∃ pairs, archs H kernel dir = some pairs ∧
    ∀ arch name, (arch, name) ∈ pairs ↔ name ∈ dir.keys ∧ ownsFile kernel name = true ∧
      parseTuneArch (readFile dir name) name = some arch := by
  have hread : ∀ name ∈ dir.keys, ∃ store : NativeStore, schemaLine.isPrefixOf (readFile dir name) = true ∧
      parseTuneArch (readFile dir name) name = some store.arch := by
    intro name hname
    obtain ⟨body, hbody⟩ := mem_keys.mp hname
    obtain ⟨store, -, hkeeps⟩ := h.file name body hbody
    rw [readFile_of_get? hbody]
    exact ⟨store, hkeeps.schema, hkeeps.arch name⟩
  obtain ⟨pairs, hpairs, hmem⟩ := mapM_eq_some (f := fun name =>
    (parseTuneArch _ name).map fun arch => (arch, name))
    (l := (files H kernel dir).filter fun name => schemaLine.isPrefixOf _) fun name hname => by
      obtain ⟨store, -, harch⟩ := hread name (mem_files.mp (mem_filter.mp hname).1).1
      exact ⟨(store.arch, name), by rw [harch, Option.map_some]⟩
  refine ⟨pairs, hpairs, fun arch name => ?_⟩
  rw [hmem]
  constructor
  · rintro ⟨_, hname', heq⟩
    obtain ⟨_, harch, hpair⟩ := Option.map_eq_some_iff.mp heq
    obtain ⟨rfl, rfl⟩ := Prod.mk.inj hpair
    obtain ⟨hkeys, howns⟩ := mem_files.mp (mem_filter.mp hname').1
    exact ⟨hkeys, howns, harch⟩
  · rintro ⟨hkeys, howns, harch⟩
    obtain ⟨_, hschema, -⟩ := hread name hkeys
    exact ⟨name, mem_filter.mpr ⟨mem_files.mpr ⟨hkeys, howns⟩, hschema⟩, by rw [harch, Option.map_some]⟩

/-- **A store read among its own files.** -/
theorem Layout.records (h : Layout H W dir) {store : NativeStore} (hun : Unmixed dir store) :
    store.records H dir = some (W store) := by
  obtain ⟨pairs, hpairs, hmem⟩ := h.exists_archs store.kernelName
  rw [NativeStore.records, NativeStore.path, hpairs, Option.map_some, Option.map_some]
  congr 1
  cases hget : (Dict.ofPairs pairs).get? store.arch with
  | some name =>
    obtain ⟨hkeys, howns, harch⟩ := (hmem _ _).mp (Dict.mem_of_get?_ofPairs hget)
    obtain ⟨body, hbody⟩ := mem_keys.mp hkeys
    obtain ⟨other, hname, hkeeps⟩ := h.file name body hbody
    have hkernel := hun name hkeys howns harch
    rw [hname, kernelOf_fileName] at hkernel
    rw [readFile_of_get? hbody, hkeeps.arch] at harch
    obtain rfl : other = store := NativeStore.ext hkernel (Option.some.inj harch)
    rw [if_pos hkeeps.nonempty]
    dsimp only
    rw [readFile_of_get? hbody, hkeeps.records]
  | none =>
    have hempty : W store = Dict.empty := by
      by_contra hrecords
      obtain ⟨body, hbody, hkeeps⟩ := h.filed store hrecords
      have hpair : (store.arch, store.fileName H) ∈ pairs := by
        refine (hmem _ _).mpr ⟨mem_keys.mpr ⟨body, hbody⟩, ownsFile_fileName store, ?_⟩
        rw [readFile_of_get? hbody, hkeeps.arch]
      exact Dict.notMem_of_get?_ofPairs hget _ hpair
    rw [ite_self, hempty]

lemma Unmixed.mono {dir' : Directory} {store : NativeStore} (h : Unmixed dir store)
    (hleft : ∀ name body, dir'.get? name = some body → dir.get? name = some body) : Unmixed dir' store := by
  intro name hname howns harch
  obtain ⟨body, hbody⟩ := mem_keys.mp hname
  have hold := hleft name body hbody
  rw [readFile_of_get? hbody] at harch
  exact h name (mem_keys.mpr ⟨body, hold⟩) howns (by rw [readFile_of_get? hold, harch])

lemma left_of_clear (dir : Directory) {op : Op} (hop : op.cleared ≠ []) {name body : Text}
    (h : (step H dir op).get? name = some body) : dir.get? name = some body := by
  cases op with
  | upsert store w => exact absurd rfl hop
  | clear kernel =>
    rw [step, get?_clear] at h
    split at h
    · cases h
    · exact h
  | clearNames names all =>
    rw [step, get?_clearNames] at h
    split at h
    · cases h
    · exact h

/-- **After a run whose operations meet only files of their own**, a store has the records wanted, and a clear of other
kernels leaves them. -/
theorem records_run (H : Host) (ops : List Op) (hok : RunOk H Dict.empty ops) (store : NativeStore)
    (hun : Unmixed (run H ops) store) : store.records H (run H ops) = some (wanted H ops store) ∧
      ∀ op, op.cleared ≠ [] → StepOk H (run H ops) op → store.kernelName ∉ op.cleared →
        store.records H (step H (run H ops) op) = store.records H (run H ops) := by
  have hrecords := (layout_run hok).records hun
  refine ⟨hrecords, fun op hop hstep hother => ?_⟩
  have hwanted : wantedStep H (wanted H ops) op store = wanted H ops store := by
    cases op with
    | upsert store w => exact absurd rfl hop
    | clear kernel => exact if_neg fun h => hother (contains_iff_mem.mp h)
    | clearNames names all => exact if_neg fun h => hother (contains_iff_mem.mp h)
  have hun' : Unmixed (step H (run H ops) op) store := hun.mono fun _ _ => left_of_clear (run H ops) hop
  rw [((layout_run hok).next hstep).records hun', hwanted, hrecords]

def asciiHost : Host where
  ints := IntSyntax.ascii
  isAlnum := Char.isAlphanum
  isAlnum_ascii _ _ := rfl
  iterdir := Dict.keys
  iterdir_perm dir := Perm.refl dir.keys

/-- `split=8` for one key. -/
def splitWinner : Winner where
  key := [1, 4096]
  params := Dict.empty.set "split".toList 8
  cuCount := 132
  writtenBy := "tuner".toList

lemma splitWinner_ok (dir : Directory) (store : NativeStore) (hkernel : IsFileName store.kernelName)
    (harch : ∀ c ∈ store.arch, isSpace c = false)
    (hfile : store.fileName asciiHost ∉ dir.keys) : UpsertOk asciiHost dir store splitWinner where
  kernel := hkernel
  arch := harch
  key := cons_ne_nil _ _
  names param hparam := by
    obtain rfl := mem_singleton.mp hparam
    exact ⟨by decide, by decide, by decide, forall_of_all (by decide), by decide⟩
  header := parseTuneBody_fileHeader (fun c hc => isLineBreak_of_not_isSpace (harch c hc)) (forall_of_all (by decide))
  file hmem := absurd hmem hfile

/-- Two kernels tuned, and one of them cleared. -/
def splitRun : List Op :=
  [.upsert ⟨"mla_fwd".toList, "sm90".toList⟩ splitWinner, .upsert ⟨"dsa".toList, "gfx942".toList⟩ splitWinner,
    .clear "dsa".toList]

theorem records_run_split : NativeStore.records asciiHost ⟨"mla_fwd".toList, "sm90".toList⟩ (run asciiHost splitRun) =
    some (wanted asciiHost splitRun ⟨"mla_fwd".toList, "sm90".toList⟩) := by
  have hok : RunOk asciiHost Dict.empty splitRun := by
    refine ⟨fun _ => ?_, fun _ => ?_, ?_, trivial⟩
    · exact splitWinner_ok _ _ ⟨by decide, by decide⟩ (forall_of_all (by decide)) (by decide +kernel)
    · exact splitWinner_ok _ _ ⟨by decide, by decide⟩ (forall_of_all (by decide)) (by decide +kernel)
    · unfold StepOk
      decide +kernel
  have hun : Unmixed (run asciiHost splitRun) ⟨"mla_fwd".toList, "sm90".toList⟩ := by
    unfold Unmixed
    decide +kernel
  exact (records_run asciiHost splitRun hok _ hun).1

/-- The name `k.x` begins with `k.`: a clear of `k` takes its file. -/
theorem dotted_kernel_cleared : ¬ ∀ (H : Host) (ops : List Op) (store : NativeStore),
    store.records H (run H ops) = some (wanted H ops store) := by
  intro h
  have hrecords := congrArg (Option.map fun records => records.items.length)
    (h asciiHost [.upsert ⟨"k.x".toList, "sm90".toList⟩ splitWinner, .clear "k".toList] ⟨"k.x".toList, "sm90".toList⟩)
  revert hrecords
  decide +kernel

/-- Archs that are sanitised alike share a file, which then carries the later one. -/
example : (NativeStore.records asciiHost ⟨"k".toList, "a:b".toList⟩ (run asciiHost
    [.upsert ⟨"k".toList, "a:b".toList⟩ splitWinner, .upsert ⟨"k".toList, "a-b".toList⟩ splitWinner])).map
      (fun records => records.items.length) = some 0 := by decide +kernel

end VKernels.Tuner
