import VKernels.Lib.Glob
import VKernels.Tuning.NativeFile

/-!
# The native tuning store

`NativeStore` and `clear` of `torch_ops/tuner.py`, over one directory.

* `Host` — what the interpreter and the file system supply; `Directory` — the files by name.
* `kernelOf` — the kernel of a file name that `upsert` makes.

## Results

* `kernelOf_fileName`, `ownsFile_fileName` — a file name gives its kernel back, and is one of its kernel.
* `get?_clear`, `get?_clearNames` — what is left of a directory.
-/

namespace VKernels.Tuner

open TextLines hiding isSpace
open PyDict PyText Glob VKernels.Core.Tuning
open List

/-- Names and contents. -/
abbrev Directory := Dict Text Text

structure Host where
  ints : IntSyntax
  /-- `str.isalnum` of a character. -/
  isAlnum : Char → Bool
  isAlnum_ascii : ∀ c : Char, c.toNat < 128 → isAlnum c = c.isAlphanum
  /-- The order in which a directory is listed. -/
  iterdir : Directory → List Text
  iterdir_perm : ∀ dir, (iterdir dir).Perm dir.keys

/-- A store: its kernel and its arch. -/
@[ext] structure NativeStore where
  kernelName : Text
  arch : Text
  deriving DecidableEq

/-- The arguments of `upsert`, and the compute units of the device. -/
structure Winner where
  key : List ℤ
  params : Dict Text ℤ
  cuCount : ℤ
  writtenBy : Text

section

variable (H : Host)

/-- `_safe_arch`. -/
def safeArch (arch : Text) : Text := arch.map fun c => if H.isAlnum c then c else '-'

/-- The file that `upsert` writes. -/
def NativeStore.fileName (store : NativeStore) : Text :=
  store.kernelName ++ '.' :: safeArch H store.arch ++ suffix

/-- The test of `_files`. -/
def ownsFile (kernel name : Text) : Bool := (kernel ++ ['.']).isPrefixOf name && suffix.isSuffixOf name

/-- `_files`. -/
def files (kernel : Text) (dir : Directory) : List Text := (H.iterdir dir).filter (ownsFile kernel)

/-- `path.read_text(errors="replace")`. -/
def readFile (dir : Directory) (name : Text) : Text := readText ((dir.get? name).getD [])

/-- `archs` of `path`; `none` where it raises. -/
def archs (kernel : Text) (dir : Directory) : Option (List (Text × Text)) :=
  ((files H kernel dir).filter fun name => schemaLine.isPrefixOf (readFile dir name)).mapM fun name =>
    (parseTuneArch (readFile dir name) name).map fun arch => (arch, name)

/-- `path`; `none` where it raises. -/
def NativeStore.path (store : NativeStore) (dir : Directory) : Option (Option Text) :=
  (archs H store.kernelName dir).map fun pairs =>
    if store.arch ≠ [] then (Dict.ofPairs pairs).get? store.arch else none

/-- `records`; `none` where it raises. -/
def NativeStore.records (store : NativeStore) (dir : Directory) : Option RecordMap :=
  (store.path H dir).map fun
    | some name => parseTuneBody H.ints (readFile dir name)
    | none => Dict.empty

/-- Every number of the records can be written. -/
def AllPrintable (I : IntSyntax) (records : RecordMap) : Prop :=
  ∀ item ∈ records.items, (∀ v ∈ item.1, Printable I v) ∧ ∀ param ∈ item.2.items, Printable I param.2

instance (I : IntSyntax) (records : RecordMap) : Decidable (AllPrintable I records) :=
  inferInstanceAs (Decidable (∀ item ∈ records.items, _))

/-- `upsert`: the directory after it and what it returns; `none` where it raises, which leaves the files as they are. -/
def NativeStore.upsert (store : NativeStore) (w : Winner) (dir : Directory) : Option (Directory × Dict Text ℤ) :=
  if store.arch = [] then none
  else
    let name := store.fileName H
    let text := readFile dir name
    let records := if schemaLine.isPrefixOf text then parseTuneBody H.ints text else Dict.empty
    let records := records.set w.key w.params
    if (w.cuCount > 0 → Printable H.ints w.cuCount) ∧ AllPrintable H.ints records then
      some (dir.set name (render store.arch w.cuCount w.writtenBy records), w.params)
    else none

def unlink (dir : Directory) (name : Text) : Directory := dir.filter fun other => other ≠ name

/-- `NativeStore.clear`: whether a file was removed. -/
def clear (kernel : Text) (dir : Directory) : Directory × Bool :=
  ((files H kernel dir).foldl unlink dir, files H kernel dir ≠ [])

/-- The names of `REGISTRY` and their `store_names`. -/
def registry : List (Text × List Text) :=
  [("mhc_projection", []), ("dsa_topk_logits_split_for", []), ("dsa_sparse_fwd_split_for", []),
    ("dsa_sparse_fwd_tile", []), ("mla_fwd_split_for", []), ("glm_fp8_gemv_pick_sk", []), ("glm_projection", []),
    ("qkv_projection", []),
    ("kda_chunk_nv", ["chunk_local_cumsum_vector_kernel", "merge_16x16_to_64x64_inverse_kernel",
      "chunk_gated_delta_rule_fwd_kernel_h_blockdim64", "kda_scaled_dot_kkt_intra_sub_intra",
      "chunk_kda_scaled_dot_kkt_fwd_kernel_intra_sub_inter", "kda_recompute_w_u", "chunk_gla_fwd_kernel_o"]),
    ("kda_chunk_amd", ["chunk_kda_scaled_dot_kkt_fwd_kernel_intra_sub_inter", "chunk_gla_fwd_kernel_o",
      "kda_scaled_dot_kkt_intra_sub_intra", "kda_recompute_w_u"])].map
    fun entry => (entry.1.toList, entry.2.map String.toList)

/-- `(entry.store_names or (name,)) if entry else (name,)`. -/
def kernelsOf (name : Text) : List Text :=
  match registry.find? fun entry => entry.1 = name with
  | some (_, []) => [name]
  | some (_, storeNames) => storeNames
  | none => [name]

/-- `targets`. -/
def targets (names : List Text) (all : Bool) : List Text := if all then registry.map Prod.fst else names

def tiers : List (Text × Text) := [(".json".toList, "triton".toList), (suffix, "native".toList)]

/-- `f"{kernel}.*{suffix}"`. -/
def globPattern (kernel ending : Text) : Text := kernel ++ '.' :: '*' :: ending

def clearsFile (kernel name : Text) : Bool := tiers.any fun tier => globMatches (globPattern kernel tier.1) name

/-- A row of the report of `clear`. -/
structure Row where
  name : Text
  cleared : Bool
  tiers : List Text

/-- The directory and the tiers of which something was removed, after one pattern. -/
def clearPattern (s : Directory × List Text) (pattern tier : Text) : Directory × List Text :=
  let hits := (H.iterdir s.1).filter (globMatches pattern)
  (hits.foldl unlink s.1, if hits = [] then s.2 else s.2 ++ [tier])

def clearName (s : Directory × List Row) (name : Text) : Directory × List Row :=
  let cleared := (kernelsOf name).foldl (fun s kernel =>
    tiers.foldl (fun s tier => clearPattern H s (globPattern kernel tier.1) tier.2) s) (s.1, [])
  let hit := (tiers.map Prod.snd).filter fun tier => tier ∈ cleared.2
  (cleared.1, s.2 ++ [⟨name, hit ≠ [], hit⟩])

/-- `clear` of the module. -/
def clearNames (names : List Text) (all : Bool) (dir : Directory) : Directory × List Row :=
  (targets names all).foldl (clearName H) (dir, [])

end

/-! ## File names -/

def kernelOf (name : Text) : Text := ((name.take (name.length - 5)).rdropWhile (· ≠ '.')).dropLast

variable {H : Host}

lemma dot_notMem_safeArch (arch : Text) : '.' ∉ safeArch H arch := by
  intro h
  obtain ⟨c, -, hc⟩ := mem_map.mp h
  by_cases halnum : H.isAlnum c = true
  · rw [if_pos halnum] at hc
    rw [hc, H.isAlnum_ascii '.' (by decide)] at halnum
    exact absurd halnum (by decide)
  · rw [if_neg halnum] at hc
    exact absurd hc (by decide)

lemma kernelOf_fileName (store : NativeStore) : kernelOf (store.fileName H) = store.kernelName := by
  have hlength : (store.fileName H).length - 5 = (store.kernelName ++ '.' :: safeArch H store.arch).length := by
    simp only [NativeStore.fileName, suffix, length_append, length_cons]
    exact Nat.add_sub_cancel _ 5
  have hstem : (store.fileName H).take ((store.fileName H).length - 5) =
      store.kernelName ++ '.' :: safeArch H store.arch := by
    rw [hlength, NativeStore.fileName]
    exact take_left
  have hdot : '.' ∉ (safeArch H store.arch).reverse := by simpa using dot_notMem_safeArch store.arch
  have hdrop : (store.kernelName ++ '.' :: safeArch H store.arch).rdropWhile (· ≠ '.') = store.kernelName ++ ['.'] := by
    rw [rdropWhile, reverse_append, reverse_cons, append_assoc, singleton_append,
      (span_append store.kernelName.reverse hdot).2, reverse_cons, reverse_reverse]
  rw [kernelOf, hstem, hdrop, dropLast_concat]

lemma ownsFile_iff {kernel name : Text} :
    ownsFile kernel name = true ↔ kernel ++ ['.'] <+: name ∧ suffix <:+ name := by
  rw [ownsFile, Bool.and_eq_true, isPrefixOf_iff_prefix, isSuffixOf_iff_suffix]

lemma ownsFile_fileName (store : NativeStore) : ownsFile store.kernelName (store.fileName H) = true := by
  rw [ownsFile_iff]
  refine ⟨⟨safeArch H store.arch ++ suffix, ?_⟩, suffix_append _ _⟩
  simp [NativeStore.fileName]

/-! ## Files removed -/

lemma mem_files {kernel name : Text} {dir : Directory} :
    name ∈ files H kernel dir ↔ name ∈ dir.keys ∧ ownsFile kernel name = true := by
  rw [files, mem_filter, (H.iterdir_perm dir).mem_iff]

lemma get?_unlinkAll (names : List Text) (dir : Directory) (name : Text) :
    (names.foldl unlink dir).get? name = if name ∈ names then none else dir.get? name := by
  induction names generalizing dir with
  | nil => simp
  | cons first names ih =>
    rw [foldl_cons, ih, unlink, Dict.get?_filter]
    by_cases hname : name = first
    · simp [hname]
    · simp [hname]

/-- A listing of the files that pass a test, removed. -/
lemma get?_unlink_filter (test : Text → Bool) (dir : Directory) (name : Text) :
    (((H.iterdir dir).filter test).foldl unlink dir).get? name = if test name = true then none else dir.get? name := by
  rw [get?_unlinkAll]
  by_cases htest : test name = true
  · by_cases hmem : name ∈ dir.keys
    · rw [if_pos htest, if_pos (mem_filter.mpr ⟨(H.iterdir_perm dir).mem_iff.mpr hmem, htest⟩)]
    · have hnone : dir.get? name = none := Option.eq_none_iff_forall_ne_some.mpr fun v hv => hmem (Dict.mem_keys.mpr ⟨v, hv⟩)
      rw [if_pos htest, hnone, ite_self]
  · rw [if_neg htest, if_neg fun hmem => htest (mem_filter.mp hmem).2]

lemma get?_clear (kernel : Text) (dir : Directory) (name : Text) :
    (clear H kernel dir).1.get? name = if ownsFile kernel name = true then none else dir.get? name :=
  get?_unlink_filter _ dir name

lemma get?_foldl {σ β : Type} (dirOf : σ → Directory) {g : σ → β → σ} {P : β → Prop} [DecidablePred P] {name : Text}
    (hstep : ∀ s x, (dirOf (g s x)).get? name = if P x then none else (dirOf s).get? name) (xs : List β) (s : σ) :
    (dirOf (xs.foldl g s)).get? name = if ∃ x ∈ xs, P x then none else (dirOf s).get? name := by
  induction xs generalizing s with
  | nil => simp
  | cons x xs ih =>
    rw [foldl_cons, ih, hstep]
    by_cases hx : P x
    · simp [hx]
    · simp [hx]

lemma get?_clearName (s : Directory × List Row) (name file : Text) : (clearName H s name).1.get? file =
      if ∃ kernel ∈ kernelsOf name, clearsFile kernel file = true then none else s.1.get? file := by
  have hpattern : ∀ (s : Directory × List Text) (pattern tier : Text), (clearPattern H s pattern tier).1.get? file =
      if globMatches pattern file = true then none else s.1.get? file := fun s pattern tier =>
    get?_unlink_filter _ s.1 file
  have hkernel : ∀ (s : Directory × List Text) (kernel : Text),
      (tiers.foldl (fun s tier => clearPattern H s (globPattern kernel tier.1) tier.2) s).1.get? file =
        if clearsFile kernel file = true then none else s.1.get? file := by
    intro s kernel
    rw [get?_foldl Prod.fst fun s tier => hpattern s (globPattern kernel tier.1) tier.2]
    simp only [clearsFile, any_eq_true]
  exact get?_foldl Prod.fst hkernel _ _

lemma get?_clearNames (names : List Text) (all : Bool) (dir : Directory) (file : Text) :
    (clearNames H names all dir).1.get? file =
      if ∃ kernel ∈ (targets names all).flatMap kernelsOf, clearsFile kernel file = true then none
      else dir.get? file := by
  have hfold := get?_foldl Prod.fst (fun s name => get?_clearName (H := H) s name file) (targets names all) (dir, [])
  have hexists : (∃ kernel ∈ (targets names all).flatMap kernelsOf, clearsFile kernel file = true) ↔
      ∃ name ∈ targets names all, ∃ kernel ∈ kernelsOf name, clearsFile kernel file = true := by
    simp only [mem_flatMap]
    constructor
    · rintro ⟨kernel, ⟨name, hname, hkernel⟩, hclears⟩
      exact ⟨name, hname, kernel, hkernel, hclears⟩
    · rintro ⟨name, hname, kernel, hkernel, hclears⟩
      exact ⟨kernel, ⟨name, hname, hkernel⟩, hclears⟩
  simp only [hexists]
  exact hfold

end VKernels.Tuner
