import VKernels.Core.TuneStore

/-!
# What `find` sees of the calls

* `StoreFits`, `CallFits` — files named after what they carry; calls that the format can carry.
* `warm_eq` — in such a store a view has one file for a kernel and an arch, whatever `readdir` gives first.
* `fileEntries_apply` — what one call leaves; `lookup_calls` — what a run of calls leaves.
* `tune_store` — after any interleaving of fitting calls a reloaded view has the last params of every
  record, and the other records unchanged.
-/

namespace VKernels.Core.Tuning

open TextLines Interleaving
open List

/-- Every file that is loaded is named as `persist` would name it: its header agrees with its name. -/
def StoreFits (d : Disk) : Prop :=
  ∀ name body, d name = some body → '/' ∉ name → loads name body = true →
    name = kernelOf name ++ '.' :: (fileArch name body ++ suffix)

structure CallFits (c : Call) : Prop where
  dot : '.' ∉ c.kernel
  slash : '/' ∉ c.kernel
  key : c.key ≠ []
  names : ∀ param ∈ c.params, GoodName param.1
  writtenBy : '\n' ∉ c.writtenBy
  arch : GoodArch c.arch
  archSlash : '/' ∉ c.arch

/-! ## Views -/

section

variable {d : Disk} {kernel arch : Text}

def fileName (kernel arch : Text) : Text := kernel ++ '.' :: (arch ++ suffix)

/-- What the file of a kernel and an arch carries for them. -/
def fileEntries (d : Disk) (kernel arch : Text) : Option (List Entry) :=
  match d (fileName kernel arch) with
  | none => none
  | some body =>
    if '/' ∉ fileName kernel arch ∧ loads (fileName kernel arch) body = true ∧
        kernel = kernelOf (fileName kernel arch) ∧ arch = fileArch (fileName kernel arch) body then
      some (parseBody body)
    else none

lemma warmFile_eq (hfits : StoreFits d) {name : Text} (hslash : '/' ∉ name) (stores : Stores) :
    warmFile d stores name kernel arch =
      if name = fileName kernel arch ∧ fileEntries d kernel arch ≠ none then fileEntries d kernel arch
      else stores kernel arch := by
  unfold warmFile fileEntries
  cases hbody : d name with
  | none =>
    by_cases hname : name = fileName kernel arch
    · simp [← hname, hbody]
    · simp [hname]
  | some body =>
    by_cases hname : name = fileName kernel arch
    · by_cases hloads : loads name body = true
      · simp only [← hname, hbody, hloads, hslash, not_false_eq_true, true_and, if_true]
        split <;> simp
      · simp [← hname, hbody, hloads]
    · by_cases hloads : loads name body = true
      · have hother : ¬ (kernel = kernelOf name ∧ arch = fileArch name body) := by
          rintro ⟨rfl, rfl⟩
          exact hname (hfits name body hbody hslash hloads)
        simp [hname, hloads, hother]
      · simp [hname, hloads]

lemma warm_eq (hfits : StoreFits d) {names : List Text} (hnames : Listing d names) :
    warm d names kernel arch = fileEntries d kernel arch := by
  have hfold : ∀ (names : List Text) (stores : Stores), (∀ name ∈ names, '/' ∉ name) →
      names.foldl (warmFile d) stores kernel arch =
        if fileName kernel arch ∈ names ∧ fileEntries d kernel arch ≠ none then fileEntries d kernel arch
        else stores kernel arch := by
    intro names
    induction names with
    | nil => simp
    | cons name names ih =>
      intro _ hslash
      rw [foldl_cons, ih _ fun name hmem => hslash name (mem_cons_of_mem _ hmem),
        warmFile_eq hfits (hslash name mem_cons_self)]
      by_cases hname : name = fileName kernel arch
      · subst hname
        by_cases hnone : fileEntries d kernel arch = none
        · simp [hnone]
        · simp [hnone]
      · have hname' : fileName kernel arch ≠ name := Ne.symm hname
        simp [hname, hname']
  unfold warm
  rw [hfold names _ fun name hname => ((hnames name).mp hname).1]
  by_cases hnone : fileEntries d kernel arch = none
  · simp [hnone]
  · -- a file that carries records is in the listing
    have hmem : fileName kernel arch ∈ names := by
      rw [hnames]
      unfold fileEntries at hnone
      split at hnone
      · exact absurd rfl hnone
      · rename_i hbody
        split at hnone
        · rename_i hcond
          exact ⟨hcond.1, by simp [hbody]⟩
        · exact absurd rfl hnone
    simp [hmem, hnone]

end

variable {d : Disk} {c : Call}

/-! ## One call -/

lemma kernelOf_append {kernel rest : Text} (h : '.' ∉ kernel) : kernelOf (kernel ++ '.' :: rest) = kernel :=
  (span_append rest h).1

lemma loads_path (c : Call) (entries : List Entry) :
    loads c.path (renderBody c.arch c.cuCount c.writtenBy entries) = true := by
  have hdot : '.' ∈ c.path := by simp [Call.path]
  have hsuffix : suffix.isSuffixOf c.path = true := by
    rw [isSuffixOf_iff_suffix]
    exact ⟨c.kernel ++ '.' :: c.arch, by simp [Call.path]⟩
  have hheader : header.isPrefixOf (renderBody c.arch c.cuCount c.writtenBy entries) = true := by
    rw [ isPrefixOf_iff_prefix]
    exact ⟨_, by simp [renderBody, renderLines]; rfl⟩
  simp [loads, hdot, hsuffix, hheader]

lemma readable_merged (h : CallFits c) (body : Option Text) : ∀ e ∈ merged body c, Readable e := by
  intro e he
  rcases mem_append.mp he with he | he
  · have hmem := mem_of_mem_filter he
    split at hmem
    · split at hmem
      · exact readable_of_parse _ e hmem
      · cases hmem
    · cases hmem
  · rw [mem_singleton.mp he]
    exact ⟨h.key, h.names⟩

lemma slash_path (h : CallFits c) : '/' ∉ c.path := by
  have hsuffix : '/' ∉ suffix := by decide
  simp [Call.path, h.slash, h.archSlash, hsuffix]

lemma path_ne {kernel arch : Text} (h : CallFits c) (hne : ¬ (kernel = c.kernel ∧ arch = c.arch))
    (hkernel : kernel = kernelOf (fileName kernel arch)) : fileName kernel arch ≠ c.path := by
  intro heq
  have hsame : kernel = c.kernel := by
    rw [hkernel, heq]
    exact kernelOf_append h.dot
  subst hsame
  have harch : arch = c.arch := by simpa [fileName, Call.path] using heq
  exact hne ⟨rfl, harch⟩

lemma storeFits_apply (hd : StoreFits d) (h : CallFits c) : StoreFits (apply d c) := by
  intro name body hbody hslash hloads
  by_cases hname : name = c.path
  · subst hname
    obtain rfl : rendered (d c.path) c = body := by simpa [apply] using hbody
    have harch : fileArch c.path (rendered (d c.path) c) = c.arch :=
      fileArch_renderBody h.arch h.writtenBy (readable_merged h _) _
    rw [harch]
    nth_rewrite 2 [Call.path]
    rw [kernelOf_append h.dot]
    rfl
  · exact hd name body (by simpa [apply, hname] using hbody) hslash hloads

/-- **One call**: its file carries the merged records, and the other files what they did. -/
theorem fileEntries_apply (h : CallFits c) (kernel arch : Text) : fileEntries (apply d c) kernel arch =
      if kernel = c.kernel ∧ arch = c.arch then some (merged (d c.path) c) else fileEntries d kernel arch := by
  split
  · rename_i hsame
    obtain ⟨rfl, rfl⟩ := hsame
    have hbody : apply d c (fileName c.kernel c.arch) = some (rendered (d c.path) c) := by
      simp [apply, fileName, Call.path]
    have hkernel : c.kernel = kernelOf (fileName c.kernel c.arch) := (kernelOf_append h.dot).symm
    have harch : c.arch = fileArch (fileName c.kernel c.arch) (rendered (d c.path) c) :=
      (fileArch_renderBody h.arch h.writtenBy (readable_merged h _) _).symm
    have hparse : parseBody (rendered (d c.path) c) = merged (d c.path) c :=
      parseBody_renderBody h.arch.newline h.writtenBy (readable_merged h _)
    simp only [fileEntries, hbody]
    rw [if_pos ⟨slash_path h, loads_path c _, hkernel, harch⟩, hparse]
  · rename_i hne
    by_cases hkernel : kernel = kernelOf (fileName kernel arch)
    · have hpath := path_ne h hne hkernel
      simp [fileEntries, apply, hpath]
    · have hnone : ∀ d : Disk, fileEntries d kernel arch = none := by
        intro d
        unfold fileEntries
        split
        · rfl
        · exact if_neg fun hcond => hkernel hcond.2.2.1
      rw [hnone, hnone]

lemma merged_eq (hd : StoreFits d) (h : CallFits c) :
    merged (d c.path) c = ((fileEntries d c.kernel c.arch).getD []).filter (fun e => e.key ≠ c.key) ++
      [⟨c.key, c.params⟩] := by
  have hname : fileName c.kernel c.arch = c.path := rfl
  unfold merged fileEntries
  rw [hname]
  cases hbody : d c.path with
  | none => rfl
  | some body =>
    dsimp only
    by_cases hheader : header.isPrefixOf body = true
    · have hloads : loads c.path body = true := by
        have hpath := loads_path c []
        simp only [loads, Bool.and_eq_true] at hpath ⊢
        exact ⟨hpath.1, hheader⟩
      have hkernel : kernelOf c.path = c.kernel := kernelOf_append h.dot
      have hagree := hd c.path body hbody (slash_path h) hloads
      have harch : c.arch = fileArch c.path body := by
        rw [hkernel] at hagree
        simpa [Call.path] using hagree
      rw [if_pos hheader, if_pos ⟨slash_path h, hloads, hkernel.symm, harch⟩]
      rfl
    · have hloads : ¬ loads c.path body = true := by
        intro hloads
        simp only [loads, Bool.and_eq_true] at hloads
        exact hheader hloads.2
      rw [if_neg hheader, if_neg fun hcond => hloads hcond.2.1]
      rfl

/-! ## Lookups -/

def lookup (d : Disk) (arch kernel : Text) (key : List LongLong) : Option Entry :=
  (fileEntries d kernel arch).bind fun entries => entries.find? fun e => e.key = key

/-- **One call** changes the lookup of its record only. -/
theorem lookup_apply (hd : StoreFits d) (h : CallFits c) (arch kernel : Text) (key : List LongLong) :
    lookup (apply d c) arch kernel key =
      if c.arch = arch ∧ c.kernel = kernel ∧ c.key = key then some ⟨key, c.params⟩ else lookup d arch kernel key := by
  unfold lookup
  rw [fileEntries_apply h]
  by_cases hsame : kernel = c.kernel ∧ arch = c.arch
  · obtain ⟨rfl, rfl⟩ := hsame
    rw [if_pos ⟨rfl, rfl⟩, merged_eq hd h, Option.bind_some, find?_append]
    by_cases hkey : c.key = key
    · subst hkey
      have hnone : (((fileEntries d c.kernel c.arch).getD []).filter fun e => e.key ≠ c.key).find?
          (fun e => e.key = c.key) = none := by
        simp
      rw [hnone]
      simp
    · have hkeep : ∀ entries : List Entry, (entries.filter fun e => e.key ≠ c.key).find? (fun e => e.key = key) =
          entries.find? fun e => e.key = key := by
        intro entries
        rw [find?_filter]
        congr 1
        funext e
        by_cases he : e.key = key
        · simp [he, Ne.symm hkey]
        · simp [he]
      rw [hkeep]
      cases hentries : fileEntries d c.kernel c.arch with
      | none => simp [hkey]
      | some entries => simp [hkey]
  · rw [if_neg hsame, if_neg fun hall => hsame ⟨hall.2.1.symm, hall.1.symm⟩]

lemma lookup_calls (hd : StoreFits d) {calls : List Call} (h : ∀ c ∈ calls, CallFits c) (arch kernel : Text)
    (key : List LongLong) : StoreFits (calls.foldl apply d) ∧ lookup (calls.foldl apply d) arch kernel key =
      match lastParams calls arch kernel key with
      | some params => some ⟨key, params⟩
      | none => lookup d arch kernel key := by
  induction calls using reverseRecOn with
  | nil => exact ⟨hd, rfl⟩
  | append_singleton calls c ih =>
    obtain ⟨hfits, hlook⟩ := ih fun c hc => h c (mem_append_left _ hc)
    have hc := h c (mem_append_right _ (mem_singleton.mpr rfl))
    rw [foldl_concat]
    refine ⟨storeFits_apply hfits hc, ?_⟩
    rw [lookup_apply hfits hc, hlook]
    unfold lastParams
    by_cases hsame : c.arch = arch ∧ c.kernel = kernel ∧ c.key = key
    · simp [hsame]
    · simp [hsame]

/-! ## Runs -/

section

variable {d : Disk} {s s' : System}

/-- Every call that is in `persist`, or that has gone through it, fits. -/
structure Fitting (s : System) : Prop where
  phase : ∀ pid c, (s.phase pid).call = some c → CallFits c
  persisted : ∀ c ∈ s.persisted, CallFits c

lemma Fitting.update (h : Fitting s) {pid : ℕ} {phase : Phase} (hphase : ∀ c, phase.call = some c → CallFits c)
    (other : ℕ) (c : Call) (hc : (Function.update s.phase pid phase other).call = some c) : CallFits c := by
  by_cases hother : other = pid
  · simp [hother] at hc
    exact hphase c hc
  · simp [hother] at hc
    exact h.phase other c hc

lemma Fitting.step (h : Fitting s) {a : Action} (ha : ∀ pid c, a = .flock pid c → CallFits c)
    (hstep : System.step a s = some s') : Fitting s' := by
  rcases step_cases hstep with ⟨pid, c, rfl, -, -, rfl⟩ | ⟨pid, c, hphase, rfl⟩ | ⟨pid, c, _, hphase, rfl⟩ |
    ⟨pid, c, body, hphase, rfl⟩ | ⟨pid, c, hphase, rfl⟩
  · refine ⟨h.update ?_, h.persisted⟩
    rintro _ ⟨⟩
    exact ha pid c rfl
  · have hfits := h.phase pid c (by simp [hphase, Phase.call])
    refine ⟨h.update ?_, h.persisted⟩
    rintro _ ⟨⟩
    exact hfits
  · have hfits := h.phase pid c (by simp [hphase, Phase.call])
    refine ⟨h.update ?_, h.persisted⟩
    rintro _ ⟨⟩
    exact hfits
  · have hfits := h.phase pid c (by simp [hphase, Phase.call])
    refine ⟨h.update ?_, ?_⟩
    · rintro _ ⟨⟩
      exact hfits
    · intro c' hc'
      rcases mem_append.mp hc' with hc' | hc'
      · exact h.persisted c' hc'
      · rw [mem_singleton.mp hc']
        exact hfits
  · refine ⟨h.update ?_, h.persisted⟩
    rintro _ ⟨⟩

lemma fitting_of_run {actions : List Action} (ha : ∀ pid c, Action.flock pid c ∈ actions → CallFits c)
    (hrun : run System.step actions s = some s') (h : Fitting s) : Fitting s' := by
  induction actions generalizing s with
  | nil =>
    simp at hrun
    exact hrun ▸ h
  | cons a actions ih =>
    obtain ⟨_, hstep, hrun⟩ := run_cons.mp hrun
    apply ih (fun pid c hc => ha pid c (mem_cons_of_mem _ hc)) hrun
    apply h.step _ hstep
    rintro pid c rfl
    exact ha pid c mem_cons_self

/-- **The store after a run**: in a view that is loaded after any interleaving of fitting calls, `find` gives the
last params of every record, and any other record is as it was. -/
theorem find_of_run (hd : StoreFits d) {names : List Text} (hnames : Listing d names) {actions : List Action}
    (ha : ∀ pid c, Action.flock pid c ∈ actions → CallFits c)
    (hrun : run System.step actions (System.start d) = some s) {names' : List Text} (hnames' : Listing s.disk names')
    (arch kernel : Text) (key : List LongLong) :
    find (warm s.disk names') arch kernel key =
      match lastParams s.persisted arch kernel key with
      | some params => some ⟨key, params⟩
      | none => find (warm d names) arch kernel key := by
  have hstart : Fitting (System.start d) := by
    constructor
    · rintro _ c ⟨⟩
    · rintro c ⟨⟩
  have hfitting : Fitting s := fitting_of_run ha hrun hstart
  have hdisk := disk_of_run hrun
  obtain ⟨hfits, hlook⟩ := lookup_calls hd hfitting.persisted arch kernel key
  rw [← hdisk] at hfits hlook
  have hbefore : find (warm d names) arch kernel key = lookup d arch kernel key := by
    simp only [find, lookup, warm_eq hd hnames]
  have hafter : find (warm s.disk names') arch kernel key = lookup s.disk arch kernel key := by
    simp only [find, lookup, warm_eq hfits hnames']
  rw [hafter, hlook, hbefore]

/-- A sweep that tunes a shape of the `k` kernel, and one that gives an empty shape. -/
def sweep (key : List LongLong) : Call := ⟨"k".toList, key, [("split".toList, ⟨64, by decide⟩)], [], "gfx942".toList, 0⟩

def sweepRun (key : List LongLong) : List Action :=
  [.flock 0 (sweep key), .read 0, .write 0, .rename 0, .unlock 0]

def sweepDisk (key : List LongLong) : Disk := apply (fun _ => none) (sweep key)

lemma run_sweep (key : List LongLong) :
    ∃ s, run System.step (sweepRun key) (System.start fun _ => none) = some s ∧ s.disk = sweepDisk key ∧
      s.persisted = [sweep key] :=
  ⟨_, rfl, rfl, rfl⟩

lemma listing_sweep (key : List LongLong) : Listing (sweepDisk key) [(sweep key).path] := by
  intro name
  have hslash : '/' ∉ (sweep key).path := by
    have hpath : (sweep key).path = "k.gfx942.tune".toList := rfl
    rw [hpath]
    decide
  by_cases hname : name = (sweep key).path
  · simp [sweepDisk, apply, hname, hslash]
  · simp [sweepDisk, apply, hname]

lemma sweep_fits {key : List LongLong} (h : key ≠ []) : CallFits (sweep key) where
  dot := by simp [sweep]
  slash := by simp [sweep]
  key := h
  names := by
    intro _ hparam
    obtain rfl := mem_singleton.mp hparam
    constructor <;> simp
  writtenBy := not_mem_nil
  arch := by constructor <;> simp [sweep]
  archSlash := by simp [sweep]

theorem find_of_run_sweep : ∃ s, run System.step (sweepRun [⟨1, by decide⟩]) (System.start fun _ => none) = some s ∧
    find (warm s.disk ["k.gfx942.tune".toList]) "gfx942".toList "k".toList [⟨1, by decide⟩] =
      some ⟨[⟨1, by decide⟩], [("split".toList, ⟨64, by decide⟩)]⟩ := by
  obtain ⟨s, hrun, hdisk, hpersisted⟩ := run_sweep [⟨1, by decide⟩]
  refine ⟨s, hrun, ?_⟩
  have hempty : StoreFits fun _ => none := by
    rintro name _ ⟨⟩
  have hbefore : Listing (fun _ => none) [] := by
    intro _
    simp
  have hafter : Listing s.disk ["k.gfx942.tune".toList] := hdisk ▸ listing_sweep [⟨1, by decide⟩]
  have hcalls : ∀ pid c, Action.flock pid c ∈ sweepRun [⟨1, by decide⟩] → CallFits c := by
    intro _ c hc
    simp [sweepRun] at hc
    exact hc.2 ▸ sweep_fits (cons_ne_nil _ _)
  rw [find_of_run hempty hbefore hcalls hrun hafter, hpersisted]
  rfl

/-- An empty key is written as a line that starts no record: the call is lost. -/
theorem empty_key_lost : ∃ s, run System.step (sweepRun []) (System.start fun _ => none) = some s ∧
    Listing s.disk ["k.gfx942.tune".toList] ∧
    lastParams s.persisted "gfx942".toList "k".toList [] = some [("split".toList, ⟨64, by decide⟩)] ∧
    find (warm s.disk ["k.gfx942.tune".toList]) "gfx942".toList "k".toList [] = none := by
  obtain ⟨s, hrun, hdisk, hpersisted⟩ := run_sweep []
  refine ⟨s, hrun, hdisk ▸ listing_sweep [], ?_, ?_⟩
  · rw [hpersisted]
    rfl
  · rw [hdisk]
    decide +kernel

end

end VKernels.Core.Tuning
