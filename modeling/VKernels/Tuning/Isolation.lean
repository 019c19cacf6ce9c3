import Mathlib.Data.Set.Function
import VKernels.Tuning.OpConfig

/-!
# Whose config a lookup returns

A record is found by the sanitized name of its operator; source, identity and status are checked
again when it is read, the operator is not.

* `Sourced`, `Inv` — every record of a file or a view was recorded for an operator with that path.
-/

namespace VKernels.Tuning

open VKernels.Interleaving
open Function (update update_of_ne update_self)
open List

section

variable {P C Dir : Type} (isalnum : Char → Bool) (ops : Set String)

/-- Calls by the operators in use. -/
def Action.Within : Action P C Dir → Prop
  | .opConfig _ call => call.key.op ∈ ops
  | .seed _ call => call.op ∈ ops
  | .storedRecords _ op _ _ => op ∈ ops
  | .write _ _ | .resetMemo _ _ => True

/-- Whatever any process is served for a key was recorded for that operator, identity, source and
shape class; `off` and `capture` serve the caller its own default. -/
def Isolated (s : State P C Dir) : Prop :=
  ∀ p key dir config status, key.op ∈ ops → serve isalnum s p key dir = some (config, status) →
    status = .off ∨ status = .capture ∨ (key, config) ∈ s.recorded

def Sourced (recorded : List (Key × C)) (path : Dir × String) (records : Records C) : Prop :=
  ∀ c r, records c = some r →
    ∃ op ∈ ops, storePath isalnum op r.device path.1 = path ∧
      (⟨op, r.device, r.source, c⟩, r.config) ∈ recorded

/-- The invariant of a run by operators in use. -/
structure Inv (s : State P C Dir) : Prop where
  disk : ∀ path, Sourced isalnum ops s.recorded path (fileRecords (s.disk path))
  files : ∀ p fk records, (s.proc p).files fk = some records →
    Sourced isalnum ops s.recorded fk.2.2 records
  memo : ∀ p key config status, (s.proc p).memo key = some (config, status) →
    status = .off ∨ status = .capture ∨ (key, config) ∈ s.recorded
  op : ∀ p q, (s.proc p).pending = some q → q.op ∈ ops
  device : ∀ p q, (s.proc p).pending = some q → ∀ cr ∈ q.landed, cr.2.device = q.device
  resolve : ∀ p q key config status, (s.proc p).pending = some q →
    q.purpose = .resolve key config status → (key, config) ∈ q.entries

/-! ## Files -/

variable {isalnum ops}

lemma Sourced.mono {recorded recorded' : List (Key × C)} {path : Dir × String} {records : Records C}
    (h : Sourced isalnum ops recorded path records) (hsub : recorded ⊆ recorded') :
    Sourced isalnum ops recorded' path records := by
  intro c r hr
  obtain ⟨op, hop, hpath, hmem⟩ := h c r hr
  exact ⟨op, hop, hpath, hsub hmem⟩

lemma merge_cases (disk : Records C) (landed : List (String × Record C)) {c : String} {r : Record C}
    (h : merge disk landed c = some r) : (c, r) ∈ landed ∨ disk c = some r := by
  induction landed generalizing disk with
  | nil => exact .inr h
  | cons cr rest ih =>
    rcases ih (update disk cr.1 (some cr.2)) h with hmem | hdisk
    · exact .inl (mem_cons_of_mem _ hmem)
    · by_cases hc : c = cr.1
      · subst hc
        rw [update_self, Option.some.injEq] at hdisk
        exact .inl (by rw [← hdisk]; exact mem_cons_self)
      · rw [update_of_ne hc] at hdisk
        exact .inr hdisk

/-- A write adds records of its own operator to the file. -/
lemma Sourced.merge {recorded : List (Key × C)} {disk : Records C} {q : Pending C Dir}
    (h : Sourced isalnum ops recorded (storePath isalnum q.op q.device q.dir) disk)
    (hop : q.op ∈ ops) (hdevice : ∀ cr ∈ q.landed, cr.2.device = q.device) (hentries : q.entries ⊆ recorded) :
    Sourced isalnum ops recorded (storePath isalnum q.op q.device q.dir) (merge disk q.landed) := by
  intro c r hr
  rcases merge_cases disk q.landed hr with hmem | hdisk
  · have hd : r.device = q.device := hdevice (c, r) hmem
    refine ⟨q.op, hop, by rw [hd]; rfl, hentries ?_⟩
    exact mem_map.mpr ⟨(c, r), hmem, by rw [hd]⟩
  · exact h c r hdisk

lemma sanitize_eq_of_storePath_eq {op op' : String} {device : Device} {dir : Dir}
    (h : storePath isalnum op device dir = storePath isalnum op' device dir) :
    sanitize isalnum op = sanitize isalnum op' := by
  have hname := (Prod.mk.inj h).2
  simpa [String.append_assoc, String.append_left_inj] using hname

lemma storeHit_recorded (hinj : Set.InjOn (sanitize isalnum) ops) {recorded : List (Key × C)}
    {records : Records C} {key : Key} {dir : Dir} (hop : key.op ∈ ops)
    (h : Sourced isalnum ops recorded (storePath isalnum key.op key.device dir) records)
    {config : C} {status : Status} (hhit : storeHit records key = some (config, status)) :
    (key, config) ∈ recorded := by
  unfold storeHit at hhit
  split at hhit
  · cases hhit
  · rename_i r hr
    split at hhit
    · rename_i hvalid
      obtain ⟨hsource, hdevice, -⟩ := hvalid
      obtain ⟨op, hop', hpath, hmem⟩ := h _ r hr
      rw [hdevice] at hpath
      have heq : op = key.op := hinj hop' hop (sanitize_eq_of_storePath_eq hpath)
      have hkey : (⟨op, r.device, r.source, key.shapeClass⟩ : Key) = key := by
        rw [heq, hsource, hdevice]
      rw [hkey] at hmem
      cases hhit
      exact hmem
    · cases hhit

/-! ## The invariant -/

lemma seedLoop_device (force : Bool) (mk : Entry C → Record C) (device : Device)
    (hmk : ∀ e, (mk e).device = device) (entries : List (String × Entry C)) (records : Records C)
    (landed : List (String × Record C)) (h : ∀ cr ∈ landed, cr.2.device = device) :
    ∀ cr ∈ seedLoop force mk entries records landed, cr.2.device = device := by
  induction entries generalizing records landed with
  | nil => exact h
  | cons ce rest ih =>
    obtain ⟨c, e⟩ := ce
    unfold seedLoop
    split
    · exact ih records landed h
    · refine ih _ _ fun cr hcr => ?_
      rcases mem_append.mp hcr with hcr | hcr
      · exact h cr hcr
      · rw [mem_singleton.mp hcr]
        exact hmk e

lemma inv_init : Inv isalnum ops (init (fun _ => none) : State P C Dir) := by
  refine ⟨fun path c r h => ?_, by simp [init, Proc.fresh], by simp [init, Proc.fresh],
    by simp [init, Proc.fresh], by simp [init, Proc.fresh], by simp [init, Proc.fresh]⟩
  cases h

lemma Inv.view {s : State P C Dir} (hi : Inv isalnum ops s) (p : P) (op : String) (device : Device) (dir : Dir) :
    Sourced isalnum ops s.recorded (storePath isalnum op device dir) (view isalnum s p op device dir) := by
  unfold Tuning.view
  cases hfiles : (s.proc p).files (fileKey isalnum op device dir) with
  | none => exact hi.disk _
  | some records => exact hi.files p _ records hfiles

lemma Inv.resetMemo {s : State P C Dir} (hi : Inv isalnum ops s) (p : P) (op : Option String) :
    ∀ key config status, resetMemo (s.proc p).memo op key = some (config, status) →
      status = .off ∨ status = .capture ∨ (key, config) ∈ s.recorded := by
  intro key config status h
  unfold Tuning.resetMemo at h
  split at h
  · cases h
  · exact hi.memo p key config status h

variable [DecidableEq P] [DecidableEq Dir]

section

variable {s : State P C Dir} (hi : Inv isalnum ops s)
include hi

omit [DecidableEq Dir] in
lemma Inv.setProc (p : P) {q : Proc C Dir}
    (hfiles : ∀ fk records, q.files fk = some records → Sourced isalnum ops s.recorded fk.2.2 records)
    (hmemo : ∀ key config status, q.memo key = some (config, status) →
      status = .off ∨ status = .capture ∨ (key, config) ∈ s.recorded) (hop : ∀ w, q.pending = some w → w.op ∈ ops)
    (hdevice : ∀ w, q.pending = some w → ∀ cr ∈ w.landed, cr.2.device = w.device)
    (hresolve : ∀ w key config status, q.pending = some w → w.purpose = .resolve key config status →
      (key, config) ∈ w.entries) : Inv isalnum ops (s.setProc p q) := by
  refine ⟨hi.disk, fun p' => ?_, fun p' => ?_, fun p' => ?_, fun p' => ?_, fun p' => ?_⟩ <;>
    by_cases hp : p' = p <;> simp only [State.setProc, hp, update_self, ne_eq, not_false_eq_true, update_of_ne]
  · exact hfiles
  · exact hi.files p'
  · exact hmemo
  · exact hi.memo p'
  · exact hop
  · exact hi.op p'
  · exact hdevice
  · exact hi.device p'
  · exact hresolve
  · exact hi.resolve p'

lemma Inv.load (p : P) (op : String) (device : Device)
    (dir : Dir) : Inv isalnum ops (load isalnum s p op device dir) := by
  refine hi.setProc p (fun fk records h => ?_) (hi.memo p) (hi.op p) (hi.device p) (hi.resolve p)
  dsimp only at h
  by_cases hfk : fk = fileKey isalnum op device dir
  · subst hfk
    rw [update_self, Option.some.injEq] at h
    rw [← h]
    exact hi.view p op device dir
  · rw [update_of_ne hfk] at h
    exact hi.files p fk records h

omit [DecidableEq Dir] in
lemma Inv.freeze (p : P) {key : Key} {config : C}
    {status : Status} (h : status = .off ∨ status = .capture ∨ (key, config) ∈ s.recorded) :
    Inv isalnum ops (s.freeze p key (config, status)) := by
  refine hi.setProc p (hi.files p) (fun key' config' status' h' => ?_) (hi.op p) (hi.device p) (hi.resolve p)
  dsimp only at h'
  by_cases hkey : key' = key
  · subst hkey
    rw [update_self, Option.some.injEq, Prod.mk.injEq] at h'
    obtain ⟨rfl, rfl⟩ := h'
    exact h
  · rw [update_of_ne hkey] at h'
    exact hi.memo p key' config' status' h'

omit [DecidableEq Dir] in
lemma Inv.await (p : P) {q : Pending C Dir}
    (hop : q.op ∈ ops) (hdevice : ∀ cr ∈ q.landed, cr.2.device = q.device)
    (hresolve : ∀ key config status, q.purpose = .resolve key config status → (key, config) ∈ q.entries) :
    Inv isalnum ops (s.await p q) := by
  refine hi.setProc p (hi.files p) (hi.memo p) ?_ ?_ ?_
  · rintro w hw
    cases hw
    exact hop
  · rintro w hw
    cases hw
    exact hdevice
  · rintro w key config status hw
    cases hw
    exact hresolve key config status

omit [DecidableEq P] [DecidableEq Dir] in
lemma Inv.record (entries : List (Key × C)) :
    Inv isalnum ops (s.record entries) := by
  have hsub : s.recorded ⊆ s.recorded ++ entries := subset_append_left _ _
  refine ⟨fun path => (hi.disk path).mono hsub, fun p fk records h => (hi.files p fk records h).mono hsub,
    fun p key config status h => ?_, hi.op, hi.device, hi.resolve⟩
  rcases hi.memo p key config status h with h | h | h
  · exact .inl h
  · exact .inr (.inl h)
  · exact .inr (.inr (hsub h))

omit [DecidableEq P] in
lemma Inv.setFile {path : Dir × String} {f : StoreFile C}
    (hf : Sourced isalnum ops s.recorded path (fileRecords (some f))) : Inv isalnum ops (s.setFile path f) := by
  refine ⟨fun path' => ?_, hi.files, hi.memo, hi.op, hi.device, hi.resolve⟩
  by_cases hpath : path' = path
  · subst hpath
    simpa only [State.setFile, update_self] using hf
  · simpa only [State.setFile, update_of_ne hpath] using hi.disk path'

lemma Inv.commit (p : P) {q : Pending C Dir}
    (hop : q.op ∈ ops) (hdevice : ∀ cr ∈ q.landed, cr.2.device = q.device)
    (hentries : q.entries ⊆ s.recorded) : Inv isalnum ops (commit isalnum s p q) := by
  have hmerged := (hi.disk (storePath isalnum q.op q.device q.dir)).merge hop hdevice hentries
  refine (hi.setFile hmerged).setProc p (fun fk records h => ?_) (hi.memo p) (hi.op p) (hi.device p) (hi.resolve p)
  dsimp only at h
  by_cases hfk : fk = fileKey isalnum q.op q.device q.dir
  · subst hfk
    rw [update_self, Option.some.injEq] at h
    rw [← h]
    exact hmerged
  · rw [update_of_ne hfk] at h
    exact hi.files p fk records h

omit [DecidableEq Dir] in
lemma Inv.settle (p : P) {q : Pending C Dir} {ok : Bool}
    (hentries : q.entries ⊆ s.recorded)
    (hresolve : ∀ key config status, q.purpose = .resolve key config status → (key, config) ∈ q.entries) :
    Inv isalnum ops (settle s p q ok) := by
  refine hi.setProc p (hi.files p) ?_ (by simp) (by simp) (by simp)
  cases hq : q.purpose with
  | resolve key config status =>
    intro key' config' status' h
    have hrec := hentries (hresolve key config status hq)
    simp only at h
    by_cases hkey : key' = key
    · subst hkey
      rw [update_self, Option.some.injEq, Prod.mk.injEq] at h
      obtain ⟨rfl, rfl⟩ := h
      exact .inr (.inr hrec)
    · rw [update_of_ne hkey] at h
      exact hi.memo p key' config' status' h
  | seed source force =>
    simp only
    split
    · exact hi.resetMemo p _
    · exact hi.memo p

end

lemma inv_step (hinj : Set.InjOn (sanitize isalnum) ops) {a : Action P C Dir} (ha : a.Within ops)
    {s s' : State P C Dir} (h : step isalnum a s = some s') (hi : Inv isalnum ops s) : Inv isalnum ops s' := by
  cases a with
  | opConfig p call =>
    simp only [step, stepOpConfig] at h
    split at h
    · cases h
      exact hi
    · split at h
      · cases h
      · split at h
        · cases h
          exact hi.freeze p (.inl rfl)
        · split at h
          · cases h
            exact hi.freeze p (.inr (.inl rfl))
          · have hload := hi.load p call.key.op call.key.device call.dir
            split at h
            · rename_i r hhit
              cases h
              obtain ⟨config, status⟩ := r
              exact hload.freeze p (.inr (.inr (storeHit_recorded hinj ha (hload.view p _ _ call.dir) hhit)))
            · cases h
              refine hload.await p ha (by simp [Call.pending]) fun key config status hpurpose => ?_
              simp only [Call.pending, Purpose.resolve.injEq] at hpurpose
              obtain ⟨rfl, rfl, rfl⟩ := hpurpose
              simp [Call.pending, Pending.entries]
  | seed p call =>
    simp only [step, stepSeed] at h
    split at h
    · cases h
    · split at h
      · cases h
        exact hi
      · have hload := hi.load p call.op call.device call.dir
        split at h
        · cases h
          exact hload
        · cases h
          exact hload.await p ha (seedLoop_device call.force call.record call.device (fun _ => rfl) _ _ _ (by simp))
            (by simp)
  | write p ok =>
    simp only [step, stepWrite] at h
    split at h
    · cases h
    · rename_i q hq
      cases h
      have hrec := hi.record q.entries
      have hentries : q.entries ⊆ s.recorded ++ q.entries := subset_append_right _ _
      have hresolve := fun key config status => hi.resolve p q key config status hq
      cases ok with
      | true =>
        exact (hrec.commit p (hi.op p q hq) (hi.device p q hq) hentries).settle p hentries hresolve
      | false => exact hrec.settle p hentries hresolve
  | storedRecords p op device dir =>
    cases h
    exact hi.load p op device dir
  | resetMemo p op =>
    simp only [step] at h
    split at h
    · cases h
    · cases h
      exact hi.setProc p (hi.files p) (hi.resetMemo p op) (hi.op p) (hi.device p) (hi.resolve p)

lemma inv_run (hinj : Set.InjOn (sanitize isalnum) ops) {acts : List (Action P C Dir)}
    (hacts : ∀ a ∈ acts, a.Within ops) {s t : State P C Dir}
    (h : run (step isalnum) acts s = some t) (hi : Inv isalnum ops s) : Inv isalnum ops t := by
  induction acts generalizing s with
  | nil =>
    cases h
    exact hi
  | cons a acts ih =>
    obtain ⟨_, ha, hrest⟩ := run_cons.mp h
    exact ih (fun b hb => hacts b (mem_cons_of_mem _ hb)) hrest (inv_step hinj (hacts a mem_cons_self) ha hi)

omit [DecidableEq P] [DecidableEq Dir] in
lemma Inv.isolated (hinj : Set.InjOn (sanitize isalnum) ops) {s : State P C Dir}
    (hi : Inv isalnum ops s) : Isolated isalnum ops s := by
  intro p key dir config status hop hserve
  unfold serve at hserve
  cases hmemo : (s.proc p).memo key with
  | some r =>
    rw [hmemo, Option.some_or, Option.some.injEq] at hserve
    subst hserve
    exact hi.memo p key config status hmemo
  | none =>
    rw [hmemo, Option.none_or] at hserve
    exact .inr (.inr (storeHit_recorded hinj hop (hi.view p _ _ dir) hserve))

/-! ## Names that are sanitized alike -/

/-- The run in which one operator records its default: no candidates, a fresh process, a write. -/
def recordDefault (p : P) (key : Key) (config : C) (dir : Dir) : List (Action P C Dir) :=
  [.opConfig p { key := key, default := config, candidates := [], hasBench := false, dir := dir,
                 off := false, capturing := false },
   .write p true]

/-- Another operator with the same sanitized name is then served that default. -/
lemma collision {op op' : String} (hne : op ≠ op')
    (hsame : sanitize isalnum op = sanitize isalnum op') (p : P) (config : C) (dir : Dir)
    (device : Device) (source shapeClass : String) : ∃ s : State P C Dir,
      run (step isalnum) (recordDefault p ⟨op, device, source, shapeClass⟩ config dir) (init fun _ => none) = some s ∧
      serve isalnum s p ⟨op', device, source, shapeClass⟩ dir = some (config, .default) ∧
      ((⟨op', device, source, shapeClass⟩ : Key), config) ∉ s.recorded := by
  have hpath : storePath isalnum op' device dir = storePath isalnum op device dir := by
    simp [storePath, hsame]
  have hkey : (⟨op', device, source, shapeClass⟩ : Key) ≠ ⟨op, device, source, shapeClass⟩ := by
    simp [Ne.symm hne]
  let call : Call C Dir :=
    { key := ⟨op, device, source, shapeClass⟩, default := config, candidates := [], hasBench := false,
      dir := dir, off := false, capturing := false }
  let s₁ : State P C Dir := (load isalnum (init fun _ => none) p op device dir).await p call.pending
  refine ⟨settle (commit isalnum (s₁.record call.pending.entries) p call.pending) p call.pending true, ?_, ?_, ?_⟩
  · simp [run, recordDefault, step, stepOpConfig, stepWrite, init, Proc.fresh, storeHit, view, load,
      fileRecords, State.setProc, State.await, s₁, call]
  · simp [serve, settle, commit, State.setProc, State.setFile, State.record, State.await, load, init,
      Proc.fresh, view, fileKey, hpath, fileRecords, merge, Call.pending, tune, storeHit, hkey, hne.symm, s₁, call]
  · simp [settle, commit, State.setProc, State.setFile, State.record, State.await, load, init,
      Pending.entries, Call.pending, tune, hne.symm, s₁, call]

/-- **Isolation is a matter of names**: in every run of the operators in use, whatever a process is
served for a key was recorded for that key, exactly when no two of them are sanitized alike. -/
theorem isolated_iff [Inhabited P] [Inhabited C] [Inhabited Dir] (isalnum : Char → Bool) (ops : Set String) :
    (∀ acts : List (Action P C Dir), (∀ a ∈ acts, a.Within ops) →
        ∀ s, run (step isalnum) acts (init fun _ => none) = some s → Isolated isalnum ops s) ↔
      Set.InjOn (sanitize isalnum) ops := by
  constructor
  · intro h op hop _ hop' hsame
    by_contra hne
    obtain ⟨s, hrun, hserve, hnot⟩ := collision (C := C) hne hsame (default : P)
      default (default : Dir) ⟨none, none, none⟩ "" ""
    have hacts : ∀ a ∈ recordDefault (default : P) ⟨op, ⟨none, none, none⟩, "", ""⟩ (default : C)
        (default : Dir), a.Within ops := by
      simp [recordDefault, Action.Within, hop]
    rcases h _ hacts s hrun default _ default _ _ hop' hserve with h | h | h
    · cases h
    · cases h
    · exact hnot h
  · intro hinj _ hacts s hrun
    exact (inv_run hinj hacts hrun inv_init).isolated hinj

end

/-- `glm-gemv` is served the config that `glm/gemv` recorded. -/
theorem glm_gemv_shared : ∃ s : State (Fin 1) ℕ String, run (step Char.isAlphanum)
        (recordDefault 0 ⟨"glm/gemv", ⟨some "sm90", some 132, some "H100"⟩, "sha256:ab", "t8"⟩ 7 "store")
        (init fun _ => none) = some s ∧
      serve Char.isAlphanum s 0 ⟨"glm-gemv", ⟨some "sm90", some 132, some "H100"⟩, "sha256:ab", "t8"⟩
        "store" = some (7, .default) ∧
      ((⟨"glm-gemv", ⟨some "sm90", some 132, some "H100"⟩, "sha256:ab", "t8"⟩ : Key), 7) ∉ s.recorded :=
  collision (by decide) (by decide) 0 7 "store" ⟨some "sm90", some 132, some "H100"⟩ "sha256:ab" "t8"

end VKernels.Tuning
