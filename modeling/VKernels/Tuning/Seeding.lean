import Mathlib.Data.List.Induction
import VKernels.Tuning.Isolation

/-!
# What a write of the op-config cache keeps

A seed looks for tuned records in the view its process loaded once, and writes later, under the lock
of the file, over whatever is there by then.  A file holds one record per shape class, whatever its
device.

* `Fresh`, `OneDevice` — the view agrees with the disk on the classes a seed lands; the disk holds
  records of the writer's device there.
-/

namespace VKernels.Tuning

open VKernels.Interleaving
open List
open Function (update update_of_ne update_self)

/-- The classes a call writes. -/
def Pending.classes {C Dir : Type} (q : Pending C Dir) : List String := q.landed.map Prod.fst

/-- Whether the call is a seed without `force`. -/
def Purpose.unforcedSeed {C : Type} : Purpose C → Bool
  | .seed _ force => !force
  | .resolve _ _ _ => false

section

variable {P C Dir : Type} (isalnum : Char → Bool)

/-- The file a call writes. -/
def Pending.path (q : Pending C Dir) : Dir × String := storePath isalnum q.op q.device q.dir

/-- A seed leaves every tuned record of the disk in place. -/
def KeepsTuned (s s' : State P C Dir) (q : Pending C Dir) : Prop :=
  q.purpose.unforcedSeed = true → ∀ path c r, fileRecords (s.disk path) c = some r → r.status = .tuned →
    fileRecords (s'.disk path) c = some r

/-- A write loses no record of another file, shape class or device identity. -/
def KeepsOthers (s s' : State P C Dir) (q : Pending C Dir) : Prop :=
  ∀ path c r, fileRecords (s.disk path) c = some r →
    ¬ (path = q.path isalnum ∧ c ∈ q.classes ∧ r.device = q.device) →
    fileRecords (s'.disk path) c = some r

def Fresh (s : State P C Dir) (p : P) (q : Pending C Dir) : Prop :=
  q.purpose.unforcedSeed = true → ∀ c ∈ q.classes,
    tunedAt (view isalnum s p q.op q.device q.dir) c = tunedAt (fileRecords (s.disk (q.path isalnum))) c

def OneDevice (s : State P C Dir) (q : Pending C Dir) : Prop :=
  ∀ c ∈ q.classes, ∀ r, fileRecords (s.disk (q.path isalnum)) c = some r → r.device = q.device

/-- What holds of a process that has still to write: its records are its device's, and an unforced
seed saw none of its classes tuned in the view it keeps. -/
def Proc.Ok (pr : Proc C Dir) : Prop :=
  ∀ q, pr.pending = some q → (∀ cr ∈ q.landed, cr.2.device = q.device) ∧
    (q.purpose.unforcedSeed = true →
      (∀ cr ∈ q.landed, cr.2.status = .seeded) ∧
      ∃ records, pr.files (fileKey isalnum q.op q.device q.dir) = some records ∧
        ∀ c ∈ q.classes, tunedAt records c = false)

variable {isalnum}

variable {c : String} {s s' : State P C Dir} {p : P}

lemma merge_of_not_mem (landed : List (String × Record C)) (disk : Records C)
    (h : c ∉ landed.map Prod.fst) : merge disk landed c = disk c := by
  induction landed generalizing disk with
  | nil => rfl
  | cons cr rest ih =>
    rw [map_cons, mem_cons, not_or] at h
    exact (ih _ h.2).trans (update_of_ne h.1 _ _)

lemma merge_of_mem (landed : List (String × Record C)) (disk : Records C)
    (h : c ∈ landed.map Prod.fst) : ∃ r, (c, r) ∈ landed ∧ merge disk landed c = some r := by
  induction landed generalizing disk with
  | nil => cases h
  | cons cr rest ih =>
    by_cases hrest : c ∈ rest.map Prod.fst
    · obtain ⟨r, hr, heq⟩ := ih _ hrest
      exact ⟨r, mem_cons_of_mem _ hr, heq⟩
    · rw [map_cons, mem_cons, or_iff_left hrest] at h
      subst h
      refine ⟨cr.2, mem_cons_self, ?_⟩
      exact (merge_of_not_mem rest _ hrest).trans (update_self _ _ _)

lemma seedLoop_untuned (mk : Entry C → Record C) (hmk : ∀ e, (mk e).status = .seeded) (base : Records C)
    (entries : List (String × Entry C)) (records : Records C) (landed : List (String × Record C))
    (hland : ∀ cr ∈ landed, cr.2.status = .seeded ∧ tunedAt base cr.1 = false)
    (hsame : ∀ c, c ∉ landed.map Prod.fst → records c = base c) : ∀ cr ∈ seedLoop false mk entries records landed,
      cr.2.status = .seeded ∧ tunedAt base cr.1 = false := by
  induction entries generalizing records landed with
  | nil => exact hland
  | cons ce rest ih =>
    obtain ⟨c, e⟩ := ce
    unfold seedLoop
    split
    · exact ih records landed hland hsame
    · rename_i htuned
      refine ih _ _ (fun cr hcr => ?_) fun c' hc' => ?_
      · rcases mem_append.mp hcr with hcr | hcr
        · exact hland cr hcr
        · rw [mem_singleton.mp hcr]
          refine ⟨hmk e, ?_⟩
          by_cases hc : c ∈ landed.map Prod.fst
          · obtain ⟨cr', hcr', heq⟩ := mem_map.mp hc
            rw [← heq]
            exact (hland cr' hcr').2
          · simpa [tunedAt, hsame c hc] using htuned
      · rw [map_append, mem_append, not_or] at hc'
        have hne : c' ≠ c := by simpa using hc'.2
        rw [update_of_ne hne]
        exact hsame c' hc'.1

/-! ## The invariant of a process -/

lemma ok_idle {pr : Proc C Dir} (h : pr.pending = none) : pr.Ok isalnum := by
  intro q hq
  rw [h] at hq
  cases hq

variable [DecidableEq P]

lemma ok_setProc (hs : ∀ p', p' ≠ p → (s.proc p').Ok isalnum)
    {q : Proc C Dir} (hq : q.Ok isalnum) (p' : P) : ((s.setProc p q).proc p').Ok isalnum := by
  by_cases hp : p' = p
  · subst hp
    simpa only [State.setProc, update_self] using hq
  · simpa only [State.setProc, update_of_ne hp] using hs p' hp

variable [DecidableEq Dir]

/-- A load keeps the view a pending seed went by. -/
lemma ok_load (hs : ∀ p, (s.proc p).Ok isalnum) (p : P) (op : String) (device : Device) (dir : Dir) (p' : P) :
    ((load isalnum s p op device dir).proc p').Ok isalnum := by
  refine ok_setProc (fun p' _ => hs p') ?_ p'
  intro q hq
  refine ⟨(hs p q hq).1, fun hseed => ?_⟩
  obtain ⟨hstatus, records, hfiles, huntuned⟩ := (hs p q hq).2 hseed
  refine ⟨hstatus, records, ?_, huntuned⟩
  dsimp only
  by_cases hkey : fileKey isalnum q.op q.device q.dir = fileKey isalnum op device dir
  · rw [hkey, update_self, view, ← hkey, hfiles, Option.getD_some]
  · rw [update_of_ne hkey]
    exact hfiles

lemma load_files (s : State P C Dir) (p : P) (op : String) (device : Device) (dir : Dir) :
    ((load isalnum s p op device dir).proc p).files (fileKey isalnum op device dir) =
      some (view isalnum (load isalnum s p op device dir) p op device dir) := by
  simp [load, State.setProc, view]

lemma ok_step {a : Action P C Dir} (h : step isalnum a s = some s')
    (hs : ∀ p, (s.proc p).Ok isalnum) : ∀ p, (s'.proc p).Ok isalnum := by
  cases a with
  | opConfig p call =>
    simp only [step, stepOpConfig] at h
    split at h
    · cases h
      exact hs
    · split at h
      · cases h
      · rename_i hidle
        split at h
        · cases h
          exact ok_setProc (fun p' _ => hs p') (ok_idle hidle)
        · split at h
          · cases h
            exact ok_setProc (fun p' _ => hs p') (ok_idle hidle)
          · have hload := ok_load hs p call.key.op call.key.device call.dir
            split at h
            · cases h
              refine ok_setProc (fun p' _ => hload p') (ok_idle ?_)
              simpa [load, State.setProc] using hidle
            · cases h
              refine ok_setProc (fun p' _ => hload p') fun q hq => ?_
              cases hq
              exact ⟨by simp [Call.pending], by simp [Call.pending, Purpose.unforcedSeed]⟩
  | seed p call =>
    simp only [step, stepSeed] at h
    split at h
    · cases h
    · split at h
      · cases h
        exact hs
      · have hload := ok_load hs p call.op call.device call.dir
        split at h
        · cases h
          exact hload
        · cases h
          refine ok_setProc (fun p' _ => hload p') fun q hq => ?_
          cases hq
          refine ⟨seedLoop_device call.force call.record call.device (fun _ => rfl) _ _ _ (by simp), ?_⟩
          intro hforce
          have hforce : call.force = false := by simpa [Purpose.unforcedSeed] using hforce
          have huntuned := seedLoop_untuned call.record (fun _ => rfl)
            (view isalnum (load isalnum s p call.op call.device call.dir) p call.op call.device call.dir)
            call.entries _ [] (by simp) (fun _ _ => rfl)
          simp only [hforce]
          refine ⟨fun cr hcr => (huntuned cr hcr).1, _, load_files s p _ _ _, fun c hc => ?_⟩
          obtain ⟨cr, hcr, rfl⟩ := mem_map.mp hc
          exact (huntuned cr hcr).2
  | write p ok =>
    simp only [step, stepWrite] at h
    split at h
    · cases h
    · cases h
      refine ok_setProc (fun p' hp' => ?_) (ok_idle rfl)
      cases ok with
      | true => simpa [commit, State.setProc, State.setFile, State.record, hp'] using hs p'
      | false => exact hs p'
  | storedRecords p op device dir =>
    cases h
    exact ok_load hs p op device dir
  | resetMemo p op =>
    simp only [step] at h
    split at h
    · cases h
    · rename_i hidle
      cases h
      exact ok_setProc (fun p' _ => hs p') (ok_idle hidle)

lemma ok_run {acts : List (Action P C Dir)} {disk : Dir × String → Option (StoreFile C)}
    (h : run (step isalnum) acts (init disk) = some s) : ∀ p, (s.proc p).Ok isalnum :=
  run_invariant (fun _ _ _ => ok_step) h fun _ => ok_idle rfl

/-! ## One write -/

section

variable {q : Pending C Dir} (hq : (s.proc p).pending = some q) (h : step isalnum (.write p true) s = some s')
include hq h

lemma fileRecords_write (path : Dir × String) :
    fileRecords (s'.disk path) = if path = q.path isalnum then merge (fileRecords (s.disk path)) q.landed
      else fileRecords (s.disk path) := by
  simp only [step, stepWrite, hq, Option.some.injEq] at h
  subst h
  by_cases hpath : path = q.path isalnum
  · subst hpath
    simp [settle, commit, State.setProc, State.setFile, State.record, Pending.path, fileRecords]
  · rw [if_neg hpath, if_pos trivial]
    exact congrArg fileRecords (update_of_ne hpath _ _)

lemma fileRecords_write_of_not {path : Dir × String} (hnot : ¬ (path = q.path isalnum ∧ c ∈ q.classes)) :
    fileRecords (s'.disk path) c = fileRecords (s.disk path) c := by
  rw [fileRecords_write hq h]
  split
  · exact merge_of_not_mem _ _ fun hc => hnot ⟨‹_›, hc⟩
  · rfl

lemma fileRecords_write_of_mem (hc : c ∈ q.classes) :
    ∃ r, (c, r) ∈ q.landed ∧ fileRecords (s'.disk (q.path isalnum)) c = some r := by
  rw [fileRecords_write hq h, if_pos rfl]
  exact merge_of_mem _ _ hc

end

lemma keepsOthers_iff {q : Pending C Dir} (hs : (s.proc p).Ok isalnum) (hq : (s.proc p).pending = some q)
    (h : step isalnum (.write p true) s = some s') : KeepsOthers isalnum s s' q ↔ OneDevice isalnum s q := by
  constructor
  · intro hkeeps c hc r hr
    by_contra hdev
    obtain ⟨_, hr', hnew⟩ := fileRecords_write_of_mem hq h hc
    have hold := hkeeps _ c r hr fun hmine => hdev hmine.2.2
    rw [hnew, Option.some.injEq] at hold
    exact hdev (hold ▸ (hs q hq).1 _ hr')
  · intro hone _ c r hr hnot
    rw [fileRecords_write_of_not hq h, hr]
    rintro ⟨rfl, hc⟩
    exact hnot ⟨rfl, hc, hone c hc r hr⟩

lemma keepsTuned_iff {q : Pending C Dir} (hs : (s.proc p).Ok isalnum) (hq : (s.proc p).pending = some q)
    (h : step isalnum (.write p true) s = some s') : KeepsTuned s s' q ↔ Fresh isalnum s p q := by
  constructor
  · intro hkeeps hseed c hc
    obtain ⟨hstatus, records, hfiles, huntuned⟩ := (hs q hq).2 hseed
    rw [view, hfiles, Option.getD_some, huntuned c hc]
    by_contra htuned
    obtain ⟨r, hr, hrt⟩ : ∃ r, fileRecords (s.disk (q.path isalnum)) c = some r ∧ r.status = .tuned := by
      simpa [tunedAt, Option.any_eq_true] using Bool.eq_true_of_not_eq_false fun hf => htuned hf.symm
    obtain ⟨_, hr', hnew⟩ := fileRecords_write_of_mem hq h hc
    have hold := hkeeps hseed _ c r hr hrt
    rw [hnew, Option.some.injEq] at hold
    have hseeded := hstatus _ hr'
    rw [hold, hrt] at hseeded
    cases hseeded
  · intro hfresh hseed _ c r hr hrt
    obtain ⟨-, _, hfiles, huntuned⟩ := (hs q hq).2 hseed
    rw [fileRecords_write_of_not hq h, hr]
    rintro ⟨rfl, hc⟩
    have hagree := hfresh hseed c hc
    rw [view, hfiles, Option.getD_some, huntuned c hc] at hagree
    simp [tunedAt, hr, hrt] at hagree

variable (isalnum) in
/-- The run `acts` writes `q` from `s`, and `s'` is what that leaves. -/
def WriteOf (s₀ : State P C Dir) (acts : List (Action P C Dir)) (s s' : State P C Dir) (p : P)
    (q : Pending C Dir) : Prop :=
  ∃ pre post, acts = pre ++ .write p true :: post ∧ run (step isalnum) pre s₀ = some s ∧
    (s.proc p).pending = some q ∧ step isalnum (.write p true) s = some s'

/-- **What writes keep**: in every run from every disk, each write keeps the tuned records it must not
seed over and the records of other files, classes and devices, exactly when each seed's view agrees
with the disk on its classes and each write finds its own device's records there. -/
theorem never_downgraded_iff (isalnum : Char → Bool) (disk : Dir × String → Option (StoreFile C))
    (acts : List (Action P C Dir)) :
    (∀ s s' p q, WriteOf isalnum (init disk) acts s s' p q → KeepsTuned s s' q ∧ KeepsOthers isalnum s s' q) ↔
      (∀ s s' p q, WriteOf isalnum (init disk) acts s s' p q → Fresh isalnum s p q ∧ OneDevice isalnum s q) := by
  constructor <;> intro hall s s' p q hw <;> obtain ⟨_, _, -, hpre, hq, hstep⟩ := id hw
  · exact ⟨(keepsTuned_iff (ok_run hpre p) hq hstep).mp (hall s s' p q hw).1,
      (keepsOthers_iff (ok_run hpre p) hq hstep).mp (hall s s' p q hw).2⟩
  · exact ⟨(keepsTuned_iff (ok_run hpre p) hq hstep).mpr (hall s s' p q hw).1,
      (keepsOthers_iff (ok_run hpre p) hq hstep).mpr (hall s s' p q hw).2⟩

end

/-! ## Two runs -/

/-- The device of the runs below. -/
def h100 : Device := ⟨some "sm90", some 132, some "H100"⟩

/-- Another device of the same capability. -/
def h200 : Device := ⟨some "sm90", some 144, some "H200"⟩

def oneCandidate (device : Device) (config : ℕ) : Call ℕ Unit :=
  { key := ⟨"gemv", device, "sha256:ab", "t8"⟩, default := 0, candidates := [⟨config, false, some 1⟩],
    hasBench := true, dir := (), off := false, capturing := false }

/-- A seed of the same class. -/
def oneSeed : SeedCall ℕ Unit :=
  { op := "gemv", device := h100, source := "sha256:ab", entries := [("t8", ⟨5, none, "table"⟩)],
    dir := (), off := false, force := false }

/-- Process 0 checks for tuned records, process 1 tunes the class and writes it, then process 0 writes
over the tuned record.  And a tune on another device of the same capability replaces this one's. -/
theorem stale_seed_downgrades : (∃ s s' : State (Fin 2) ℕ Unit, ∃ q, WriteOf Char.isAlphanum (init fun _ => none)
        [.seed 0 oneSeed, .opConfig 1 (oneCandidate h100 7), .write 1 true, .write 0 true] s s' 0 q ∧
      ¬ KeepsTuned s s' q) ∧ ∃ s s' : State (Fin 2) ℕ Unit, ∃ q, WriteOf Char.isAlphanum (init fun _ => none)
        [.opConfig 0 (oneCandidate h100 7), .write 0 true, .opConfig 1 (oneCandidate h200 9), .write 1 true] s s' 1 q ∧
      ¬ KeepsOthers Char.isAlphanum s s' q := by
  constructor
  · refine ⟨_, _, _, ⟨[.seed 0 oneSeed, .opConfig 1 (oneCandidate h100 7), .write 1 true], [], rfl, rfl,
      rfl, rfl⟩, fun h => ?_⟩
    have hseeded := h rfl ((), "gemv.sm90.json") "t8" _ rfl rfl
    exact absurd (congrArg (Option.map Record.status) hseeded) (by decide)
  · refine ⟨_, _, _, ⟨[.opConfig 0 (oneCandidate h100 7), .write 0 true,
      .opConfig 1 (oneCandidate h200 9)], [], rfl, rfl, rfl, rfl⟩, fun h => ?_⟩
    have hlost := h ((), "gemv.sm90.json") "t8" _ rfl fun hmine => absurd hmine.2.2 (by decide)
    exact absurd (congrArg (Option.map Record.config) hlost) (by decide)

end VKernels.Tuning
