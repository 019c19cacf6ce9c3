import VKernels.Core.TuneFile
import VKernels.Lib.Interleaving

/-!
# The native tuning store

`find` and `persist` of `core/tuning.cpp` over one enabled store directory that processes share.

* `warm`, `find` — a view of the store, and a lookup in it.
* `Holds` — the lock's invariant; `disk_of_run` — the files after a run are those of the calls one by one.
-/

namespace VKernels.Core.Tuning

open TextLines Interleaving
open Function (update)

/-! ## Views -/

/-- The body of each file, by its name below the store directory. -/
abbrev Disk := Text → Option Text

/-- `kernel -> (arch -> entries)`. -/
abbrev Stores := Text → Text → Option (List Entry)

/-- The files that `warm_locked` takes. -/
def loads (name body : Text) : Bool :=
  decide ('.' ∈ name) && suffix.isSuffixOf name && header.isPrefixOf body

/-- `name.substr(0, dot)`. -/
def kernelOf (name : Text) : Text := name.takeWhile (· ≠ '.')

def warmFile (d : Disk) (stores : Stores) (name : Text) : Stores :=
  match d name with
  | none => stores
  | some body =>
    if loads name body then fun kernel arch =>
      if kernel = kernelOf name ∧ arch = fileArch name body then some (parseBody body) else stores kernel arch
    else stores

/-- `warm_locked`, over the names in the order of `readdir`. -/
def warm (d : Disk) (names : List Text) : Stores := names.foldl (warmFile d) fun _ _ => none

/-- What `readdir` gives: the files of the directory itself, in any order. -/
def Listing (d : Disk) (names : List Text) : Prop := ∀ name, name ∈ names ↔ '/' ∉ name ∧ d name ≠ none

def find (stores : Stores) (arch kernel : Text) (key : List LongLong) : Option Entry :=
  (stores kernel arch).bind fun entries => entries.find? fun e => e.key = key

/-! ## `persist` -/

/-- A call, with the arch and compute units of the device of its thread. -/
structure Call where
  kernel : Text
  key : List LongLong
  params : List (Text × LongLong)
  writtenBy : Text
  arch : Text
  cuCount : ℤ

def Call.path (c : Call) : Text := c.kernel ++ '.' :: (c.arch ++ suffix)

/-- The records that a call writes: those of the file, less the key's, and its own. -/
def merged (body : Option Text) (c : Call) : List Entry :=
  let entries := match body with
    | some body => if header.isPrefixOf body then parseBody body else []
    | none => []
  entries.filter (fun e => e.key ≠ c.key) ++ [⟨c.key, c.params⟩]

/-- The file that a call leaves when nobody else writes it. -/
def rendered (body : Option Text) (c : Call) : Text := renderBody c.arch c.cuCount c.writtenBy (merged body c)

/-- Where a thread is in `persist`. -/
inductive Phase where
  | idle
  | locked (c : Call)
  | read (c : Call) (entries : List Entry)
  | written (c : Call) (body : Text)
  | renamed (c : Call)

/-- The call whose lock the thread holds. -/
def Phase.call : Phase → Option Call
  | idle => none
  | locked c => some c
  | read c _ => some c
  | written c _ => some c
  | renamed c => some c

open Phase (call)

/-- The files, the holder of each lock, the threads, and the calls whose file is in place, in order. -/
structure System where
  disk : Disk
  lock : Text → Option ℕ
  phase : ℕ → Phase
  persisted : List Call

/-- The next operation of a thread.  `giveUp` is an I/O error or the end of the process, which releases the
lock; a call that cannot even take its lock has no operation. -/
inductive Action where
  | flock (pid : ℕ) (c : Call)
  | read (pid : ℕ)
  | write (pid : ℕ)
  | rename (pid : ℕ)
  | unlock (pid : ℕ)
  | giveUp (pid : ℕ)

namespace System

def setPhase (s : System) (pid : ℕ) (phase : Phase) : System :=
  { s with phase := update s.phase pid phase }

def release (s : System) (pid : ℕ) (c : Call) : System :=
  { s with phase := update s.phase pid .idle, lock := update s.lock c.path none }

def step : Action → System → Option System
  | .flock pid c, s =>
    match s.phase pid, s.lock c.path with
    | .idle, none =>
      if c.arch ≠ [] then
        some { s with phase := update s.phase pid (.locked c), lock := update s.lock c.path (some pid) }
      else none
    | _, _ => none
  | .read pid, s =>
    match s.phase pid with
    | .locked c => some (s.setPhase pid (.read c (merged (s.disk c.path) c)))
    | _ => none
  | .write pid, s =>
    match s.phase pid with
    -- a NUL cuts the `XXXXXX` off the template, and `mkstemp` refuses it
    | .read c entries => if '\x00' ∉ c.path then
        some (s.setPhase pid (.written c (renderBody c.arch c.cuCount c.writtenBy entries))) else none
    | _ => none
  | .rename pid, s =>
    match s.phase pid with
    | .written c body => some { s with
        disk := update s.disk c.path (some body)
        phase := update s.phase pid (.renamed c)
        persisted := s.persisted ++ [c] }
    | _ => none
  | .unlock pid, s =>
    match s.phase pid with
    | .renamed c => some (s.release pid c)
    | _ => none
  | .giveUp pid, s =>
    match s.phase pid with
    | .locked c | .read c _ | .written c _ => some (s.release pid c)
    | _ => none

/-- No thread is in `persist`. -/
def start (d : Disk) : System where
  disk := d
  lock _ := none
  phase _ := .idle
  persisted := []

end System

def lastParams (calls : List Call) (arch kernel : Text) (key : List LongLong) : Option (List (Text × LongLong)) :=
  ((calls.filter fun c => c.arch = arch ∧ c.kernel = kernel ∧ c.key = key).getLast?).map Call.params

/-! ## The lock -/

/-- One call after the other. -/
def apply (d : Disk) (c : Call) : Disk := update d c.path (some (rendered (d c.path) c))

/-- Who is in `persist` has the lock of its file, so what it has read is still there. -/
structure Holds (d : Disk) (s : System) : Prop where
  disk : s.disk = s.persisted.foldl apply d
  lock : ∀ pid c, (s.phase pid).call = some c → s.lock c.path = some pid
  read : ∀ pid c entries, s.phase pid = .read c entries → entries = merged (s.disk c.path) c
  written : ∀ pid c body, s.phase pid = .written c body → body = rendered (s.disk c.path) c

section

variable {d : Disk} {s s' : System}

lemma step_cases {a : Action} (h : System.step a s = some s') :
    (∃ pid c, a = .flock pid c ∧ s.phase pid = .idle ∧ s.lock c.path = none ∧ s' = { s with
      phase := update s.phase pid (.locked c), lock := update s.lock c.path (some pid) }) ∨
    (∃ pid c, s.phase pid = .locked c ∧ s' = s.setPhase pid (.read c (merged (s.disk c.path) c))) ∨
    (∃ pid c entries, s.phase pid = .read c entries ∧
      s' = s.setPhase pid (.written c (renderBody c.arch c.cuCount c.writtenBy entries))) ∨
    (∃ pid c body, s.phase pid = .written c body ∧ s' = { s with
      disk := update s.disk c.path (some body)
      phase := update s.phase pid (.renamed c)
      persisted := s.persisted ++ [c] }) ∨
    ∃ pid c, (s.phase pid).call = some c ∧ s' = s.release pid c := by
  cases a with
  | flock pid c =>
    simp only [System.step] at h
    split at h
    · split at h
      · rename_i hphase hlock _
        exact .inl ⟨pid, c, rfl, hphase, hlock, by simpa using h.symm⟩
      · cases h
    · cases h
  | read pid =>
    simp only [System.step] at h
    split at h
    · rename_i c hphase
      exact .inr (.inl ⟨pid, c, hphase, by simpa using h.symm⟩)
    · cases h
  | write pid =>
    simp only [System.step] at h
    split at h
    · rename_i c entries hphase
      split at h
      · exact .inr (.inr (.inl ⟨pid, c, entries, hphase, by simpa using h.symm⟩))
      · cases h
    · cases h
  | rename pid =>
    simp only [System.step] at h
    split at h
    · rename_i c body hphase
      exact .inr (.inr (.inr (.inl ⟨pid, c, body, hphase, by simpa using h.symm⟩)))
    · cases h
  | unlock pid =>
    simp only [System.step] at h
    split at h
    · rename_i c hphase
      exact .inr (.inr (.inr (.inr ⟨pid, c, by simp [hphase, call], by simpa using h.symm⟩)))
    · cases h
  | giveUp pid =>
    simp only [System.step] at h
    split at h
    case h_4 => cases h
    all_goals
      rename_i hphase
      exact .inr (.inr (.inr (.inr ⟨pid, _, by rw [hphase]; rfl, by simpa using h.symm⟩)))

lemma Holds.start (d : Disk) : Holds d (System.start d) where
  disk := rfl
  lock _ _ h := by cases h
  read _ _ _ h := by cases h
  written _ _ _ h := by cases h

lemma Holds.apart (h : Holds d s) {pid other : ℕ} (hne : other ≠ pid) {c c' : Call}
    (hc : (s.phase pid).call = some c) (hc' : (s.phase other).call = some c') : c'.path ≠ c.path := by
  intro heq
  have hlock := h.lock other c' hc'
  rw [heq, h.lock pid c hc] at hlock
  exact hne (Option.some.inj hlock).symm

lemma Holds.setPhase (h : Holds d s) {pid : ℕ} {phase : Phase} (hcall : phase.call = (s.phase pid).call)
    (hread : ∀ c entries, phase = .read c entries → entries = merged (s.disk c.path) c)
    (hwritten : ∀ c body, phase = .written c body → body = rendered (s.disk c.path) c) :
    Holds d (s.setPhase pid phase) := by
  refine ⟨h.disk, fun other c hc => ?_, fun other c entries hc => ?_, fun other c body hc => ?_⟩
  · by_cases hother : other = pid
    · subst hother
      simp [System.setPhase, hcall] at hc
      exact h.lock other c hc
    · simp [System.setPhase, hother] at hc
      exact h.lock other c hc
  · by_cases hother : other = pid
    · subst hother
      simp [System.setPhase] at hc
      exact hread c entries hc
    · simp [System.setPhase, hother] at hc
      exact h.read other c entries hc
  · by_cases hother : other = pid
    · subst hother
      simp [System.setPhase] at hc
      exact hwritten c body hc
    · simp [System.setPhase, hother] at hc
      exact h.written other c body hc

/-- **The lock's invariant** is kept. -/
theorem Holds.step (h : Holds d s) {a : Action} (hstep : System.step a s = some s') : Holds d s' := by
  rcases step_cases hstep with ⟨pid, c, rfl, hphase, hlock, rfl⟩ | ⟨pid, c, hphase, rfl⟩ |
    ⟨pid, c, entries, hphase, rfl⟩ | ⟨pid, c, body, hphase, rfl⟩ | ⟨pid, c, hphase, rfl⟩
  · refine ⟨h.disk, fun other c' hc => ?_, fun other c' entries hc => ?_, fun other c' body hc => ?_⟩
    · by_cases hother : other = pid
      · subst hother
        simp [call] at hc
        simp [hc]
      · simp [hother] at hc
        have hheld := h.lock other c' hc
        have hpath : c'.path ≠ c.path := fun heq => by simp [heq, hlock] at hheld
        simp [hpath, hheld]
    · by_cases hother : other = pid
      · simp [hother] at hc
      · simp [hother] at hc
        exact h.read other c' entries hc
    · by_cases hother : other = pid
      · simp [hother] at hc
      · simp [hother] at hc
        exact h.written other c' body hc
  · apply h.setPhase
    · simp [hphase, call]
    · rintro _ _ ⟨⟩
      rfl
    · rintro _ _ ⟨⟩
  · apply h.setPhase
    · simp [hphase, call]
    · rintro _ _ ⟨⟩
    · rintro _ _ ⟨⟩
      rw [h.read pid c entries hphase]
      rfl
  · have hcall : (s.phase pid).call = some c := by simp [hphase, call]
    refine ⟨?_, fun other c' hc => ?_, fun other c' entries hc => ?_, fun other c' body' hc => ?_⟩
    · rw [List.foldl_append, ← h.disk, List.foldl_cons, List.foldl_nil, apply, h.written pid c body hphase]
    · by_cases hother : other = pid
      · subst hother
        simp [call] at hc
        subst hc
        exact h.lock other c hcall
      · simp [hother] at hc
        exact h.lock other c' hc
    · by_cases hother : other = pid
      · simp [hother] at hc
      · simp [hother] at hc
        have hpath := h.apart hother hcall (show (s.phase other).call = some c' by simp [hc, call])
        simp [hpath, h.read other c' entries hc]
    · by_cases hother : other = pid
      · simp [hother] at hc
      · simp [hother] at hc
        have hpath := h.apart hother hcall (show (s.phase other).call = some c' by simp [hc, call])
        simp [hpath, h.written other c' body' hc]
  · refine ⟨h.disk, fun other c' hc => ?_, fun other c' entries hc => ?_, fun other c' body hc => ?_⟩
    · by_cases hother : other = pid
      · simp [System.release, hother, call] at hc
      · simp [System.release, hother] at hc
        have hpath := h.apart hother hphase hc
        simp [System.release, hpath, h.lock other c' hc]
    · by_cases hother : other = pid
      · simp [System.release, hother] at hc
      · simp [System.release, hother] at hc
        exact h.read other c' entries hc
    · by_cases hother : other = pid
      · simp [System.release, hother] at hc
      · simp [System.release, hother] at hc
        exact h.written other c' body hc

lemma disk_of_run {actions : List Action} (hrun : run System.step actions (System.start d) = some s) :
    s.disk = s.persisted.foldl apply d :=
  (run_invariant (P := Holds d) (fun _ _ _ hstep h => h.step hstep) hrun (Holds.start d)).disk

end

end VKernels.Core.Tuning
