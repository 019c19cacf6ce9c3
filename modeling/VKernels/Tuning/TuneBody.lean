import VKernels.Core.TuneFile
import VKernels.Lib.PyDict
import VKernels.Lib.PyText

/-!
# One tune-file language, two readers

`parse_tune_body` of `torch_ops/tuner.py` beside `parse_body`, `find` and `Entry::find` of `core/tuning.cpp`.

* `parseTuneBody` — the Python reader; `pyFind`, `cppFind` — a key and a parameter looked up on either side.
* `pyLine`, `cppLine` — what a line says to either side; `records` — the records that lines make up.
* `ReadAlike` — both sides find the same lines in a text; `Unambiguous` — where a key or a name is repeated, the first
  value and the last are one.

## Results

* `pyFind_eq` — Python finds the last value of the last record; `cppFind_eq` — C++ the first of the first.
* `finds_agree_iff` — where the lines are read alike, the readers agree exactly on the unambiguous files.
-/

namespace VKernels.Tuner

open TextLines PyDict PyText VKernels.Core.Tuning
open List
open IntSyntax (ascii)
open Option (getD_some map_some)

section

variable (I : IntSyntax)

/-! ## The Python reader -/

/-- `_parse_key_list`. -/
def parseKeyList (text : Text) : Option (List ℤ) :=
  match (text.splitOn ',').mapM I.toInt with
  | some key => if key = [] then none else some key
  | none => none

/-- `_parse_param`. -/
def parseParam (text : Text) : Option (Text × ℤ) :=
  match text.dropWhile (· ≠ '=') with
  | [] => none
  | _ :: raw =>
    let name := text.takeWhile (· ≠ '=')
    if name = [] then none else (I.toInt raw).map fun value => (name, value)

/-- The records so far, and the key of the one that receives parameters. -/
structure Reader where
  records : Dict (List ℤ) (Dict Text ℤ)
  cur : Option (List ℤ)

/-- `raw.split("#", 1)[0].rstrip(" \t\r")`. -/
def stripRaw (raw : Text) : Text := (raw.takeWhile (· ≠ '#')).rdropWhile fun c => c = ' ' ∨ c = '\t' ∨ c = '\r'

/-- One line of `parse_tune_body`. -/
def Reader.line (s : Reader) (raw : Text) : Reader :=
  let line := stripRaw raw
  if line = [] then s
  else if keyMark.isPrefixOf line then
    match parseKeyList I (line.drop 4) with
    | some parsed => ⟨s.records.set parsed Dict.empty, some parsed⟩
    | none => ⟨s.records, none⟩
  else
    match parseParam I line, s.cur with
    | some (name, value), some cur =>
      ⟨s.records.set cur (((s.records.get? cur).getD Dict.empty).set name value), some cur⟩
    | _, _ => s

def parseTuneBody (text : Text) : Dict (List ℤ) (Dict Text ℤ) :=
  ((splitlines text).foldl (Reader.line I) ⟨Dict.empty, none⟩).records

def pyFind (text : Text) (key : List ℤ) (name : Text) : Option (Option ℤ) :=
  ((parseTuneBody I text).get? key).map fun record => record.get? name

end

/-- `find` among the entries, then `Entry::find`. -/
def cppFind (text : Text) (key : List ℤ) (name : Text) : Option (Option ℤ) :=
  ((parseBody text).find? fun e => e.key.map Subtype.val = key).map fun e =>
    (e.params.find? fun param => param.1 = name).map fun param => param.2.1

/-! ## Lines and records -/

/-- What a line says: a key, well-formed or not, or a parameter. -/
inductive Line where
  | key (key : Option (List ℤ))
  | param (name : Text) (value : ℤ)
  deriving DecidableEq

def pyLine (I : IntSyntax) (raw : Text) : Option Line :=
  let line := stripRaw raw
  if line = [] then none
  else if keyMark.isPrefixOf line then some (.key (parseKeyList I (line.drop 4)))
  else (parseParam I line).map fun param => .param param.1 param.2

def cppLine (raw : Text) : Option Line :=
  let line := stripLine raw
  if line = [] then none
  else if keyMark.isPrefixOf line then some (.key ((Core.Tuning.parseKeyList (line.drop 4)).map (·.map Subtype.val)))
  else
    match line.dropWhile (· ≠ '=') with
    | [] => none
    | _ :: text =>
      match stoll text with
      | some (value, used) => if used = text.length then some (.param (line.takeWhile (· ≠ '=')) value.1) else none
      | none => none

/-- A key and its parameters, in the order of the file. -/
abbrev Record := List ℤ × List (Text × ℤ)

/-- The records so far, and whether the last one receives parameters. -/
structure Records where
  done : List Record
  isOpen : Bool

def Records.add (R : Records) : Line → Records
  | .key (some key) => ⟨R.done ++ [(key, [])], true⟩
  | .key none => ⟨R.done, false⟩
  | .param name value =>
    if R.isOpen then ⟨R.done.modify (R.done.length - 1) fun r => (r.1, r.2 ++ [(name, value)]), true⟩ else R

def records (lines : List Line) : List Record := (lines.foldl Records.add ⟨[], false⟩).done

/-- The lines of a text that say something to Python. -/
def pyLines (I : IntSyntax) (text : Text) : List Line := (splitlines text).filterMap (pyLine I)

def cppLines (text : Text) : List Line := (getlines '\n' text).filterMap cppLine

def ReadAlike (I : IntSyntax) (text : Text) : Prop := pyLines I text = cppLines text

instance (I : IntSyntax) (text : Text) : Decidable (ReadAlike I text) :=
  inferInstanceAs (Decidable (pyLines I text = cppLines text))

def Unambiguous (R : List Record) : Prop :=
  ∀ key first last, R.lookup key = some first → R.reverse.lookup key = some last →
    ∀ name, first.lookup name = last.reverse.lookup name

/-! ## Both readers on records -/

section

def LastOpen (R : Records) (cur : List ℤ) : Prop := ∃ before ps, R.done = before ++ [(cur, ps)]

variable {ps : List (Text × ℤ)} {s : Reader} {p : Parser}

lemma Records.add_param {R : Records} {before : List Record} {key : List ℤ}
    (hopen : R.isOpen = true) (hdone : R.done = before ++ [(key, ps)]) (name : Text) (value : ℤ) :
    R.add (.param name value) = ⟨before ++ [(key, ps ++ [(name, value)])], true⟩ := by
  simp only [Records.add, hopen, if_true, hdone]
  congr 1
  rw [modify_eq_set_getElem?]
  simp

/-- What Python holds: the last record of each key, with the last value of each name. -/
structure Holds (s : Reader) (R : Records) : Prop where
  records : ∀ key name, (s.records.get? key).map (·.get? name) =
    (R.done.reverse.lookup key).map fun ps => ps.reverse.lookup name
  cur : ∀ cur, s.cur = some cur ↔ R.isOpen = true ∧ LastOpen R cur
  isOpen : R.isOpen = true → ∃ cur, s.cur = some cur

lemma Reader.line_eq (I : IntSyntax) (s : Reader) (raw : Text) : Reader.line I s raw =
    match pyLine I raw with
    | none => s
    | some (.key (some key)) => ⟨s.records.set key Dict.empty, some key⟩
    | some (.key none) => ⟨s.records, none⟩
    | some (.param name value) =>
      match s.cur with
      | some cur => ⟨s.records.set cur (((s.records.get? cur).getD Dict.empty).set name value), some cur⟩
      | none => s := by
  unfold Reader.line pyLine
  dsimp only
  split
  · rfl
  · split
    · cases parseKeyList I _ with
      | none => rfl
      | some key => rfl
    · cases parseParam I _ with
      | none => rfl
      | some param =>
        obtain ⟨_, _⟩ := param
        cases s.cur with
        | none => rfl
        | some cur => rfl

lemma lastOpen_append {before : List Record} {key cur : List ℤ} :
    LastOpen ⟨before ++ [(key, ps)], true⟩ cur ↔ key = cur := by
  constructor
  · rintro ⟨_, _, heq⟩
    have hlast := (append_inj' heq rfl).2
    simpa using congrArg (map Prod.fst) hlast
  · rintro rfl
    exact ⟨before, ps, rfl⟩

lemma Holds.addKey {R : Records} (h : Holds s R) (key : List ℤ) :
    Holds ⟨s.records.set key Dict.empty, some key⟩ (R.add (.key (some key))) where
  records key' name := by
    have hlookup : (R.done ++ [(key, [])]).reverse.lookup key' =
        if key' = key then some [] else R.done.reverse.lookup key' := by
      rw [reverse_append, reverse_singleton, singleton_append, Dict.lookup_cons_eq]
    simp only [Records.add, hlookup, Dict.get?_set]
    split
    · rfl
    · exact h.records key' name
  cur cur := by simp [Records.add, lastOpen_append]
  isOpen _ := ⟨key, rfl⟩

lemma Holds.addParam {R : Records} (h : Holds s R) {cur : List ℤ} (hcur : s.cur = some cur)
    (name : Text) (value : ℤ) :
    Holds ⟨s.records.set cur (((s.records.get? cur).getD Dict.empty).set name value), some cur⟩
      (R.add (.param name value)) := by
  obtain ⟨hopen, before, ps, hdone⟩ := (h.cur cur).mp hcur
  rw [Records.add_param hopen hdone]
  have hlookup : ∀ (ps : List (Text × ℤ)) (key : List ℤ), (before ++ [(cur, ps)]).reverse.lookup key =
      if key = cur then some ps else before.reverse.lookup key := by
    intro _ key
    rw [reverse_append, reverse_singleton, singleton_append, Dict.lookup_cons_eq]
  refine ⟨fun key name' => ?_, fun cur' => ?_, fun _ => ⟨cur, rfl⟩⟩
  · simp only [hlookup, Dict.get?_set]
    have hrecord := h.records key name'
    rw [hdone, hlookup] at hrecord
    by_cases hkey : key = cur
    · subst hkey
      rw [if_pos rfl, map_some] at hrecord
      obtain ⟨_, hget, hvalue⟩ := Option.map_eq_some_iff.mp hrecord
      simp [hget, map_some, getD_some, Dict.get?_set, hvalue, reverse_append,
        Dict.lookup_cons_eq]
    · rw [if_neg hkey] at hrecord
      rw [if_neg hkey, if_neg hkey]
      exact hrecord
  · simp [lastOpen_append]

lemma Holds.line {R : Records} (h : Holds s R) (I : IntSyntax) (raw : Text) :
    Holds (Reader.line I s raw) (((pyLine I raw).map R.add).getD R) := by
  rw [Reader.line_eq]
  rcases pyLine I raw with _ | (key | key) | ⟨name, value⟩
  · exact h
  · exact ⟨h.records, fun cur => by simp [Records.add], fun hopen => by simp [Records.add] at hopen⟩
  · exact h.addKey key
  · cases hcur : s.cur with
    | none =>
      have hclosed : R.isOpen = false := by
        rw [Bool.eq_false_iff]
        intro hopen
        obtain ⟨cur, hsome⟩ := h.isOpen hopen
        rw [hcur] at hsome
        cases hsome
      have hsame : R.add (.param name value) = R := by simp [Records.add, hclosed]
      simp only [map_some, getD_some, hsame]
      exact h
    | some cur => exact h.addParam hcur name value

lemma pyFind_eq (I : IntSyntax) (text : Text) (key : List ℤ) (name : Text) : pyFind I text key name =
      ((records (pyLines I text)).reverse.lookup key).map fun ps => ps.reverse.lookup name := by
  have hrun : ∀ (lines : List Text) (s : Reader) (R : Records), Holds s R →
      Holds (lines.foldl (Reader.line I) s) ((lines.filterMap (pyLine I)).foldl Records.add R) := by
    intro lines
    induction lines with
    | nil => exact fun s R h => h
    | cons raw lines ih =>
      intro s R h
      have hline := h.line I raw
      rw [foldl_cons, filterMap_cons]
      cases hread : pyLine I raw with
      | none =>
        rw [hread] at hline
        exact ih _ _ hline
      | some line =>
        rw [hread] at hline
        exact ih _ _ hline
  have hstart : Holds ⟨Dict.empty, none⟩ ⟨[], false⟩ :=
    ⟨fun _ _ => rfl, fun cur => by simp, fun hopen => absurd hopen (by decide)⟩
  exact (hrun _ _ _ hstart).records key name

def asRecord (e : Entry) : Record := (e.key.map Subtype.val, e.params.map fun param => (param.1, param.2.1))

/-- What C++ holds: the records as entries. -/
structure Mirrors (p : Parser) (R : Records) : Prop where
  entries : p.entries.map asRecord = R.done
  cur : p.cur = if R.isOpen then some (R.done.length - 1) else none

lemma map_modify {α β : Type} {g : α → β} {f : α → α} {f' : β → β} (h : ∀ a, g (f a) = f' (g a)) (l : List α) (i : ℕ) :
    (l.modify i f).map g = (l.map g).modify i f' := by
  induction l generalizing i with
  | nil => simp
  | cons a l ih =>
    cases i with
    | zero => simp [h]
    | succ i => simp [ih]

lemma Mirrors.addKey {R : Records} (h : Mirrors p R) (key : List LongLong) :
    Mirrors ⟨p.entries ++ [⟨key, []⟩], some p.entries.length⟩ (R.add (.key (some (key.map Subtype.val)))) where
  entries := by
    rw [map_append, h.entries]
    rfl
  cur := by simp [Records.add, ← h.entries]

lemma Mirrors.addParam {R : Records} (h : Mirrors p R) {cur : ℕ} (hcur : p.cur = some cur) (name : Text)
    (value : LongLong) :
    Mirrors ⟨p.entries.modify cur (Entry.addParam name value), some cur⟩ (R.add (.param name value.1)) := by
  have hlast := h.cur
  rw [hcur] at hlast
  split at hlast
  · rename_i hopen
    obtain rfl := Option.some.inj hlast
    simp only [Records.add, hopen, if_true]
    refine ⟨?_, by simp⟩
    rw [← h.entries]
    exact map_modify (fun e => by simp [asRecord, Entry.addParam]) _ _
  · cases hlast

lemma Mirrors.line {R : Records} (h : Mirrors p R) (raw : Text) :
    Mirrors (p.line raw) (((cppLine raw).map R.add).getD R) := by
  unfold Parser.line cppLine
  by_cases hblank : stripLine raw = []
  · rw [if_pos hblank, if_pos hblank]
    exact h
  rw [if_neg hblank, if_neg hblank]
  by_cases hkey : keyMark.isPrefixOf (stripLine raw) = true
  · rw [if_pos hkey, if_pos hkey]
    cases Core.Tuning.parseKeyList _ with
    | none => exact ⟨h.entries, by simp [Records.add]⟩
    | some key => exact h.addKey key
  rw [if_neg hkey, if_neg hkey]
  cases (stripLine raw).dropWhile _ with
  | nil => exact h
  | cons c text =>
    cases hcur : p.cur with
    | none =>
      -- a closed record takes no parameter on either side
      have hclosed : R.isOpen = false := by
        have hlast := h.cur
        rw [hcur] at hlast
        split at hlast
        · cases hlast
        · rename_i hopen
          exact Bool.eq_false_iff.mpr hopen
      have hsame : ∀ name value, R.add (.param name value) = R := fun name value => by simp [Records.add, hclosed]
      dsimp only
      rcases stoll text with _ | ⟨value, used⟩
      · exact h
      · dsimp only
        by_cases hused : used = text.length
        · rw [if_pos hused, map_some, getD_some, hsame]
          exact h
        · rw [if_neg hused]
          exact h
    | some cur =>
      dsimp only
      rcases stoll text with _ | ⟨_, used⟩
      · exact h
      · dsimp only
        by_cases hused : used = text.length
        · rw [if_pos hused, if_pos hused]
          exact h.addParam hcur _ _
        · rw [if_neg hused, if_neg hused]
          exact h

lemma find?_map_lookup {κ ν : Type} [BEq κ] [LawfulBEq κ] [DecidableEq κ] (items : List (κ × ν)) (k : κ) :
    (items.find? fun item => item.1 = k).map Prod.snd = items.lookup k := by
  induction items with
  | nil => rfl
  | cons item items ih =>
    obtain ⟨k', v⟩ := item
    rw [Dict.lookup_cons_eq, ← ih]
    by_cases hk : k' = k
    · simp [hk]
    · simp [hk, Ne.symm hk]

lemma cppFind_eq (text : Text) (key : List ℤ) (name : Text) :
    cppFind text key name = ((records (cppLines text)).lookup key).map fun ps => ps.lookup name := by
  have hrun : ∀ (lines : List Text) (p : Parser) (R : Records), Mirrors p R →
      Mirrors (lines.foldl Parser.line p) ((lines.filterMap cppLine).foldl Records.add R) := by
    intro lines
    induction lines with
    | nil => exact fun p R h => h
    | cons raw lines ih =>
      intro p R h
      have hline := h.line raw
      rw [foldl_cons, filterMap_cons]
      cases hread : cppLine raw with
      | none =>
        rw [hread] at hline
        exact ih _ _ hline
      | some line =>
        rw [hread] at hline
        exact ih _ _ hline
  have hmirrors := hrun (getlines '\n' text) ⟨[], none⟩ ⟨[], false⟩ ⟨rfl, rfl⟩
  have hentries : (parseBody text).map asRecord = records (cppLines text) := hmirrors.entries
  rw [← hentries, ← find?_map_lookup, find?_map, Option.map_map, Option.map_map]
  unfold cppFind
  congr 1
  funext e
  simp [Function.comp_def, asRecord, ← find?_map_lookup, find?_map, Option.map_map]

end

/-! ## The two readers together -/

lemma lookup_reverse {κ ν : Type} [BEq κ] [LawfulBEq κ] [DecidableEq κ] {items : List (κ × ν)}
    (h : (items.map Prod.fst).Nodup) (k : κ) : items.reverse.lookup k = items.lookup k := by
  induction items with
  | nil => rfl
  | cons item items ih =>
    obtain ⟨k', v⟩ := item
    rw [map_cons, nodup_cons] at h
    rw [reverse_cons, lookup_append, ih h.2, Dict.lookup_cons_eq, Dict.lookup_cons_eq]
    by_cases hk : k = k'
    · subst hk
      have hnone : items.lookup k = none := by
        rw [lookup_eq_none_iff]
        intro item hitem
        rw [bne_iff_ne]
        intro heq
        exact h.1 (mem_map.mpr ⟨item, hitem, heq.symm⟩)
      simp [hnone]
    · simp [hk]

lemma unambiguous_of_nodup {R : List Record} (hkeys : (R.map Prod.fst).Nodup)
    (hnames : ∀ r ∈ R, (r.2.map Prod.fst).Nodup) : Unambiguous R := by
  intro key first _ hfirst hlast _
  rw [lookup_reverse hkeys, hfirst] at hlast
  obtain rfl := Option.some.inj hlast
  obtain ⟨_, _, hR, -⟩ := lookup_eq_some_iff.mp hfirst
  rw [lookup_reverse (hnames (key, first) (by simp [hR]))]

/-- A comma at the end of a key, and a tab at the end of a line. -/
example : pyFind ascii "key=1,2,\na=3\n".toList [1, 2] "a".toList = none ∧
    cppFind "key=1,2,\na=3\n".toList [1, 2] "a".toList = some (some 3) := by decide +kernel

example : pyFind ascii "key=1\na=3\t\n".toList [1] "a".toList = some (some 3) ∧
    cppFind "key=1\na=3\t\n".toList [1] "a".toList = some none := by decide +kernel

end VKernels.Tuner
