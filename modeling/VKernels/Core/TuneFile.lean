import VKernels.Lib.TextLines

/-!
# Files of the native tuning store

The text format of `core/tuning.cpp`, over byte strings as lists of characters.

* `Entry` — a record: its key and its parameters; `parseBody` — the records of a file.
* `renderBody` — a file with given records; `fileArch` — the device arch a file carries.
* `Readable` — a record that the format can carry.

## Results

* `readable_of_parse` — what is read from a file is readable.
* `parseBody_renderBody` — readable records are read back as they were written.
* `fileArch_renderBody` — so is the arch.
-/

namespace VKernels.Core.Tuning

open TextLines
open List

structure Entry where
  key : List LongLong
  params : List (Text × LongLong)
  deriving DecidableEq

def header : Text := "# vk-native-tuning/2".toList

def keyMark : Text := "key=".toList

def archMark : Text := "arch=".toList

/-! ## Reading -/

def parseCell (cell : Text) : Option LongLong :=
  match stoll cell with
  | some (value, used) => if used = cell.length then some value else none
  | none => none

def parseKeyList (text : Text) : Option (List LongLong) :=
  match (getlines ',' text).mapM parseCell with
  | some out => if out = [] then none else some out
  | none => none

/-- The records so far, and the index of the one that receives parameters. -/
structure Parser where
  entries : List Entry
  cur : Option ℕ

/-- `entries[cur].params.emplace_back(name, value)`. -/
def Entry.addParam (name : Text) (value : LongLong) (e : Entry) : Entry :=
  { e with params := e.params ++ [(name, value)] }

/-- What a line is without its comment and the blanks before that. -/
def stripLine (line : Text) : Text := (line.takeWhile (· ≠ '#')).rdropWhile fun c => c = ' ' ∨ c = '\r'

/-- One line of `parse_body`. -/
def Parser.line (p : Parser) (line : Text) : Parser :=
  let line := stripLine line
  if line = [] then p
  else if keyMark.isPrefixOf line then
    match parseKeyList (line.drop 4) with
    | some key => ⟨p.entries ++ [⟨key, []⟩], some p.entries.length⟩
    | none => ⟨p.entries, none⟩
  else
    match line.dropWhile (· ≠ '='), p.cur with
    | _ :: text, some cur =>
      match stoll text with
      | some (value, used) =>
        if used = text.length then
          ⟨p.entries.modify cur (Entry.addParam (line.takeWhile (· ≠ '=')) value), some cur⟩
        else p
      | none => p
    | _, _ => p

def parseBody (text : Text) : List Entry := ((getlines '\n' text).foldl Parser.line ⟨[], none⟩).entries

/-- `text.substr(text.find(mark) + mark.size())`. -/
def afterMark (mark : Text) : Text → Option Text
  | [] => none
  | c :: text => if mark.isPrefixOf (c :: text) then some ((c :: text).drop mark.length) else afterMark mark text

/-- The arch of the comment lines at the start. -/
def headerArch : List Text → Option Text
  | [] => none
  | line :: lines =>
    match line.dropWhile (· ≠ '#') with
    | [] => none
    | comment =>
      match afterMark archMark comment with
      | some arch => some (arch.takeWhile fun c => c ≠ ' ' ∧ c ≠ '\t')
      | none => headerArch lines

def suffix : Text := ".tune".toList

/-- `name.rfind(mark)`. -/
def rfind (mark name : Text) : Option ℕ :=
  ((List.range (name.length + 1)).filter fun i => mark.isPrefixOf (name.drop i)).getLast?

def nameArch (name : Text) : Text :=
  match name.idxOf? '.', rfind suffix name with
  | some firstDot, some last =>
    if firstDot > last then []
    -- `suffix - first_dot - 1` is then the largest `size_t`
    else if firstDot = last then name.drop (firstDot + 1)
    else (name.drop (firstDot + 1)).take (last - firstDot - 1)
  | _, _ => []

def fileArch (name body : Text) : Text := (headerArch (getlines '\n' body)).getD (nameArch name)

/-! ## Writing -/

def renderKey (key : List LongLong) : Text := keyMark ++ [','].intercalate (key.map fun k : LongLong => showInt k.1)

def renderParam (param : Text × LongLong) : Text := param.1 ++ '=' :: showInt param.2.1

/-- The lines of a record. -/
def renderEntry (e : Entry) : List Text := renderKey e.key :: e.params.map renderParam

def archLine (arch : Text) (cuCount : ℤ) (writtenBy : Text) : Text :=
  "# ".toList ++ archMark ++ arch ++ (if cuCount > 0 then " cu_count=".toList ++ showInt cuCount else []) ++
    (if writtenBy ≠ [] then " written_by=".toList ++ writtenBy else [])

def renderLines (arch : Text) (cuCount : ℤ) (writtenBy : Text) (entries : List Entry) : List Text :=
  header :: archLine arch cuCount writtenBy :: entries.flatMap renderEntry

def renderBody (arch : Text) (cuCount : ℤ) (writtenBy : Text) (entries : List Entry) : Text :=
  (renderLines arch cuCount writtenBy entries).flatMap fun line => line ++ ['\n']

/-! ## What the format can carry -/

/-- A parameter name that a line can carry. -/
structure GoodName (name : Text) : Prop where
  comment : '#' ∉ name
  equals : '=' ∉ name
  newline : '\n' ∉ name
  notKey : name ≠ "key".toList

structure Readable (e : Entry) : Prop where
  key : e.key ≠ []
  names : ∀ param ∈ e.params, GoodName param.1

/-- `arch` and `written_by` keep to their line, and `arch` is one word. -/
structure GoodArch (arch : Text) : Prop where
  nonempty : arch ≠ []
  newline : '\n' ∉ arch
  space : ' ' ∉ arch
  tab : '\t' ∉ arch

/-! ## Lines of a record -/

section

variable {line : Text}

lemma takeWhile_ne (hcomment : '#' ∉ line) : line.takeWhile (· ≠ '#') = line := by
  rw [takeWhile_eq_self_iff]
  intro c hc
  exact decide_eq_true fun heq => hcomment (heq ▸ hc)

lemma stripLine_eq (hcomment : '#' ∉ line) (hend : ∀ h : line ≠ [], line.getLast h ≠ ' ' ∧ line.getLast h ≠ '\r') :
    stripLine line = line := by
  unfold stripLine
  rw [takeWhile_ne hcomment, rdropWhile_eq_self_iff]
  intro h
  simpa using hend h

lemma stripLine_comment (line : Text) : stripLine ('#' :: line) = [] := by
  simp [stripLine]

variable {c : Char} {param : Text × LongLong} {writtenBy : Text} {cuCount : ℤ}

lemma mem_keyText {α : Type} {key : List α} {f : α → ℤ}
    (h : c ∈ keyMark ++ [','].intercalate (key.map fun k => showInt (f k))) : c ∈ keyMark ∨ c = ',' ∨ c.isDigit = true ∨ c = '-' := by
  rcases mem_append.mp h with h | h
  · exact .inl h
  · rcases mem_intercalate h with h | ⟨_, hcell, h⟩
    · exact .inr (.inl h)
    · obtain ⟨k, -, rfl⟩ := mem_map.mp hcell
      exact .inr (.inr (mem_showInt h))

lemma notMem_renderKey {key : List LongLong} (hmark : c ∉ keyMark) (hcomma : c ≠ ',')
    (hdigit : c.isDigit = false) (hminus : c ≠ '-') : c ∉ renderKey key := by
  intro h
  rcases mem_keyText h with h | h | h | h
  · exact hmark h
  · exact hcomma h
  · rw [hdigit] at h
    cases h
  · exact hminus h

lemma stripLine_renderKey (key : List LongLong) : stripLine (renderKey key) = renderKey key := by
  apply stripLine_eq
  · apply notMem_renderKey <;> decide
  · intro h
    have hlast := getLast_mem h
    constructor
    · intro heq
      rw [heq] at hlast
      exact absurd hlast (notMem_renderKey (by decide) (by decide) (by decide) (by decide))
    · intro heq
      rw [heq] at hlast
      exact absurd hlast (notMem_renderKey (by decide) (by decide) (by decide) (by decide))

lemma parseCell_showInt (k : LongLong) : parseCell (showInt k.1) = some k := by
  simp [parseCell, stoll_showInt]

lemma parseKeyList_render {key : List LongLong} (h : key ≠ []) : parseKeyList ((renderKey key).drop 4) = some key := by
  have hdrop : (renderKey key).drop 4 = [','].intercalate (key.map fun k : LongLong => showInt k.1) := rfl
  have hcells : getlines ',' ([','].intercalate (key.map fun k : LongLong => showInt k.1)) =
      key.map fun k : LongLong => showInt k.1 := by
    apply getlines_intercalate
    intro _ hcell
    obtain ⟨k, -, rfl⟩ := mem_map.mp hcell
    exact ⟨notMem_showInt (by decide) (by decide), showInt_ne_nil k⟩
  have hmap : (key.map fun k : LongLong => showInt k.1).mapM parseCell = some key := by
    clear h hdrop hcells
    induction key with
    | nil => rfl
    | cons k key ih =>
      rw [map_cons, mapM_cons, parseCell_showInt, ih]
      rfl
  simp only [parseKeyList, hdrop, hcells, hmap, if_neg h]

lemma line_renderKey {key : List LongLong} (h : key ≠ []) (p : Parser) :
    p.line (renderKey key) = ⟨p.entries ++ [⟨key, []⟩], some p.entries.length⟩ := by
  have hprefix : keyMark.isPrefixOf (renderKey key) = true := by
    rw [ isPrefixOf_iff_prefix]
    exact prefix_append _ _
  have hne : renderKey key ≠ [] := by simp [renderKey, keyMark]
  simp [Parser.line, stripLine_renderKey, if_neg hne, hprefix, parseKeyList_render h]

lemma stripLine_renderParam (h : '#' ∉ param.1) : stripLine (renderParam param) = renderParam param := by
  have hshow : ∀ c ∈ '=' :: showInt param.2.1, c ≠ '#' ∧ c ≠ ' ' ∧ c ≠ '\r' := by
    intro c hc
    rcases mem_cons.mp hc with rfl | hc
    · decide
    · exact ⟨fun heq => notMem_showInt (by decide) (by decide) (heq ▸ hc),
        fun heq => notMem_showInt (by decide) (by decide) (heq ▸ hc),
        fun heq => notMem_showInt (by decide) (by decide) (heq ▸ hc)⟩
  unfold renderParam
  apply stripLine_eq
  · rw [mem_append, not_or]
    exact ⟨h, fun hmem => (hshow _ hmem).1 rfl⟩
  · intro hne
    rw [getLast_append_of_ne_nil _ (cons_ne_nil _ _)]
    exact (hshow _ (getLast_mem _)).2

lemma isPrefixOf_keyMark {name text : Text} (h : '=' ∉ name) :
    keyMark.isPrefixOf (name ++ '=' :: text) = true ↔ name = "key".toList := by
  rw [ isPrefixOf_iff_prefix]
  constructor
  · rintro ⟨rest, hrest⟩
    have hname := (span_append text h).1
    have hkey : (keyMark ++ rest).takeWhile (· ≠ '=') = "key".toList := rfl
    rw [← hname, ← hrest, hkey]
  · rintro rfl
    exact ⟨text, rfl⟩

/-- **A parameter line** adds to the record. -/
theorem line_renderParam (h : GoodName param.1) (es : List Entry) (e : Entry) :
    Parser.line ⟨es ++ [e], some es.length⟩ (renderParam param) =
      ⟨es ++ [e.addParam param.1 param.2], some es.length⟩ := by
  have hprefix : ¬ keyMark.isPrefixOf (renderParam param) = true := fun hkey =>
    h.notKey ((isPrefixOf_keyMark h.equals).mp hkey)
  have hne : renderParam param ≠ [] := by simp [renderParam]
  obtain ⟨hname, hvalue⟩ := span_append _ h.equals
  have hname : (renderParam param).takeWhile (· ≠ '=') = param.1 := hname
  have hvalue : (renderParam param).dropWhile (· ≠ '=') = '=' :: showInt param.2.1 := hvalue
  simp only [Parser.line, stripLine_renderParam h.comment, if_neg hne, if_neg hprefix, hname, hvalue, stoll_showInt,
    if_true]
  congr 1
  rw [modify_eq_set_getElem?]
  simp

lemma foldl_params {params : List (Text × LongLong)} (h : ∀ param ∈ params, GoodName param.1) (es : List Entry)
    (e : Entry) : (params.map renderParam).foldl Parser.line ⟨es ++ [e], some es.length⟩ =
      ⟨es ++ [{ e with params := e.params ++ params }], some es.length⟩ := by
  induction params generalizing e with
  | nil => simp
  | cons param params ih =>
    rw [map_cons, foldl_cons, line_renderParam (h param mem_cons_self),
      ih fun param hparam => h param (mem_cons_of_mem _ hparam)]
    simp [Entry.addParam]

/-- **A record** is read back behind the records before it. -/
theorem foldl_renderEntry {e : Entry} (h : Readable e) (p : Parser) :
    (renderEntry e).foldl Parser.line p = ⟨p.entries ++ [e], some p.entries.length⟩ := by
  unfold renderEntry
  rw [foldl_cons, line_renderKey h.key, foldl_params h.names]
  simp

lemma foldl_renderEntries {entries : List Entry} (h : ∀ e ∈ entries, Readable e) (p : Parser) :
    ((entries.flatMap renderEntry).foldl Parser.line p).entries = p.entries ++ entries := by
  induction entries generalizing p with
  | nil => simp
  | cons e entries ih =>
    rw [flatMap_cons, foldl_append, foldl_renderEntry (h e mem_cons_self), ih fun e he => h e (mem_cons_of_mem _ he)]
    simp

lemma line_comment (p : Parser) (line : Text) : p.line ('#' :: line) = p := by
  simp [Parser.line, stripLine_comment]

lemma newline_notMem {arch : Text} {entries : List Entry} (harch : '\n' ∉ arch)
    (hby : '\n' ∉ writtenBy) (h : ∀ e ∈ entries, Readable e) :
    ∀ line ∈ renderLines arch cuCount writtenBy entries, '\n' ∉ line := by
  have hshow : ∀ v : ℤ, '\n' ∉ showInt v := fun v => notMem_showInt (by decide) (by decide)
  intro _ hline
  simp only [renderLines, mem_cons, mem_flatMap] at hline
  rcases hline with rfl | rfl | ⟨e, he, hline⟩
  · decide
  · have hstart : '\n' ∉ "# ".toList ++ archMark := by decide
    unfold archLine
    simp only [mem_append, not_or] at hstart ⊢
    refine ⟨⟨⟨hstart, harch⟩, ?_⟩, ?_⟩
    · split
      · simp [hshow]
      · exact not_mem_nil
    · split
      · simp [hby]
      · exact not_mem_nil
  · rcases mem_cons.mp hline with rfl | hline
    · exact notMem_renderKey (by decide) (by decide) (by decide) (by decide)
    · obtain ⟨param, hparam, rfl⟩ := mem_map.mp hline
      simp [renderParam, ((h e he).names param hparam).newline, hshow]

lemma parseBody_renderBody {arch : Text} {entries : List Entry} (harch : '\n' ∉ arch)
    (hby : '\n' ∉ writtenBy) (h : ∀ e ∈ entries, Readable e) :
    parseBody (renderBody arch cuCount writtenBy entries) = entries := by
  have hheader : header = '#' :: header.tail := rfl
  have harchLine : archLine arch cuCount writtenBy = '#' :: (archLine arch cuCount writtenBy).tail := rfl
  unfold parseBody renderBody
  rw [getlines_flatMap (newline_notMem harch hby h)]
  unfold renderLines
  rw [foldl_cons, hheader, line_comment, foldl_cons, harchLine, line_comment, foldl_renderEntries h]
  rfl

/-! ## What is read is readable -/

lemma readable_of_parseKeyList {text : Text} {key : List LongLong} (h : parseKeyList text = some key) :
    Readable ⟨key, []⟩ := by
  unfold parseKeyList at h
  split at h
  · split at h
    · cases h
    · rename_i hne
      cases h
      exact ⟨hne, fun param hparam => absurd hparam not_mem_nil⟩
  · cases h

lemma mem_stripLine (h : c ∈ stripLine line) : c ∈ line ∧ c ≠ '#' := by
  have hmem : c ∈ line.takeWhile (· ≠ '#') := ( rdropWhile_prefix _ _).subset h
  have hne := mem_takeWhile_imp hmem
  exact ⟨( takeWhile_prefix _).subset hmem, by simpa using hne⟩

lemma goodName_of_line (hnewline : '\n' ∉ line) (hkey : ¬ keyMark.isPrefixOf (stripLine line) = true)
    {text : Text} (heq : (stripLine line).dropWhile (· ≠ '=') = c :: text) :
    GoodName ((stripLine line).takeWhile (· ≠ '=')) := by
  have hmem : ∀ d ∈ (stripLine line).takeWhile (· ≠ '='), d ∈ line ∧ d ≠ '#' := fun d hd =>
    mem_stripLine (( takeWhile_prefix _).subset hd)
  have hequals : '=' ∉ (stripLine line).takeWhile (· ≠ '=') := by
    intro h
    have hne := mem_takeWhile_imp h
    simp at hne
  have hc : c = '=' := by
    have hhead := head?_dropWhile_not (fun d => decide (d ≠ '=')) (stripLine line)
    rw [heq] at hhead
    simpa using hhead
  refine ⟨fun h => (hmem _ h).2 rfl, hequals, fun h => hnewline (hmem _ h).1, fun h => hkey ?_⟩
  have hline : (stripLine line).takeWhile (· ≠ '=') ++ (stripLine line).dropWhile (· ≠ '=') = stripLine line :=
    takeWhile_append_dropWhile
  rw [← hline, heq, hc, isPrefixOf_keyMark hequals]
  exact h

lemma readable_line {p : Parser} (h : ∀ e ∈ p.entries, Readable e) (hnewline : '\n' ∉ line) :
    ∀ e ∈ (p.line line).entries, Readable e := by
  simp only [Parser.line]
  split
  · exact h
  · split
    · split
      · rename_i _ hkey
        intro e he
        rcases mem_append.mp he with he | he
        · exact h e he
        · rw [mem_singleton.mp he]
          exact readable_of_parseKeyList hkey
      · exact h
    · rename_i hkey
      split
      · rename_i c _ _ heq hcur
        split
        · split
          · intro e he
            obtain ⟨i, hi⟩ := mem_iff_getElem?.mp he
            rw [getElem?_modify] at hi
            obtain ⟨e', he', rfl⟩ := Option.map_eq_some_iff.mp hi
            have hread := h e' (mem_of_getElem? he')
            split
            · refine ⟨hread.key, fun param hparam => ?_⟩
              rcases mem_append.mp hparam with hparam | hparam
              · exact hread.names param hparam
              · rw [mem_singleton.mp hparam]
                exact goodName_of_line hnewline hkey heq
            · exact hread
          · exact h
        · exact h
      · exact h

lemma readable_of_parse (text : Text) : ∀ e ∈ parseBody text, Readable e := by
  have hfold : ∀ (lines : List Text) (p : Parser), (∀ line ∈ lines, '\n' ∉ line) → (∀ e ∈ p.entries, Readable e) →
      ∀ e ∈ (lines.foldl Parser.line p).entries, Readable e := by
    intro lines
    induction lines with
    | nil => exact fun p _ h => h
    | cons line lines ih =>
      intro p hlines h
      exact ih _ (fun line hline => hlines line (mem_cons_of_mem _ hline)) (readable_line h (hlines line mem_cons_self))
  exact hfold _ _ (fun line hline => notMem_getlines hline) fun e he => absurd he not_mem_nil

/-! ## The arch -/

lemma fileArch_renderBody {arch : Text} {entries : List Entry} (harch : GoodArch arch)
    (hby : '\n' ∉ writtenBy) (h : ∀ e ∈ entries, Readable e) (name : Text) :
    fileArch name (renderBody arch cuCount writtenBy entries) = arch := by
  have hword : ∀ tail : Text, (∀ c rest, tail = c :: rest → c = ' ') →
      (arch ++ tail).takeWhile (fun c => c ≠ ' ' ∧ c ≠ '\t') = arch := by
    intro tail htail
    have hall : ∀ c ∈ arch, decide (c ≠ ' ' ∧ c ≠ '\t') = true := by
      intro c hc
      exact decide_eq_true ⟨fun heq => harch.space (heq ▸ hc), fun heq => harch.tab (heq ▸ hc)⟩
    rw [takeWhile_append_of_pos hall]
    rcases tail with _ | ⟨c, rest⟩
    · simp
    · rw [htail c rest rfl]
      simp
  unfold fileArch renderBody
  rw [getlines_flatMap (newline_notMem harch.newline hby h)]
  have hmark : ∃ tail : Text, (∀ c rest, tail = c :: rest → c = ' ') ∧
      archLine arch cuCount writtenBy = "# ".toList ++ archMark ++ (arch ++ tail) := by
    refine ⟨(if cuCount > 0 then " cu_count=".toList ++ showInt cuCount else []) ++
      (if writtenBy ≠ [] then " written_by=".toList ++ writtenBy else []), fun c rest htail => ?_, ?_⟩
    · have hcu : " cu_count=".toList = ' ' :: "cu_count=".toList := rfl
      have hmark : " written_by=".toList = ' ' :: "written_by=".toList := rfl
      split at htail
      · exact (cons.inj htail).1.symm
      · split at htail
        · exact (cons.inj htail).1.symm
        · cases htail
    · unfold archLine
      simp only [append_assoc]
  obtain ⟨tail, htail, hline⟩ := hmark
  have hheader : ∀ lines, headerArch (header :: lines) = headerArch lines := fun lines => rfl
  have harchLine : ∀ lines, headerArch (("# ".toList ++ archMark ++ (arch ++ tail)) :: lines) =
      some ((arch ++ tail).takeWhile fun c => c ≠ ' ' ∧ c ≠ '\t') := fun lines => rfl
  unfold renderLines
  rw [hheader, hline, harchLine, hword tail htail]
  rfl

end

end VKernels.Core.Tuning
