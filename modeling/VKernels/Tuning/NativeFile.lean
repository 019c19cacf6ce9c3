import VKernels.Tuning.TuneBody

/-!
# The files that Python writes

`parse_tune_arch` and the text of `NativeStore.upsert` of `torch_ops/tuner.py`.

* `Writable` — records that the format can carry.

## Results

* `parseTuneBody_render` — writable records are read back, under a header that says nothing.
* `parseTuneArch_render` — so is the arch, where it is one word.
-/

namespace VKernels.Tuner

open TextLines hiding isSpace
open PyDict PyText VKernels.Core.Tuning
open List

abbrev RecordMap := Dict (List ℤ) (Dict Text ℤ)

/-! ## Writing and reading -/

/-- A number that `str` writes. -/
def Printable (I : IntSyntax) (v : ℤ) : Prop := I.maxDigits = 0 ∨ (Nat.toDigits 10 v.natAbs).length ≤ I.maxDigits

instance (I : IntSyntax) (v : ℤ) : Decidable (Printable I v) :=
  inferInstanceAs (Decidable (I.maxDigits = 0 ∨ (Nat.toDigits 10 v.natAbs).length ≤ I.maxDigits))

/-- `"key=" + ",".join(str(v) for v in key_tuple)`. -/
def keyLine (key : List ℤ) : Text := keyMark ++ [','].intercalate (key.map showInt)

/-- `f"{name}={value}"`. -/
def paramLine (param : Text × ℤ) : Text := param.1 ++ '=' :: showInt param.2

def recordLines (record : List ℤ × Dict Text ℤ) : List Text := keyLine record.1 :: record.2.items.map paramLine

/-- `f"# {NATIVE_SCHEMA}\n"`. -/
def schemaLine : Text := header ++ ['\n']

def fileHeader (arch : Text) (cuCount : ℤ) (writtenBy : Text) : Text :=
  schemaLine ++ "# arch=".toList ++ arch ++ (if cuCount > 0 then " cu_count=".toList ++ showInt cuCount else []) ++
    " written_by=".toList ++ writtenBy ++ ['\n']

/-- `"\n".join(body) + "\n"`. -/
def render (arch : Text) (cuCount : ℤ) (writtenBy : Text) (records : RecordMap) : Text :=
  ['\n'].intercalate (fileHeader arch cuCount writtenBy :: records.items.flatMap recordLines) ++ ['\n']

/-- The arch of the comment lines at the start; `some none` where there is no word to take. -/
def commentArch : List Text → Option (Option Text)
  | [] => none
  | raw :: lines =>
    match raw.dropWhile (· ≠ '#') with
    | [] => none
    | comment =>
      match afterMark archMark comment with
      | some rest => some (firstWord rest)
      | none => commentArch lines

def stemArch (filename : Text) : Text :=
  let stem := if suffix.isSuffixOf filename then filename.take (filename.length - 5) else filename
  (stem.dropWhile (· ≠ '.')).drop 1

/-- `parse_tune_arch`; `none` where it raises. -/
def parseTuneArch (text filename : Text) : Option Text :=
  (commentArch (splitlines text)).getD (some (stemArch filename))

/-! ## What the format can carry -/

/-- A parameter name that a line can carry. -/
structure ParamName (name : Text) : Prop where
  nonempty : name ≠ []
  comment : '#' ∉ name
  equals : '=' ∉ name
  oneLine : ∀ c ∈ name, isLineBreak c = false
  notKey : name ≠ "key".toList

/-- A record that the format can carry. -/
structure WritableRecord (I : IntSyntax) (key : List ℤ) (params : Dict Text ℤ) : Prop where
  nonempty : key ≠ []
  cells : ∀ v ∈ key, Printable I v
  names : ∀ param ∈ params.items, ParamName param.1
  values : ∀ param ∈ params.items, Printable I param.2

def Writable (I : IntSyntax) (records : RecordMap) : Prop := ∀ item ∈ records.items, WritableRecord I item.1 item.2

/-! ## Lines of a record -/

section

variable {I : IntSyntax} {line : Text}

variable {c : Char}

lemma isLineBreak_showInt {v : ℤ} (h : c ∈ showInt v) : isLineBreak c = false :=
  isLineBreak_of_not_isSpace (IntSyntax.isSpace_of_digit (mem_showInt h))

lemma stripRaw_eq (hcomment : '#' ∉ line) (hend : ∀ h : line ≠ [], isSpace (line.getLast h) = false) :
    stripRaw line = line := by
  unfold stripRaw
  rw [takeWhile_ne hcomment, rdropWhile_eq_self_iff]
  intro h
  have hspace := hend h
  rw [decide_eq_true_eq]
  rintro (heq | heq | heq) <;> rw [heq] at hspace <;> exact absurd hspace (by decide)

lemma isSpace_keyLine {key : List ℤ} (h : c ∈ keyLine key) : isSpace c = false := by
  rcases mem_keyText h with h | rfl | h
  · exact forall_of_all (p := isSpace) (by decide) c h
  · decide
  · exact IntSyntax.isSpace_of_digit h

lemma pyLine_keyLine {key : List ℤ} (hne : key ≠ []) (hcells : ∀ v ∈ key, Printable I v) :
    pyLine I (keyLine key) = some (.key (some key)) := by
  have hcomment : '#' ∉ keyLine key := by
    intro h
    rcases mem_keyText h with h | h | h | h <;> exact absurd h (by decide)
  have hstrip : stripRaw (keyLine key) = keyLine key := stripRaw_eq hcomment fun h => isSpace_keyLine (getLast_mem h)
  have hprefix : keyMark.isPrefixOf (keyLine key) = true := by
    rw [ isPrefixOf_iff_prefix]
    exact prefix_append _ _
  have hline : keyLine key ≠ [] := by simp [keyLine, keyMark]
  have hdrop : (keyLine key).drop 4 = [','].intercalate (key.map showInt) := rfl
  have hsplit : ([','].intercalate (key.map showInt)).splitOn ',' = key.map showInt := by
    apply splitOn_intercalate
    · intro _ hcell
      obtain ⟨v, -, rfl⟩ := mem_map.mp hcell
      exact notMem_showInt (by decide) (by decide)
    · simpa using hne
  have hmap : (key.map showInt).mapM I.toInt = some key := by
    clear hne hcomment hstrip hprefix hline hdrop hsplit
    induction key with
    | nil => rfl
    | cons v key ih =>
      rw [map_cons, mapM_cons, IntSyntax.toInt_showInt (hcells v mem_cons_self),
        ih fun w hw => hcells w (mem_cons_of_mem v hw)]
      rfl
  simp [pyLine, hstrip, if_neg hline, hprefix, hdrop, parseKeyList, hsplit, hmap, if_neg hne]

lemma pyLine_paramLine {param : Text × ℤ} (hname : ParamName param.1) (hvalue : Printable I param.2) :
    pyLine I (paramLine param) = some (.param param.1 param.2) := by
  have hcomment : '#' ∉ paramLine param := by
    rw [paramLine, mem_append, mem_cons, not_or, not_or]
    exact ⟨hname.comment, by decide, notMem_showInt (by decide) (by decide)⟩
  have hstrip : stripRaw (paramLine param) = paramLine param := by
    apply stripRaw_eq hcomment
    unfold paramLine
    intro h
    rw [getLast_append_of_ne_nil _ (cons_ne_nil _ _), getLast_cons (showInt_ne_nil _)]
    exact IntSyntax.isSpace_of_digit (mem_showInt (getLast_mem _))
  have hprefix : ¬ keyMark.isPrefixOf (paramLine param) = true := fun hkey =>
    hname.notKey ((isPrefixOf_keyMark hname.equals).mp hkey)
  have hline : paramLine param ≠ [] := by simp [paramLine]
  obtain ⟨htake, hdrop⟩ := span_append _ hname.equals
  have htake : (paramLine param).takeWhile (· ≠ '=') = param.1 := htake
  have hdrop : (paramLine param).dropWhile (· ≠ '=') = '=' :: showInt param.2 := hdrop
  simp only [pyLine, hstrip, if_neg hline, if_neg hprefix, parseParam, htake, hdrop, if_neg hname.nonempty,
    IntSyntax.toInt_showInt hvalue, Option.map_some]

/-- **A record** is read behind the records before it. -/
theorem foldl_recordLines {key : List ℤ} {params : Dict Text ℤ} (h : WritableRecord I key params) (s : Reader) :
    (recordLines (key, params)).foldl (Reader.line I) s = ⟨s.records.set key params, some key⟩ := by
  have hparams : ∀ (items : List (Text × ℤ)) (d : Dict Text ℤ),
      (∀ param ∈ items, ParamName param.1 ∧ Printable I param.2) →
      (items.map paramLine).foldl (Reader.line I) ⟨s.records.set key d, some key⟩ =
        ⟨s.records.set key (d.setAll items), some key⟩ := by
    intro items
    induction items with
    | nil => exact fun d _ => rfl
    | cons param items ih =>
      intro d hitems
      obtain ⟨hname, hvalue⟩ := hitems param mem_cons_self
      rw [map_cons, foldl_cons, Reader.line_eq, pyLine_paramLine hname hvalue]
      simp only [Dict.get?_set, if_true, Option.getD_some, Dict.set_set]
      exact ih _ fun param hparam => hitems param (mem_cons_of_mem _ hparam)
  unfold recordLines
  rw [foldl_cons, Reader.line_eq, pyLine_keyLine h.nonempty h.cells]
  rw [hparams params.items Dict.empty fun param hparam => ⟨h.names param hparam, h.values param hparam⟩]
  have hall : Dict.empty.setAll params.items = params := Dict.ofPairs_items params
  rw [hall]

lemma foldl_records {items : List (List ℤ × Dict Text ℤ)} (h : ∀ item ∈ items, WritableRecord I item.1 item.2)
    (s : Reader) : ((items.flatMap recordLines).foldl (Reader.line I) s).records = s.records.setAll items := by
  induction items generalizing s with
  | nil => rfl
  | cons item items ih =>
    rw [flatMap_cons, foldl_append, foldl_recordLines (h item mem_cons_self),
      ih fun item hitem => h item (mem_cons_of_mem _ hitem)]
    rfl

lemma oneLine_recordLines {item : List ℤ × Dict Text ℤ} (h : WritableRecord I item.1 item.2) :
    ∀ line ∈ recordLines item, ∀ c ∈ line, isLineBreak c = false := by
  intro _ hline c hc
  rcases mem_cons.mp hline with rfl | hline
  · exact isLineBreak_of_not_isSpace (isSpace_keyLine hc)
  · obtain ⟨param, hparam, rfl⟩ := mem_map.mp hline
    rcases mem_append.mp hc with hc | hc
    · exact (h.names param hparam).oneLine c hc
    · rcases mem_cons.mp hc with rfl | hc
      · decide
      · exact isLineBreak_showInt hc

end

/-! ## Files -/

section

variable {I : IntSyntax} {arch writtenBy : Text} {cuCount : ℤ} {records : RecordMap}

lemma render_eq (arch : Text) (cuCount : ℤ) (writtenBy : Text) (records : RecordMap) :
    render arch cuCount writtenBy records = fileHeader arch cuCount writtenBy ++ '\n' ::
      (records.items.flatMap recordLines).flatMap fun line => line ++ ['\n'] := by
  have hjoin : ∀ (first : Text) (lines : List Text),
      ['\n'].intercalate (first :: lines) ++ ['\n'] = first ++ '\n' :: lines.flatMap fun line => line ++ ['\n'] := by
    intro first lines
    induction lines generalizing first with
    | nil => simp
    | cons line lines ih =>
      rw [intercalate_cons_cons, append_assoc, ih, flatMap_cons]
      simp
  exact hjoin _ _

lemma parseTuneBody_readText (I : IntSyntax) (text : Text) : parseTuneBody I (readText text) = parseTuneBody I text := by
  rw [parseTuneBody, splitlines_readText, parseTuneBody]

lemma parseTuneBody_render (hheader : parseTuneBody I (fileHeader arch cuCount writtenBy) = Dict.empty)
    (h : Writable I records) : parseTuneBody I (readText (render arch cuCount writtenBy records)) = records := by
  have hlines : splitlines ((records.items.flatMap recordLines).flatMap fun line => line ++ ['\n']) =
      records.items.flatMap recordLines := by
    apply splitlines_flatMap
    intro line hline
    obtain ⟨item, hitem, hline⟩ := mem_flatMap.mp hline
    exact oneLine_recordLines (h item hitem) line hline
  rw [parseTuneBody_readText, render_eq, parseTuneBody]
  obtain ⟨_, htext⟩ : ∃ text, fileHeader arch cuCount writtenBy = text ++ ['\n'] := ⟨_, rfl⟩
  rw [htext] at hheader ⊢
  rw [append_assoc, singleton_append, splitlines_append_break, splitlines_break, hlines, foldl_append,
    foldl_cons, Reader.line_eq, foldl_records h]
  rw [parseTuneBody] at hheader
  have hblank : pyLine I [] = none := rfl
  rw [hblank]
  rw [hheader]
  exact Dict.ofPairs_items records

lemma parseTuneBody_fileHeader (harch : ∀ c ∈ arch, isLineBreak c = false)
    (hwritten : ∀ c ∈ writtenBy, isLineBreak c = false) :
    parseTuneBody I (fileHeader arch cuCount writtenBy) = Dict.empty := by
  obtain ⟨count, hcount, hcountBreaks⟩ : ∃ count : Text,
      (if cuCount > 0 then " cu_count=".toList ++ showInt cuCount else []) = count ∧
        ∀ c ∈ count, isLineBreak c = false := by
    refine ⟨_, rfl, ?_⟩
    intro c hc
    split at hc
    · rcases mem_append.mp hc with hc | hc
      · exact forall_of_all (p := isLineBreak) (by decide) c hc
      · exact isLineBreak_showInt hc
    · exact absurd hc not_mem_nil
  have hheader : fileHeader arch cuCount writtenBy = header ++ '\n' ::
      (("# arch=".toList ++ (arch ++ (count ++ (" written_by=".toList ++ writtenBy)))) ++ '\n' :: []) := by
    simp only [fileHeader, schemaLine, hcount, append_assoc]
    rfl
  have hbreaks : ∀ c ∈ "# arch=".toList ++ (arch ++ (count ++ (" written_by=".toList ++ writtenBy))),
      isLineBreak c = false := by
    intro c hc
    simp only [mem_append] at hc
    rcases hc with hc | hc | hc | hc | hc
    · exact forall_of_all (p := isLineBreak) (by decide) c hc
    · exact harch c hc
    · exact hcountBreaks c hc
    · exact forall_of_all (p := isLineBreak) (by decide) c hc
    · exact hwritten c hc
  have hschema : ∀ s : Reader, Reader.line I s header = s := by
    intro s
    rfl
  have hcomment : ∀ (s : Reader) (rest : Text), Reader.line I s ("# arch=".toList ++ rest) = s := by
    intro s _
    rfl
  rw [hheader, parseTuneBody, splitlines_append (forall_of_all (by decide)), splitlines_append hbreaks, foldl_cons, foldl_cons,
    hschema, hcomment]
  rfl

lemma schemaLine_render (arch : Text) (cuCount : ℤ) (writtenBy : Text) (records : RecordMap) :
    schemaLine.isPrefixOf (readText (render arch cuCount writtenBy records)) = true := by
  rw [ isPrefixOf_iff_prefix, render_eq, fileHeader]
  simp only [append_assoc]
  exact prefix_append _ _

lemma parseTuneArch_render (hne : arch ≠ []) (h : ∀ c ∈ arch, isSpace c = false) (filename : Text) :
    parseTuneArch (readText (render arch cuCount writtenBy records)) filename = some arch := by
  have hbreaks : ∀ c ∈ "# arch=".toList ++ arch ++ [' '], isLineBreak c = false := by
    intro c hc
    rcases mem_append.mp hc with hc | hc
    · rcases mem_append.mp hc with hc | hc
      · exact forall_of_all (p := isLineBreak) (by decide) c hc
      · exact isLineBreak_of_not_isSpace (h c hc)
    · rw [mem_singleton.mp hc]
      decide
  obtain ⟨rest, hrest⟩ : ∃ rest, render arch cuCount writtenBy records =
      header ++ '\n' :: ("# arch=".toList ++ arch ++ [' '] ++ rest) := by
    rw [render_eq, fileHeader, schemaLine]
    split
    · exact ⟨"cu_count=".toList ++ showInt cuCount ++ " written_by=".toList ++ writtenBy ++ '\n' :: '\n' ::
        (records.items.flatMap recordLines).flatMap fun line => line ++ ['\n'], by simp⟩
    · exact ⟨"written_by=".toList ++ writtenBy ++ '\n' :: '\n' ::
        (records.items.flatMap recordLines).flatMap fun line => line ++ ['\n'], by simp⟩
  obtain ⟨tail, _, hlines⟩ := splitlines_start (by simp) hbreaks rest
  have hschema : ∀ more : List Text, commentArch (header :: more) = commentArch more := fun more => rfl
  have harch : ∀ more : List Text,
      commentArch (("# arch=".toList ++ arch ++ [' '] ++ tail) :: more) = some (firstWord (arch ++ ' ' :: tail)) := by
    intro _
    rw [append_assoc, append_assoc]
    rfl
  rw [parseTuneArch, splitlines_readText, hrest, splitlines_append (forall_of_all (by decide)), hlines, hschema, harch,
    firstWord_append hne h (by decide)]
  rfl

end

end VKernels.Tuner
