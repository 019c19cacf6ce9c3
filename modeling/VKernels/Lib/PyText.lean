import VKernels.Lib.TextLines

/-!
# Python strings

Methods of `str`, and `int` of a `str`, on texts as lists of characters.

## Results

* `splitlines_flatMap` — lines laid out with a line break after each; `splitlines_readText` — a file has the lines that
  were written.
* `IntSyntax.toInt_showInt` — a written number is read back.
-/

namespace VKernels.PyText

open TextLines
open List

/-! ## Lines and words -/

/-- Where `str.splitlines` breaks. -/
def isLineBreak (c : Char) : Bool :=
  c ∈ ['\n', '\r', '\x0b', '\x0c', '\x1c', '\x1d', '\x1e', '\x85', '\u2028', '\u2029']

/-- `str.splitlines`; a carriage return and a line feed are one break. -/
def splitlines : Text → List Text
  | [] => []
  | '\r' :: '\n' :: cs => [] :: splitlines cs
  | c :: cs =>
    if isLineBreak c then [] :: splitlines cs
    else match splitlines cs with
      | [] => [[c]]
      | line :: lines => (c :: line) :: lines

/-- `str.isspace` of a character. -/
def isSpace (c : Char) : Bool :=
  let n := c.toNat
  (0x09 ≤ n && n ≤ 0x0d) || (0x1c ≤ n && n ≤ 0x20) || n == 0x85 || n == 0xa0 || n == 0x1680 ||
    (0x2000 ≤ n && n ≤ 0x200a) || n == 0x2028 || n == 0x2029 || n == 0x202f || n == 0x205f || n == 0x3000

/-- `text.split()[0]`; `none` where there is no word. -/
def firstWord (text : Text) : Option Text :=
  match text.dropWhile isSpace with
  | [] => none
  | word => some (word.takeWhile fun c => !isSpace c)

/-- A file as `read_text` returns it: every carriage return, with the line feed after it, is a line feed. -/
def readText : Text → Text
  | [] => []
  | '\r' :: '\n' :: cs => '\n' :: readText cs
  | c :: cs => (if c = '\r' then '\n' else c) :: readText cs

section

variable {line rest : Text}

variable {c : Char}

/-- Every character but a carriage return before a line feed is read alone. -/
lemma splitlines_cons_eq {cs : Text} (h : ∀ cs', c = '\r' → cs ≠ '\n' :: cs') :
    splitlines (c :: cs) = if isLineBreak c then [] :: splitlines cs else
      match splitlines cs with
      | [] => [[c]]
      | line :: lines => (c :: line) :: lines := by
  rw [splitlines]
  exact h

lemma splitlines_crlf (cs : Text) : splitlines ('\r' :: '\n' :: cs) = [] :: splitlines cs := rfl

lemma splitlines_cons_break {cs : Text} (hc : isLineBreak c = true) (h : ∀ cs', c = '\r' → cs ≠ '\n' :: cs') :
    splitlines (c :: cs) = [] :: splitlines cs := by
  rw [splitlines_cons_eq h, if_pos hc]

lemma splitlines_break (cs : Text) : splitlines ('\n' :: cs) = [] :: splitlines cs := rfl

lemma splitlines_cons (hc : isLineBreak c = false) (cs : Text) :
    splitlines (c :: cs) = match splitlines cs with
      | [] => [[c]]
      | line :: lines => (c :: line) :: lines := by
  rw [splitlines_cons_eq, if_neg (by simp [hc])]
  rintro _ rfl
  exact absurd hc (by decide)

lemma splitlines_append (h : ∀ c ∈ line, isLineBreak c = false) :
    splitlines (line ++ '\n' :: rest) = line :: splitlines rest := by
  induction line with
  | nil =>
    rw [nil_append, splitlines_break]
  | cons c line ih =>
    rw [cons_append, splitlines_cons (h c mem_cons_self), ih fun d hd => h d (mem_cons_of_mem c hd)]

lemma splitlines_flatMap {lines : List Text} (h : ∀ line ∈ lines, ∀ c ∈ line, isLineBreak c = false) :
    splitlines (lines.flatMap fun line => line ++ ['\n']) = lines := by
  induction lines with
  | nil => rfl
  | cons line lines ih =>
    rw [flatMap_cons, append_assoc, singleton_append, splitlines_append (h line mem_cons_self),
      ih fun line hline => h line (mem_cons_of_mem _ hline)]

lemma splitlines_ne_nil {text : Text} (h : text ≠ []) : splitlines text ≠ [] := by
  obtain ⟨c, cs, rfl⟩ := exists_cons_of_ne_nil h
  by_cases hcr : c = '\r' ∧ ∃ cs', cs = '\n' :: cs'
  · obtain ⟨rfl, cs', rfl⟩ := hcr
    exact cons_ne_nil _ _
  · rw [splitlines_cons_eq fun cs' hr hcs => hcr ⟨hr, cs', hcs⟩]
    cases isLineBreak c <;> cases splitlines cs <;> simp

lemma splitlines_append_plain {cs : Text} (hc : isLineBreak c = false)
    (ih : splitlines (cs ++ '\n' :: rest) = splitlines (cs ++ ['\n']) ++ splitlines rest) :
    splitlines (c :: cs ++ '\n' :: rest) = splitlines (c :: cs ++ ['\n']) ++ splitlines rest := by
  rw [cons_append, cons_append, splitlines_cons hc, splitlines_cons hc, ih]
  cases hlines : splitlines _ with
  | nil => exact absurd hlines (splitlines_ne_nil (by simp))
  | cons line lines => rfl

lemma splitlines_readText_plain {cs : Text} (hc : isLineBreak c = false)
    (ih : splitlines (readText cs) = splitlines cs) : splitlines (readText (c :: cs)) = splitlines (c :: cs) := by
  have hr : c ≠ '\r' := by
    rintro rfl
    exact absurd hc (by decide)
  have hread : readText (c :: cs) = c :: readText cs := by
    rw [readText, if_neg hr]
    rintro _ rfl -
    exact hr rfl
  rw [hread, splitlines_cons hc, splitlines_cons hc, ih]

lemma splitlines_append_break (text rest : Text) :
    splitlines (text ++ '\n' :: rest) = splitlines (text ++ ['\n']) ++ splitlines rest := by
  induction text using splitlines.induct with
  | case1 => rfl
  | case2 cs ih => simp only [cons_append, splitlines_crlf, ih]
  | case3 c cs hcr hc ih =>
    by_cases hr : c = '\r' ∧ cs = []
    · obtain ⟨rfl, rfl⟩ := hr
      rfl
    · have hstep : ∀ tail : Text, splitlines (c :: (cs ++ '\n' :: tail)) = [] :: splitlines (cs ++ '\n' :: tail) := by
        refine fun _ => splitlines_cons_break hc ?_
        rintro _ rfl heq
        cases cs with
        | nil => exact hr ⟨rfl, rfl⟩
        | cons d cs =>
          obtain ⟨rfl, -⟩ := cons.inj heq
          exact hcr cs rfl rfl
      rw [cons_append, cons_append, hstep, hstep, ih, cons_append]
  | case4 c cs hcr hc hnil ih => exact splitlines_append_plain (by simpa using hc) ih
  | case5 c cs hcr hc line lines hlines ih => exact splitlines_append_plain (by simpa using hc) ih

/-- The translation of carriage returns keeps the lines. -/
lemma splitlines_readText (text : Text) : splitlines (readText text) = splitlines text := by
  induction text using splitlines.induct with
  | case1 => rfl
  | case2 cs ih => rw [readText, splitlines_break, ih, splitlines_crlf]
  | case3 c cs hcr hc ih =>
    have hread : readText (c :: cs) = (if c = '\r' then '\n' else c) :: readText cs := by
      rw [readText]
      rintro cs' rfl rfl
      exact hcr cs' rfl rfl
    rw [hread, splitlines_cons_break hc hcr, ← ih]
    by_cases hr : c = '\r'
    · rw [if_pos hr, splitlines_break]
    · rw [if_neg hr, splitlines_cons_break hc fun _ heq => absurd heq hr]
  | case4 c cs hcr hc hnil ih => exact splitlines_readText_plain (by simpa using hc) ih
  | case5 c cs hcr hc line lines hlines ih => exact splitlines_readText_plain (by simpa using hc) ih

lemma splitlines_start (hne : line ≠ []) (h : ∀ c ∈ line, isLineBreak c = false) (rest : Text) :
    ∃ tail lines, splitlines (line ++ rest) = (line ++ tail) :: lines := by
  induction line with
  | nil => exact absurd rfl hne
  | cons c line ih =>
    rw [cons_append, splitlines_cons (h c mem_cons_self)]
    by_cases hline : line = []
    · subst hline
      rw [nil_append]
      rcases splitlines rest with _ | ⟨tail, lines⟩
      · exact ⟨[], [], rfl⟩
      · exact ⟨tail, lines, rfl⟩
    · obtain ⟨tail, lines, heq⟩ := ih hline fun d hd => h d (mem_cons_of_mem c hd)
      rw [heq]
      exact ⟨tail, lines, rfl⟩

lemma isLineBreak_of_not_isSpace (h : isSpace c = false) : isLineBreak c = false := by
  rw [Bool.eq_false_iff]
  intro hbreak
  have hmem : c ∈ ['\n', '\r', '\x0b', '\x0c', '\x1c', '\x1d', '\x1e', '\x85', '\u2028', '\u2029'] := by
    simpa [isLineBreak] using hbreak
  rw [forall_of_all (p := isSpace) (b := true) (by decide) c hmem] at h
  cases h

lemma firstWord_append {word : Text} (hne : word ≠ []) (h : ∀ c ∈ word, isSpace c = false)
    (hc : isSpace c = true) : firstWord (word ++ c :: rest) = some word := by
  obtain ⟨d, word, rfl⟩ := exists_cons_of_ne_nil hne
  have hdrop : (d :: word ++ c :: rest).dropWhile isSpace = d :: word ++ c :: rest := by
    exact dropWhile_cons_of_neg (by simp [h])
  have htake : (d :: word ++ c :: rest).takeWhile (fun c => !isSpace c) = d :: word := by
    rw [takeWhile_append_of_pos fun e he => by simp [h e he], takeWhile_cons_of_neg (by simp [hc]), append_nil]
  unfold firstWord
  rw [hdrop]
  simpa using htake

end

/-! ## Numbers -/

/-- What `int` takes from Unicode and from the interpreter. -/
structure IntSyntax where
  /-- The digit that a character stands for. -/
  decimal : Char → Option ℕ
  /-- `sys.get_int_max_str_digits`, zero for no limit. -/
  maxDigits : ℕ
  decimal_digit : ∀ c : Char, c.isDigit = true → decimal c = some (c.toNat - '0'.toNat)
  maxDigits_min : maxDigits = 0 ∨ 640 ≤ maxDigits

namespace IntSyntax

variable (I : IntSyntax)

/-- The digits of a number; single underscores may stand between them. -/
def digits : Bool → Text → Option (List ℕ)
  | afterDigit, [] => if afterDigit then some [] else none
  | afterDigit, c :: cs =>
    if c = '_' then if afterDigit then digits false cs else none
    else (I.decimal c).bind fun d => (digits true cs).map (d :: ·)

/-- `int(text)`; `none` where it raises. -/
def toInt (text : Text) : Option ℤ :=
  let (negative, rest) := readSign ((text.dropWhile isSpace).rdropWhile isSpace)
  match I.digits false rest with
  | none => none
  | some ds =>
    if I.maxDigits ≠ 0 ∧ I.maxDigits < ds.length then none
    else
      let n : ℕ := ds.foldl (fun n d => 10 * n + d) 0
      some (if negative then -(n : ℤ) else n)

def ascii : IntSyntax where
  decimal c := if c.isDigit then some (c.toNat - '0'.toNat) else none
  maxDigits := 4300
  decimal_digit c hc := if_pos hc
  maxDigits_min := Or.inr (by decide)

variable {I}

lemma digits_eq {text : Text} (h : ∀ c ∈ text, c.isDigit = true) {afterDigit : Bool}
    (hne : text ≠ [] ∨ afterDigit = true) : I.digits afterDigit text = some (text.map fun c => c.toNat - '0'.toNat) := by
  induction text generalizing afterDigit with
  | nil =>
    rcases hne with hne | rfl
    · exact absurd rfl hne
    · rfl
  | cons c text ih =>
    have hc := h c mem_cons_self
    have hunder : c ≠ '_' := by
      rintro rfl
      exact absurd hc (by decide)
    rw [digits, if_neg hunder, I.decimal_digit c hc, ih (fun d hd => h d (mem_cons_of_mem c hd)) (.inr rfl)]
    rfl

lemma isSpace_of_digit {c : Char} (h : c.isDigit = true ∨ c = '-') : isSpace c = false := by
  have hrange : 0x2d ≤ c.toNat ∧ c.toNat ≤ 0x39 := by
    rcases h with h | rfl
    · simp only [Char.isDigit, Bool.and_eq_true, decide_eq_true_eq] at h
      have hlow : (48 : ℕ) ≤ c.toNat := h.1
      have hhigh : c.toNat ≤ 57 := h.2
      omega
    · decide
  unfold isSpace
  simp only [Bool.or_eq_false_iff, Bool.and_eq_false_iff, decide_eq_false_iff_not, beq_eq_false_iff_ne]
  omega

lemma toInt_showInt {v : ℤ} (hlimit : I.maxDigits = 0 ∨ (Nat.toDigits 10 v.natAbs).length ≤ I.maxDigits) :
    I.toInt (showInt v) = some v := by
  have hdigits : ∀ c ∈ Nat.toDigits 10 v.natAbs, c.isDigit = true := fun c hc => isDigit_of_mem hc
  have hspace : ∀ c ∈ showInt v, isSpace c = false := fun c hc => isSpace_of_digit (mem_showInt hc)
  have hdrop : (showInt v).dropWhile isSpace = showInt v := by
    rcases hshow : showInt v with _ | ⟨c, _⟩
    · rfl
    · have hc := hspace c (hshow ▸ mem_cons_self)
      exact dropWhile_cons_of_neg (by simp [hc])
  have hstrip : (showInt v).rdropWhile isSpace = showInt v := by
    rw [rdropWhile_eq_self_iff]
    intro hne
    have hlast := hspace _ (getLast_mem hne)
    simp [hlast]
  have hvalue : ((Nat.toDigits 10 v.natAbs).map fun c => c.toNat - '0'.toNat).foldl (fun n d => 10 * n + d) 0 =
      v.natAbs := by
    rw [foldl_map]
    exact Nat.ofDigitChars_ten_toDigits
  have hfits : ¬ (I.maxDigits ≠ 0 ∧ I.maxDigits < (Nat.toDigits 10 v.natAbs).length) := by omega
  unfold toInt
  simp only [hdrop, hstrip, readSign_showInt, digits_eq hdigits (.inl Nat.toDigits_ne_nil), length_map, if_neg hfits, hvalue, signed_natAbs]

end IntSyntax

end VKernels.PyText
