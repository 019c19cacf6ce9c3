import Mathlib.Algebra.Ring.Int.Defs
import Mathlib.Data.List.DropRight

/-!
# Lines, cells and decimal numbers

Texts as lists of characters, read and written as C++ streams do.

* `getlines` — the pieces that `std::getline` gives; `getlines_append` — a piece and its separator.
* `showInt`, `stoll` — a number written, and the number at the start of a text; `stoll_showInt`.
* `span_append` — a text cut at the first separator.
-/

namespace VKernels.TextLines

open List

abbrev Text := List Char

/-! ## Pieces -/

/-- The pieces of a text up to each separator; after a last separator there is no empty piece. -/
def getlines (sep : Char) : Text → List Text
  | [] => []
  | c :: cs =>
    if c = sep then [] :: getlines sep cs
    else match getlines sep cs with
      | [] => [[c]]
      | line :: lines => (c :: line) :: lines

section

variable {sep : Char} {line rest : Text}

lemma getlines_append (h : sep ∉ line) : getlines sep (line ++ sep :: rest) = line :: getlines sep rest := by
  induction line with
  | nil => rw [nil_append, getlines, if_pos rfl]
  | cons c line ih =>
    rw [mem_cons, not_or] at h
    rw [cons_append, getlines, if_neg (Ne.symm h.1), ih h.2]

lemma getlines_last (h : sep ∉ line) (hne : line ≠ []) : getlines sep line = [line] := by
  induction line with
  | nil => exact absurd rfl hne
  | cons c line ih =>
    rw [mem_cons, not_or] at h
    rw [getlines, if_neg (Ne.symm h.1)]
    rcases line with _ | ⟨d, line⟩
    · rfl
    · rw [ih h.2 (cons_ne_nil d line)]

lemma notMem_getlines {text : Text} (h : line ∈ getlines sep text) : sep ∉ line := by
  induction text generalizing line with
  | nil => cases h
  | cons c text ih =>
    rw [getlines] at h
    split at h
    · rcases mem_cons.mp h with rfl | h
      · exact not_mem_nil
      · exact ih h
    · rename_i hc
      cases hlines : getlines sep text with
      | nil =>
        rw [hlines] at h
        obtain rfl := mem_singleton.mp h
        rw [mem_singleton]
        exact Ne.symm hc
      | cons first lines =>
        rw [hlines] at h
        rcases mem_cons.mp h with rfl | h
        · rw [mem_cons, not_or]
          exact ⟨Ne.symm hc, ih (hlines ▸ mem_cons_self)⟩
        · exact ih (hlines ▸ mem_cons_of_mem _ h)

/-- Pieces laid out with a separator after each. -/
lemma getlines_flatMap {lines : List Text} (h : ∀ line ∈ lines, sep ∉ line) :
    getlines sep (lines.flatMap fun line => line ++ [sep]) = lines := by
  induction lines with
  | nil => rfl
  | cons line lines ih =>
    rw [flatMap_cons, append_assoc, singleton_append, getlines_append (h line mem_cons_self),
      ih fun line hline => h line (mem_cons_of_mem _ hline)]

lemma getlines_intercalate {lines : List Text} (h : ∀ line ∈ lines, sep ∉ line ∧ line ≠ []) :
    getlines sep ([sep].intercalate lines) = lines := by
  induction lines with
  | nil => rfl
  | cons line lines ih =>
    obtain ⟨hsep, hne⟩ := h line mem_cons_self
    have hlines := ih fun line hline => h line (mem_cons_of_mem _ hline)
    rcases lines with _ | ⟨_, _⟩
    · rw [intercalate_singleton]
      exact getlines_last hsep hne
    · rw [intercalate_cons_cons, append_assoc, singleton_append, getlines_append hsep, hlines]

end

lemma forall_of_all {p : Char → Bool} {b : Bool} {text : Text} (h : text.all (fun c => p c == b) = true) :
    ∀ c ∈ text, p c = b := fun c hc => eq_of_beq (all_eq_true.mp h c hc)

lemma mem_intercalate {sep c : Char} {pieces : List Text} (h : c ∈ [sep].intercalate pieces) :
    c = sep ∨ ∃ piece ∈ pieces, c ∈ piece := by
  induction pieces with
  | nil => simp at h
  | cons piece pieces ih =>
    rcases pieces with _ | ⟨_, _⟩
    · simp only [intercalate_singleton] at h
      exact .inr ⟨piece, mem_cons_self, h⟩
    · rw [intercalate_cons_cons, append_assoc, mem_append, mem_append, mem_singleton] at h
      rcases h with h | h | h
      · exact .inr ⟨piece, mem_cons_self, h⟩
      · exact .inl h
      · exact (ih h).imp id fun ⟨d, hd, hc⟩ => ⟨d, mem_cons_of_mem _ hd, hc⟩

lemma span_append {sep : Char} {line : Text} (rest : Text) (h : sep ∉ line) :
    (line ++ sep :: rest).takeWhile (· ≠ sep) = line ∧ (line ++ sep :: rest).dropWhile (· ≠ sep) = sep :: rest := by
  have hline : ∀ c ∈ line, decide (c ≠ sep) = true := by
    intro c hc
    exact decide_eq_true fun heq => h (heq ▸ hc)
  constructor
  · rw [takeWhile_append_of_pos hline, takeWhile_cons_of_neg (by simp), append_nil]
  · rw [dropWhile_append_of_pos hline, dropWhile_cons_of_neg (by simp)]

/-! ## Numbers -/

/-- `long long`. -/
abbrev LongLong := { v : ℤ // -2 ^ 63 ≤ v ∧ v < 2 ^ 63 }

/-- `isspace`. -/
def isSpace (c : Char) : Bool := c ∈ [' ', '\t', '\n', '\x0b', '\x0c', '\r']

/-- `out << v`. -/
def showInt (v : ℤ) : Text := if v < 0 then '-' :: Nat.toDigits 10 v.natAbs else Nat.toDigits 10 v.natAbs

/-- A sign at the start: whether it is negative, and the text after it. -/
def readSign : Text → Bool × Text
  | '-' :: text => (true, text)
  | '+' :: text => (false, text)
  | text => (false, text)

/-- `std::stoll`: the number at the start of a text and the characters it takes; `none` where it throws. -/
def stoll (text : Text) : Option (LongLong × ℕ) :=
  let (negative, rest) := readSign (text.dropWhile isSpace)
  let digits := rest.takeWhile Char.isDigit
  let n : ℤ := Nat.ofDigitChars 10 digits 0
  let v := if negative then -n else n
  if digits = [] then none
  else if h : -2 ^ 63 ≤ v ∧ v < 2 ^ 63 then some (⟨v, h⟩, text.length - (rest.drop digits.length).length)
  else none

section

variable {c : Char}

lemma isDigit_of_mem {n : ℕ} (h : c ∈ Nat.toDigits 10 n) : c.isDigit = true :=
  Nat.isDigit_of_mem_toDigits (by decide) (by decide) h

lemma mem_showInt {v : ℤ} (h : c ∈ showInt v) : c.isDigit = true ∨ c = '-' := by
  unfold showInt at h
  split at h
  · rcases mem_cons.mp h with h | h
    · exact .inr h
    · exact .inl (isDigit_of_mem h)
  · exact .inl (isDigit_of_mem h)

lemma notMem_showInt {v : ℤ} (h : c.isDigit = false) (hc : c ≠ '-') : c ∉ showInt v := by
  intro hmem
  rcases mem_showInt hmem with hdigit | hminus
  · rw [h] at hdigit
    cases hdigit
  · exact hc hminus

lemma showInt_ne_nil (v : ℤ) : showInt v ≠ [] := by
  unfold showInt
  split
  · exact cons_ne_nil _ _
  · exact Nat.toDigits_ne_nil

lemma readSign_digits {digits : Text} (h : ∀ c ∈ digits, c.isDigit = true) : readSign digits = (false, digits) := by
  rcases digits with _ | ⟨c, _⟩
  · rfl
  · have hc := h c mem_cons_self
    unfold readSign
    split
    · rename_i heq
      obtain ⟨rfl, -⟩ := cons.inj heq
      cases hc
    · rename_i heq
      obtain ⟨rfl, -⟩ := cons.inj heq
      cases hc
    · rfl

lemma readSign_showInt (v : ℤ) : readSign (showInt v) = (decide (v < 0), Nat.toDigits 10 v.natAbs) := by
  unfold showInt
  split
  · rename_i hneg
    rw [decide_eq_true hneg]
    rfl
  · rename_i hpos
    rw [readSign_digits fun _ => isDigit_of_mem, decide_eq_false hpos]

lemma signed_natAbs (v : ℤ) : (if decide (v < 0) then -(v.natAbs : ℤ) else (v.natAbs : ℤ)) = v := by
  by_cases hneg : v < 0
  · rw [if_pos (decide_eq_true hneg)]
    omega
  · rw [if_neg (by simpa using hneg)]
    omega

lemma dropWhile_isSpace {text : Text} (h : c.isDigit = true ∨ c = '-') :
    (c :: text).dropWhile isSpace = c :: text := by
  refine dropWhile_cons_of_neg fun hspace => ?_
  have hmem : c ∈ [' ', '\t', '\n', '\x0b', '\x0c', '\r'] := of_decide_eq_true hspace
  simp only [mem_cons, not_mem_nil, or_false] at hmem
  rcases hmem with rfl | rfl | rfl | rfl | rfl | rfl <;> exact absurd h (by decide)

lemma stoll_showInt (v : LongLong) : stoll (showInt v) = some (v, (showInt v).length) := by
  obtain ⟨v, hv⟩ := v
  have htake : (Nat.toDigits 10 v.natAbs).takeWhile Char.isDigit = Nat.toDigits 10 v.natAbs :=
    takeWhile_eq_self_iff.mpr fun _ => isDigit_of_mem
  have hspace : (showInt v).dropWhile isSpace = showInt v := by
    rcases hshow : showInt v with _ | ⟨c, _⟩
    · rfl
    · exact dropWhile_isSpace (mem_showInt (hshow ▸ mem_cons_self))
  unfold stoll
  simp only [hspace, readSign_showInt, htake, Nat.ofDigitChars_ten_toDigits, signed_natAbs, if_neg Nat.toDigits_ne_nil, dif_pos hv,
    drop_length, length_nil, Nat.sub_zero]

end

end VKernels.TextLines
