import VKernels.Lib.TextLines
import Mathlib.Data.List.Infix

/-!
# Patterns of file names

The patterns of a `glob` within one directory: `*`, `?` and brackets.

* `pieces` — a pattern read; `accepts` — the texts that it takes.
-/

namespace VKernels.Glob

open TextLines

inductive Piece where
  | char (c : Char)
  | any
  | many
  | set (negated : Bool) (ranges : List (Char × Char))

/-- The ranges within brackets; a hyphen at either end stands for itself. -/
def ranges : Text → List (Char × Char)
  | lo :: '-' :: hi :: cs => (lo, hi) :: ranges cs
  | c :: cs => (c, c) :: ranges cs
  | [] => []

/-- What is before the closing bracket, which is not the first character; `none` where none closes. -/
def closing : Text → Option Text
  | [] => none
  | c :: cs => if ']' ∈ cs then some (c :: cs.takeWhile (· ≠ ']')) else none

/-- A bracket opened before the text: its piece, and how many characters it takes. -/
def bracket : Text → Option (Piece × ℕ)
  | '!' :: cs => (closing cs).map fun body => (.set true (ranges body), body.length + 2)
  | cs => (closing cs).map fun body => (.set false (ranges body), body.length + 1)

/-- The pieces of a pattern, of which some characters are already taken. -/
def pieces : ℕ → Text → List Piece
  | _, [] => []
  | taken + 1, _ :: cs => pieces taken cs
  | 0, c :: cs =>
    if c = '*' then .many :: pieces 0 cs
    else if c = '?' then .any :: pieces 0 cs
    else if c = '[' then
      match bracket cs with
      | some (piece, taken) => piece :: pieces taken cs
      | none => .char c :: pieces 0 cs
    else .char c :: pieces 0 cs

def accepts : List Piece → Text → Bool
  | [], text => text.isEmpty
  | .many :: ps, text => text.tails.any fun rest => accepts ps rest
  | .char _ :: _, [] => false
  | .char d :: ps, c :: cs => c = d && accepts ps cs
  | .any :: _, [] => false
  | .any :: ps, _ :: cs => accepts ps cs
  | .set _ _ :: _, [] => false
  | .set negated rs :: ps, c :: cs => (rs.any fun r => r.1 ≤ c && c ≤ r.2) != negated && accepts ps cs

/-- `fnmatch` of a name. -/
def globMatches (pattern name : Text) : Bool := accepts (pieces 0 pattern) name

/-- A set and its complement, and a bracket that nothing closes. -/
example : globMatches "k[0-2].*".toList "k1.x".toList = true ∧ globMatches "k[!0-2].*".toList "k1.x".toList = false ∧
    globMatches "k[0.*".toList "k[0.x".toList = true := by decide +kernel

end VKernels.Glob
