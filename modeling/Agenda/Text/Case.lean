import Agenda.Text.Basic
import Agenda.Text.CaseTable

/-! # Small and capital letters

    The case maps of every script.  A letter has one small form, but for the dotted capital I,
    which has two code points, and the capital sigma, whose form depends on its place in the
    word.  A capital may take several letters (`ß` gives `SS`).  Case-insensitive matching
    compares code point by code point and so has a map of its own, `fold`. -/

namespace Agenda.Text

/-- The image of a code point under the first run that holds it. -/
def CaseRun.image? (r : CaseRun) (n : Nat) : Option Nat :=
  if r.first ≤ n ∧ n ≤ r.last ∧ (n - r.first) % r.stride = 0 then
    some ((n : Int) + r.shift).toNat
  else none

/-- Map a character through the runs; one that no run holds stays as it is. -/
def mapRuns (runs : List CaseRun) (c : Char) : Char :=
  match runs.findSome? (·.image? c.toNat) with
  | some n => Char.ofNat n
  | none => c

/-! ## Section 1: Small letters -/

/-- The single small letter of `c`. -/
def lowerChar (c : Char) : Char := mapRuns lowerRuns c

/-- Cased, and not passed over next to a sigma. -/
def isCased (c : Char) : Bool := inRanges casedRanges c

/-- Passed over when looking for the letter next to a sigma. -/
def isCaseIgnorable (c : Char) : Bool := inRanges caseIgnorableRanges c

/-- Does the text, read away from a sigma, begin with a letter of the same word? -/
def meetsCased (t : Text) : Bool :=
  match t.dropWhile isCaseIgnorable with
  | c :: _ => isCased c
  | [] => false

/-- The small letters for `c`, which stands after `before` (nearest first) and before
    `after`: a sigma that ends a word has a form of its own. -/
def lowerInContext (before : Text) (c : Char) (after : Text) : Text :=
  if c = 'Σ' then
    if meetsCased before && !meetsCased after then ['ς'] else ['σ']
  else if c = 'İ' then ['i', '\u0307']
  else [lowerChar c]

/-- `lower` with the part of the text already passed, nearest character first. -/
def lowerFrom (before : Text) : Text → Text
  | [] => []
  | c :: rest => lowerInContext before c rest ++ lowerFrom (c :: before) rest

/-- A text in small letters. -/
def lower (t : Text) : Text := lowerFrom [] t

/-! ## Section 2: Capital letters -/

/-- The capital letters for one character. -/
def upperChar (c : Char) : Text :=
  match upperExpansions.find? (·.1 == c.toNat) with
  | some (_, ns) => ns.map Char.ofNat
  | none => [mapRuns upperRuns c]

/-- A text in capital letters. -/
def upper (t : Text) : Text := t.flatMap upperChar

/-! ## Section 3: Matching without case -/

/-- The representative of the characters that match `c` when case does not count. -/
def fold (c : Char) : Char :=
  let small := lowerChar c
  match foldExceptions.find? (·.1 == small.toNat) with
  | some (_, n) => Char.ofNat n
  | none => small

end Agenda.Text
