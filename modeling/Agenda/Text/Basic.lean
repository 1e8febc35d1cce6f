import Agenda.Text.AlphanumericTable
import Agenda.Text.DigitTable

/-! # Texts

    A text is the list of its code points, so every offset, length and order in this library
    counts or compares code points.  This module has the character classes and the few
    operations on whole texts that the other modules share. -/

namespace Agenda

/-- A text: the list of its code points. -/
abbrev Text := List Char

namespace Text

/-! ## Section 1: Character classes -/

/-- Is the code point of `c` in one of the closed ranges? -/
def inRanges (ranges : List (Nat × Nat)) (c : Char) : Bool :=
  ranges.any fun r => r.1 ≤ c.toNat && c.toNat ≤ r.2

/-- The code points that separate words. -/
def blankRanges : List (Nat × Nat) :=
  [(9, 13), (28, 32), (133, 133), (160, 160), (5760, 5760), (8192, 8202), (8232, 8233),
   (8239, 8239), (8287, 8287), (12288, 12288)]

/-- White space of every script. -/
def isBlank (c : Char) : Bool := inRanges blankRanges c

/-- Letters and numerals of every script. -/
def isAlphanumeric (c : Char) : Bool := inRanges alphanumericRanges c

/-- Code points that denote one digit, superscripts and circled digits included. -/
def isDigit (c : Char) : Bool := inRanges digitRanges c

/-- The value of a digit of a positional numeral system, of any script. -/
def decimalValue? (c : Char) : Option Nat :=
  (decimalZeros.find? fun z => z ≤ c.toNat && c.toNat < z + 10).map (c.toNat - ·)

/-- Digits of a positional numeral system. -/
def isDecimal (c : Char) : Bool := (decimalValue? c).isSome

/-- The value of an ASCII digit. -/
def asciiDigit? (c : Char) : Option Nat :=
  if '0' ≤ c ∧ c ≤ '9' then some (c.toNat - '0'.toNat) else none

/-! ## Section 2: Blanks around and between words -/

/-- Drop the last characters of a text as long as they are in the class `p`. -/
def dropEndWhile (p : Char → Bool) (t : Text) : Text :=
  (t.reverse.dropWhile p).reverse

/-- A text without the blanks at its two ends. -/
def trim (t : Text) : Text := dropEndWhile isBlank (t.dropWhile isBlank)

/-- The words of a text: its maximal runs without blanks, from left to right. -/
def words : Text → List Text
  | [] => []
  | c :: rest =>
    if isBlank c then words rest
    else match rest, words rest with
      | d :: _, w :: ws => if isBlank d then [c] :: w :: ws else (c :: w) :: ws
      | _, ws => [c] :: ws

/-- The texts one after another with `separator` between neighbours. -/
def join (separator : Text) : List Text → Text
  | [] => []
  | [t] => t
  | t :: rest => t ++ separator ++ join separator rest

/-! ## Section 3: Replacing characters -/

/-- Put `replacement` in the place of every `c`. -/
def replaceChar (c : Char) (replacement : Text) (t : Text) : Text :=
  t.flatMap fun d => if d = c then replacement else [d]

/-- Do the texts ascend weakly? -/
def ascending : List Text → Bool
  | a :: b :: rest => !decide (b < a) && ascending (b :: rest)
  | _ => true

end Text

end Agenda
