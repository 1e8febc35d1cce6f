import Agenda.Text.Basic
import Agenda.Text.UnprintableTable

/-! # Quoted text

    How messages show a text: between single quotes, or between double quotes when it has a
    single quote and no double one.  The backslash and the surrounding quote are escaped by a
    backslash; tab, line feed and carriage return by a letter; every other code point without
    a printed form by its number in hexadecimal. -/

namespace Agenda.Text

/-- `n` in hexadecimal, filled up with zeros to `width` digits. -/
def hexadecimal (width n : Nat) : Text :=
  let digits := Nat.toDigits 16 n
  List.replicate (width - digits.length) '0' ++ digits

/-- Has `c` a printed form? -/
def isPrintable (c : Char) : Bool := !inRanges unprintableRanges c

/-- A code point by number, in the shortest of the three widths that holds it. -/
def numbered (c : Char) : Text :=
  let n := c.toNat
  if n < 0x100 then "\\x".toList ++ hexadecimal 2 n
  else if n < 0x10000 then "\\u".toList ++ hexadecimal 4 n
  else "\\U".toList ++ hexadecimal 8 n

/-- How one character is written between two `quote`s. -/
def escapeChar (quote c : Char) : Text :=
  if c = quote ∨ c = '\\' then ['\\', c]
  else if c = '\t' then "\\t".toList
  else if c = '\n' then "\\n".toList
  else if c = '\r' then "\\r".toList
  else if isPrintable c then [c]
  else numbered c

/-- The quotation mark around a text. -/
def quoteMark (t : Text) : Char :=
  if '\'' ∈ t ∧ '"' ∉ t then '"' else '\''

/-- A text as messages show it. -/
def quoted (t : Text) : Text :=
  quoteMark t :: t.flatMap (escapeChar (quoteMark t)) ++ [quoteMark t]

/-- A text that may be missing, as messages show it. -/
def quoted? : Option Text → Text
  | some t => quoted t
  | none => "None".toList

end Agenda.Text
