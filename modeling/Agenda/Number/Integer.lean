import Agenda.Text.Basic

/-! # Integers as text

    Integers are written in ASCII decimals.  Reading is more generous: blanks around the
    numeral, a sign, digits of any script, and single underscores between digits. -/

namespace Agenda.Integer

/-- A natural number in decimals. -/
def writeNat (n : Nat) : Text := Nat.toDigits 10 n

/-- An integer in decimals. -/
def write : Int → Text
  | .ofNat n => writeNat n
  | .negSucc n => '-' :: writeNat (n + 1)

/-- A natural number in decimals, filled up with zeros to `width` digits. -/
def writePadded (width n : Nat) : Text :=
  List.replicate (width - (writeNat n).length) '0' ++ writeNat n

/-- The longest numeral that is read or written. -/
def maxDigits : Nat := 4300

/-- Has an integer more digits than are written? -/
def isTooLong (n : Int) : Bool := Nat.pow 10 maxDigits ≤ n.natAbs

theorem isTooLong_of_lt {n : Int} (h : n.natAbs < 10) : isTooLong n = false := by
  have hten : ∀ digits, digits ≠ 0 → 10 ≤ Nat.pow 10 digits := by
    intro digits hdigits
    exact Nat.le_self_pow hdigits 10
  exact decide_eq_false (Nat.not_le_of_lt (Nat.lt_of_lt_of_le h (hten maxDigits nofun)))

/-- Blanks that may stand around a numeral: all but the four ASCII separators. -/
def isPadding (c : Char) : Bool :=
  Text.isBlank c && !(28 ≤ c.toNat && c.toNat ≤ 31)

/-- Digits after at least one digit, with single underscores between digits: the digits'
    values in order. -/
def moreDigits? : Text → Option (List Nat)
  | [] => some []
  | '_' :: c :: rest => do
    let d ← Text.decimalValue? c
    return d :: (← moreDigits? rest)
  | c :: rest => do
    let d ← Text.decimalValue? c
    return d :: (← moreDigits? rest)

/-- The digits of an unsigned numeral. -/
def digits? : Text → Option (List Nat)
  | [] => none
  | c :: rest => do
    let d ← Text.decimalValue? c
    return d :: (← moreDigits? rest)

/-- The number that a list of decimal digits denotes. -/
def ofDigits (ds : List Nat) : Nat := ds.foldl (fun n d => 10 * n + d) 0

/-- The value of an unsigned numeral. -/
def readNat? (t : Text) : Option Nat := do
  let ds ← digits? t
  if ds.length ≤ maxDigits then some (ofDigits ds) else none

/-- The sign of a numeral and the text of its digits. -/
def signed (t : Text) : Bool × Text :=
  match Text.dropEndWhile isPadding (t.dropWhile isPadding) with
  | '-' :: rest => (true, rest)
  | '+' :: rest => (false, rest)
  | rest => (false, rest)

/-- The value of a numeral, or `none` if the text is not one. -/
def read? (t : Text) : Option Int :=
  (readNat? (signed t).2).map fun n => if (signed t).1 then -(n : Int) else n

/-- How many digits a numeral has, also one that is too long to be read. -/
def numeralLength? (t : Text) : Option Nat := (digits? (signed t).2).map List.length

end Agenda.Integer
