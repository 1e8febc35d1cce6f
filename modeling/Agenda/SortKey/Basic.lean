import Agenda.Text.Quoted

/-! # Sort keys

    Siblings are ordered by hand, and each carries a key that says where it stands.  A key is
    an integer part and an optional fraction, both in base-62 digits.  The head of the integer
    part tells its length: `a` to `z` for 2 to 27 characters, `Z` down to `A` for 2 to 27
    characters of the negative range.  Keys are compared as texts.

    This module has the digits, the valid keys, and the step to the next and to the previous
    integer part. -/

namespace Agenda.SortKey

/-! ## Section 1: Errors -/

/-- Why a key could not be made or accepted. -/
inductive KeyError where
  | empty
  | badHead (head : Char)
  | malformed (key : Text)
  | boundsOutOfOrder (before after : Text)
  | fractionsOutOfOrder (a b : Text)
  | trailingZero (a : Text) (b : Option Text)
  | noIntegerBelow (before after : Option Text)
  | noIntegerAbove (before after : Option Text)
  | unknownDigit
  | negativeCount
  deriving DecidableEq

/-- The wording of an error. -/
def KeyError.message : KeyError → Text
  | empty => "empty key".toList
  | badHead head => "invalid key head: ".toList ++ Text.quoted [head]
  | malformed key => "invalid key: ".toList ++ Text.quoted key
  | boundsOutOfOrder before after =>
    "sort key bounds out of order: ".toList ++ Text.quoted before ++ " >= ".toList ++
      Text.quoted after
  | fractionsOutOfOrder a b => Text.quoted a ++ " >= ".toList ++ Text.quoted b
  | trailingZero _ _ => "fraction has trailing zero".toList
  | noIntegerBelow _ _ => "cannot decrement below the smallest key".toList
  | noIntegerAbove _ _ => "cannot increment above the largest key".toList
  | unknownDigit => "substring not found".toList
  | negativeCount => "count must be non-negative".toList

/-- The bounds that an error is about: the lower and the upper one. -/
def KeyError.bounds : KeyError → Option Text × Option Text
  | boundsOutOfOrder before after => (some before, some after)
  | fractionsOutOfOrder a b => (some a, some b)
  | trailingZero a b => (some a, b)
  | noIntegerBelow before after => (before, after)
  | noIntegerAbove before after => (before, after)
  | _ => (none, none)

/-! ## Section 2: Digits -/

/-- The base-62 digits, in code-point order, which is the order of their values. -/
def digits : Text := "0123456789ABCDEFGHIJKLMNOPQRSTUVWXYZabcdefghijklmnopqrstuvwxyz".toList

/-- The value of a digit. -/
def value? (c : Char) : Option Nat := digits.idxOf? c

/-- The digit with this value. -/
def digit (n : Nat) : Char := digits.getD n '0'

/-- Add one to a row of digits: the new row and whether a carry is left over. -/
def incrementDigits : Text → Text × Bool
  | [] => ([], true)
  | c :: rest =>
    match incrementDigits rest with
    | (rest, false) => (c :: rest, false)
    | (rest, true) =>
      match value? c with
      | some d => if d = 61 then ('0' :: rest, true) else (digit (d + 1) :: rest, false)
      | none => (c :: rest, false)

/-- Take one from a row of digits: the new row and whether a borrow is left over. -/
def decrementDigits : Text → Text × Bool
  | [] => ([], true)
  | c :: rest =>
    match decrementDigits rest with
    | (rest, false) => (c :: rest, false)
    | (rest, true) =>
      match value? c with
      | some d => if d = 0 then ('z' :: rest, true) else (digit (d - 1) :: rest, false)
      | none => (c :: rest, false)

/-! ## Section 3: Integer parts -/

/-- The length of an integer part with this head. -/
def integerLength? (head : Char) : Option Nat :=
  if 'a' ≤ head ∧ head ≤ 'z' then some (head.toNat - 'a'.toNat + 2)
  else if 'A' ≤ head ∧ head ≤ 'Z' then some ('Z'.toNat - head.toNat + 2)
  else none

/-- The integer part of a key, as long as its head says. -/
def integerPart : Text → Text
  | [] => []
  | head :: rest => (head :: rest).take ((integerLength? head).getD 0)

/-- What follows the integer part of a key. -/
def fractionPart (key : Text) : Text := key.drop (integerPart key).length

/-- The integer part below which there is none. -/
def smallestInteger : Text := 'A' :: List.replicate 26 '0'

/-- The next integer part; the largest has none. -/
def incrementInteger? : Text → Option Text
  | [] => none
  | head :: ds =>
    match incrementDigits ds with
    | (ds, false) => some (head :: ds)
    | (ds, true) =>
      if head = 'Z' then some ['a', '0']
      else if head = 'z' then none
      else
        let next := Char.ofNat (head.toNat + 1)
        if 'a' < next then some (next :: ds ++ ['0']) else some (next :: ds.dropLast)

/-- The integer part before this one; the smallest has none. -/
def decrementInteger? : Text → Option Text
  | [] => none
  | head :: ds =>
    match decrementDigits ds with
    | (ds, false) => some (head :: ds)
    | (ds, true) =>
      if head = 'a' then some ['Z', 'z']
      else if head = 'A' then none
      else
        let next := Char.ofNat (head.toNat - 1)
        if next < 'Z' then some (next :: ds ++ ['z']) else some (next :: ds.dropLast)

/-! ## Section 4: Valid keys -/

/-- Accept a key: it has a whole integer part other than the smallest, digits after its
    head, and no zero at the end of its fraction. -/
def validate (key : Text) : Except KeyError Unit :=
  match key with
  | [] => .error .empty
  | head :: rest =>
    if key = smallestInteger then .error (.malformed key)
    else match integerLength? head with
      | none => .error (.badHead head)
      | some n =>
        if key.length < n then .error (.malformed key)
        else if rest.any (· ∉ digits) then .error (.malformed key)
        else if (fractionPart key).getLast? = some '0' then .error (.malformed key)
        else .ok ()

/-- Is the key accepted? -/
def isValid (key : Text) : Bool := (validate key).isOk

end Agenda.SortKey
