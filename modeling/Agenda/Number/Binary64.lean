import Agenda.Number.Integer

/-! # Binary floating-point numbers

    Numbers of 53 binary digits, held exactly as mantissa and exponent, with the two infinities
    and the value that is no number.  A decimal is read as the nearest such number (of two, the
    one with the even mantissa), and a number is written with the fewest decimal digits that
    read back, the nearest of those to the value. -/

namespace Agenda

/-- A number of 53 binary digits: `± mantissa · 2 ^ exponent`, an infinity, or no number. -/
inductive Binary64 where
  | finite (negative : Bool) (mantissa : Nat) (exponent : Int)
  | infinite (negative : Bool)
  | nan
  deriving DecidableEq, Repr

namespace Binary64

/-! ## Section 1: Rounding -/

/-- The least exponent of the last binary digit. -/
def minExponent : Int := -1074

/-- The nearest natural number to `num / den`, of two the even one. -/
def roundHalfEven (num den : Nat) : Nat :=
  let q := num / den
  let r := num % den
  if 2 * r < den then q
  else if den < 2 * r then q + 1
  else if q % 2 = 0 then q else q + 1

/-- `num / den` scaled by `2 ^ (-e)`, as a pair of naturals. -/
def scale (num den : Nat) (e : Int) : Nat × Nat :=
  if 0 ≤ e then (num, den * Nat.pow 2 e.toNat) else (num * Nat.pow 2 (-e).toNat, den)

/-- The number nearest to `± num / den`, where `den` is positive. -/
def ofRatio (negative : Bool) (num den : Nat) : Binary64 :=
  if num = 0 then finite negative 0 minExponent
  else
    -- the quotient has 53 or 54 binary digits before the point, unless it is subnormal
    let guess := max ((num.log2 : Int) - den.log2 - 53) minExponent
    let scaled := scale num den guess
    let e := if Nat.pow 2 53 ≤ scaled.1 / scaled.2 then guess + 1 else guess
    let exact := scale num den e
    let m := roundHalfEven exact.1 exact.2
    -- rounding up can carry into one digit more
    let rounded := if m = Nat.pow 2 53 then (Nat.pow 2 52, e + 1) else (m, e)
    if 971 < rounded.2 then infinite negative else finite negative rounded.1 rounded.2

/-- The number nearest to `± digits · 10 ^ exponent`. -/
def ofDecimal (negative : Bool) (digits : Nat) (exponent : Int) : Binary64 :=
  if 0 ≤ exponent then ofRatio negative (digits * Nat.pow 10 exponent.toNat) 1
  else ofRatio negative digits (Nat.pow 10 (-exponent).toNat)

/-! ## Section 2: Integers -/

/-- The size of a finite number as a pair of naturals, numerator and denominator. -/
def ratio (mantissa : Nat) (exponent : Int) : Nat × Nat :=
  if 0 ≤ exponent then (mantissa * Nat.pow 2 exponent.toNat, 1)
  else (mantissa, Nat.pow 2 (-exponent).toNat)

/-- Is the number an integer? -/
def isInteger : Binary64 → Bool
  | finite _ m e => (ratio m e).1 % (ratio m e).2 == 0
  | _ => false

/-- The integer part of a finite number, toward zero. -/
def truncate? : Binary64 → Option Int
  | finite negative m e =>
    let n := (ratio m e).1 / (ratio m e).2
    some (if negative then -(n : Int) else n)
  | _ => none

/-- Is the number zero? -/
def isZero : Binary64 → Bool
  | finite _ m _ => m == 0
  | _ => false

/-! ## Section 3: The shortest decimal -/

/-- The decimal exponent of the first digit of `num / den`, for positive numbers. -/
def leadingExponent (num den : Nat) : Int :=
  if den ≤ num then ((Nat.toDigits 10 (num / den)).length : Int) - 1
  else
    match (List.range 400).find? fun n => den ≤ num * Nat.pow 10 n with
    | some n => -(n : Int)
    | none => -400

/-- The interval of the numbers that round to `mantissa · 2 ^ exponent`, in units of
    `2 ^ (exponent - 2)`; its ends belong to it iff the mantissa is even. -/
def interval (mantissa : Nat) (exponent : Int) : Nat × Nat :=
  -- below a power of two the numbers lie twice as close
  let below := if mantissa = Nat.pow 2 52 ∧ minExponent < exponent then 1 else 2
  (4 * mantissa - below, 4 * mantissa + 2)

/-- Does `digits · 10 ^ e` round to `mantissa · 2 ^ exponent`? -/
def roundsTo (mantissa : Nat) (exponent : Int) (digits : Nat) (e : Int) : Bool :=
  let d := if 0 ≤ e then (digits * Nat.pow 10 e.toNat, 1) else (digits, Nat.pow 10 (-e).toNat)
  let x := scale d.1 d.2 (exponent - 2)
  let (low, high) := interval mantissa exponent
  if mantissa % 2 = 0 then low * x.2 ≤ x.1 && x.1 ≤ high * x.2
  else low * x.2 < x.1 && x.1 < high * x.2

/-- The digits on the grid of `10 ^ e` that round to `mantissa · 2 ^ exponent`, if there are
    any: of the two neighbours of the value the nearer one, of equally near ones the even. -/
def onGrid? (mantissa : Nat) (exponent e : Int) : Option Nat :=
  let (num, den) := ratio mantissa exponent
  let (n, d) := if 0 ≤ e then (num, den * Nat.pow 10 e.toNat) else (num * Nat.pow 10 (-e).toNat, den)
  let floor := n / d
  let nearest := roundHalfEven n d
  let other := if nearest = floor then floor + 1 else floor
  if roundsTo mantissa exponent nearest e then some nearest
  else if roundsTo mantissa exponent other e then some other
  else none

/-- A decimal without the zeros at its end. -/
def stripZeros : Nat → Nat → Int → Nat × Int
  | 0, digits, e => (digits, e)
  | fuel + 1, digits, e =>
    if digits ≠ 0 ∧ digits % 10 = 0 then stripZeros fuel (digits / 10) (e + 1) else (digits, e)

/-- The shortest decimal of a positive number: its digits and the exponent of the last. -/
def shortest (mantissa : Nat) (exponent : Int) : Nat × Int :=
  let (num, den) := ratio mantissa exponent
  let lead := leadingExponent num den
  -- 17 digits always tell a number from its neighbours
  let found := (List.range 17).findSome? fun (k : Nat) =>
    (onGrid? mantissa exponent (lead - (k : Int))).map fun digits => (digits, lead - (k : Int))
  match found with
  | some (digits, e) => stripZeros 20 digits e
  | none => (0, 0)

/-! ## Section 4: Writing -/

/-- Digits with the point after `point` of them, zeros filled in where needed. -/
def positional (digits : Text) (point : Int) : Text :=
  if point ≤ 0 then "0.".toList ++ List.replicate (-point).toNat '0' ++ digits
  else if digits.length ≤ point.toNat then
    digits ++ List.replicate (point.toNat - digits.length) '0'
  else digits.take point.toNat ++ ['.'] ++ digits.drop point.toNat

/-- One digit, the others after a point, and the exponent with its sign and two digits or
    more. -/
def scientific (digits : Text) (exponent : Int) : Text :=
  let fraction := match digits.drop 1 with
    | [] => []
    | rest => '.' :: rest
  let sign := if exponent < 0 then '-' else '+'
  digits.take 1 ++ fraction ++ ['e', sign] ++ Integer.writePadded 2 exponent.natAbs

/-- The sign of a number. -/
def sign (negative : Bool) : Text := if negative then ['-'] else []

/-- The plain text of a number: positional from `0.0001` to below `10 ^ 16`, always with a
    point or an exponent, and with an exponent elsewhere. -/
def write : Binary64 → Text
  | nan => "nan".toList
  | infinite negative => sign negative ++ "inf".toList
  | finite negative m e =>
    sign negative ++
      if m = 0 then "0.0".toList
      else
        let (digits, last) := shortest m e
        let text := Integer.writeNat digits
        let point := (text.length : Int) + last
        if -4 < point ∧ point ≤ 16 then
          let body := positional text point
          if '.' ∈ body then body else body ++ ".0".toList
        else scientific text (point - 1)

/-- The text of a number without an exponent: an integer has no point. -/
def writePositional : Binary64 → Text
  | nan => "NaN".toList
  | infinite negative => sign negative ++ "Infinity".toList
  | finite negative m e =>
    if isInteger (finite negative m e) then
      match truncate? (finite negative m e) with
      | some n => Integer.write n
      | none => []
    else
      let (digits, last) := shortest m e
      let text := Integer.writeNat digits
      sign negative ++ positional text ((text.length : Int) + last)

/-! ## Section 5: Reading -/

/-- An unsigned decimal with an optional point and exponent. -/
def readUnsigned? (negative : Bool) (t : Text) : Option Binary64 := do
  let (mantissa, exponent) := t.span (· ≠ 'e')
  let (whole, fraction) := mantissa.span (· ≠ '.')
  let digits := whole ++ fraction.drop 1
  if digits = [] ∨ ¬ digits.all Char.isDigit then none
  let e ← match exponent with
    | [] => some 0
    | _ :: rest => Integer.read? rest
  let n := Integer.ofDigits (digits.filterMap Text.decimalValue?)
  some (ofDecimal negative n (e - (fraction.drop 1).length))

/-- The number that a plain text denotes. -/
def read? (t : Text) : Option Binary64 :=
  let (negative, body) := match t with
    | '-' :: rest => (true, rest)
    | rest => (false, rest)
  if body = "nan".toList then some nan
  else if body = "inf".toList then some (infinite negative)
  else readUnsigned? negative body

end Binary64

end Agenda
