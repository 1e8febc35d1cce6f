import Agenda.Time.Moment

/-! # Days and moments as typed in a query

    A day has four digits for the year and two each for month and day.  In a moment, month,
    day, hour, minute and second may be one digit short, the seconds may be left out, and the
    `T` may be small.  A digit that could be any digit may come from any script; one that is
    bounded by its place (the first of a month, say) must be an ASCII digit. -/

namespace Agenda.Typed

/-- The value of an ASCII digit between `lo` and `hi`. -/
def digitBetween? (lo hi : Nat) (c : Char) : Option Nat := do
  let d ← Text.asciiDigit? c
  if lo ≤ d ∧ d ≤ hi then some d else none

/-- A year of four digits. -/
def year? : Text → Option Nat
  | [a, b, c, d] => do
    return Integer.ofDigits [← Text.decimalValue? a, ← Text.decimalValue? b,
      ← Text.decimalValue? c, ← Text.decimalValue? d]
  | _ => none

/-- A month. -/
def month? : Text → Option Nat
  | [c] => digitBetween? 1 9 c
  | ['0', c] => digitBetween? 1 9 c
  | ['1', c] => (digitBetween? 0 2 c).map (10 + ·)
  | _ => none

/-- A day of the month. -/
def dayOfMonth? : Text → Option Nat
  | [c] => digitBetween? 1 9 c
  | [' ', c] => digitBetween? 1 9 c
  | ['0', c] => digitBetween? 1 9 c
  | ['3', c] => (digitBetween? 0 1 c).map (30 + ·)
  | [a, c] => do return 10 * (← digitBetween? 1 2 a) + (← Text.decimalValue? c)
  | _ => none

/-- An hour. -/
def hour? : Text → Option Nat
  | [c] => Text.decimalValue? c
  | ['2', c] => (digitBetween? 0 3 c).map (20 + ·)
  | [a, c] => do return 10 * (← digitBetween? 0 1 a) + (← Text.decimalValue? c)
  | _ => none

/-- A minute or a second. -/
def sixtieth? : Text → Option Nat
  | [c] => Text.decimalValue? c
  | [a, c] => do return 10 * (← digitBetween? 0 5 a) + (← Text.decimalValue? c)
  | _ => none

/-- Cut a text at the first character of the class `p`, which is dropped. -/
def cutAt? (p : Char → Bool) (t : Text) : Option (Text × Text) :=
  match t.dropWhile (!p ·) with
  | [] => none
  | _ :: rest => some (t.takeWhile (!p ·), rest)

/-- A day: `YYYY-MM-DD`. -/
def day? (t : Text) : Option Day := do
  let (y, rest) ← cutAt? (· == '-') t
  let (m, d) ← cutAt? (· == '-') rest
  if m.length = 2 ∧ d.length = 2 ∧ d.all Text.isDecimal then
    Day.ofDate? (← year? y) (← month? m) (← dayOfMonth? d)
  else none

/-- A moment with a time of day: `YYYY-MM-DDTHH:MM` with or without `:SS`. -/
def clock? (t : Text) : Option Moment := do
  let (y, rest) ← cutAt? (· == '-') t
  let (m, rest) ← cutAt? (· == '-') rest
  let (d, rest) ← cutAt? (fun c => c == 'T' || c == 't') rest
  let day ← Day.ofDate? (← year? y) (← month? m) (← dayOfMonth? d)
  let (h, rest) ← cutAt? (· == ':') rest
  let (min, second) ← match cutAt? (· == ':') rest with
    | some (min, s) => do pure (min, ← sixtieth? s)
    | none => pure (rest, 0)
  Moment.ofClock? day (← hour? h) (← sixtieth? min) second 0 none

/-- A moment; a day alone is its midnight. -/
def moment? (t : Text) : Option Moment :=
  match day? t with
  | some d => some (Moment.midnight d)
  | none => clock? t

end Agenda.Typed
