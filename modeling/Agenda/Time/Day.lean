import Agenda.Number.Integer

/-! # Calendar days

    A day of the Gregorian calendar, carried back to year 1, is held as its number counted
    from 1 January of year 1.  Comparing days and going some days back are then arithmetic;
    year, month and day of the month are computed when a day is read or written. -/

namespace Agenda

/-- The last day, 31 December 9999. -/
abbrev lastOrdinal : Nat := 3652059

/-- A calendar day, counted from 1 January of year 1. -/
structure Day where
  ordinal : Nat
  pos     : 1 ≤ ordinal
  le_last : ordinal ≤ lastOrdinal

namespace Day

instance : DecidableEq Day := fun a b =>
  if h : a.ordinal = b.ordinal then
    isTrue (by cases a; cases b; cases h; rfl)
  else isFalse (fun e => h (congrArg ordinal e))

instance : LE Day := ⟨fun a b => a.ordinal ≤ b.ordinal⟩
instance : LT Day := ⟨fun a b => a.ordinal < b.ordinal⟩
instance (a b : Day) : Decidable (a ≤ b) := inferInstanceAs (Decidable (a.ordinal ≤ b.ordinal))
instance (a b : Day) : Decidable (a < b) := inferInstanceAs (Decidable (a.ordinal < b.ordinal))

/-- 1 January of year 1. -/
def first : Day := ⟨1, by decide, by decide⟩

instance : Inhabited Day := ⟨first⟩

/-- The day with this number, if it is in the calendar. -/
def ofOrdinal? (n : Int) : Option Day :=
  if h : 1 ≤ n.toNat ∧ n.toNat ≤ lastOrdinal then some ⟨n.toNat, h.1, h.2⟩ else none

/-! ## Section 1: Years and months -/

/-- Is `y` a leap year? -/
def isLeap (y : Nat) : Bool := y % 4 == 0 && (y % 100 != 0 || y % 400 == 0)

/-- The number of days of a month. -/
def daysInMonth (y m : Nat) : Nat :=
  if m = 2 then (if isLeap y then 29 else 28)
  else if m = 4 ∨ m = 6 ∨ m = 9 ∨ m = 11 then 30
  else 31

/-- The days before 1 January of year `y`. -/
def daysBeforeYear (y : Nat) : Nat :=
  let n := y - 1
  n * 365 + n / 4 - n / 100 + n / 400

/-- The days of year `y` before its month `m`. -/
def daysBeforeMonth (y m : Nat) : Nat :=
  ((List.range (m - 1)).map fun i => daysInMonth y (i + 1)).foldl (· + ·) 0

/-- The day with this year, month and day of the month. -/
def ofDate? (y m d : Nat) : Option Day :=
  if 1 ≤ y ∧ y ≤ 9999 ∧ 1 ≤ m ∧ m ≤ 12 ∧ 1 ≤ d ∧ d ≤ daysInMonth y m then
    ofOrdinal? (daysBeforeYear y + daysBeforeMonth y m + d)
  else none

/-- The year that holds the day with `n` days before it: whole cycles of 400, 100, 4 and 1
    years are taken off one after another. -/
def yearOf (n : Nat) : Nat :=
  let n400 := n / 146097
  let r400 := n % 146097
  let n100 := min 3 (r400 / 36524)
  let r100 := r400 - n100 * 36524
  let n4 := r100 / 1461
  let r4 := r100 % 1461
  let n1 := min 3 (r4 / 365)
  400 * n400 + 100 * n100 + 4 * n4 + n1 + 1

/-- The year of a day. -/
def year (d : Day) : Nat := yearOf (d.ordinal - 1)

/-- The place of a day in its year, from 1. -/
def dayOfYear (d : Day) : Nat := d.ordinal - daysBeforeYear d.year

/-- The month of a day. -/
def month (d : Day) : Nat :=
  ((List.range 12).filter fun i => daysBeforeMonth d.year (i + 1) < d.dayOfYear).length

/-- The day of the month. -/
def dayOfMonth (d : Day) : Nat := d.dayOfYear - daysBeforeMonth d.year d.month

/-! ## Section 2: Going back, writing -/

/-- The greatest number of days that a distance may have. -/
def maxDistance : Nat := 999999999

/-- The day `n` days before `d` (after it, if `n` is negative), if the calendar has it. -/
def back? (d : Day) (n : Int) : Option Day :=
  if n.natAbs ≤ maxDistance then ofOrdinal? (d.ordinal - n) else none

/-- A day as year, month and day of the month with hyphens between. -/
def write (d : Day) : Text :=
  Integer.writePadded 4 d.year ++ ['-'] ++ Integer.writePadded 2 d.month ++ ['-'] ++
    Integer.writePadded 2 d.dayOfMonth

end Day

end Agenda
