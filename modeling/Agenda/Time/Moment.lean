import Agenda.Time.Day

/-! # Moments and time stamps

    A moment is a time of day on a calendar day, to the microsecond, with or without the
    distance of its clock from universal time.  Where moments are compared the distance is
    dropped: a moment counts as what its own clock shows.  A stamp is what a time field of a
    task holds, a whole day or a moment. -/

namespace Agenda

/-- Microseconds in a day. -/
abbrev dayLength : Nat := 86400000000

/-- A time of day on a day. -/
structure Moment where
  day    : Day
  /-- Microseconds since midnight. -/
  micros : Nat
  micros_lt : micros < dayLength := by decide
  /-- How far the clock is ahead of universal time, in microseconds. -/
  offset : Option Int := none
  deriving DecidableEq

namespace Moment

/-- The first moment of a day. -/
def midnight (d : Day) : Moment := { day := d, micros := 0 }

/-- The moment with these hours, minutes, seconds and microseconds. -/
def ofClock? (d : Day) (hour minute second micro : Nat) (offset : Option Int) :
    Option Moment :=
  let m := ((hour * 60 + minute) * 60 + second) * 1000000 + micro
  if h : (hour < 24 ∧ minute < 60 ∧ second < 60 ∧ micro < 1000000) ∧ m < dayLength then
    some { day := d, micros := m, micros_lt := h.2, offset := offset }
  else none

/-- The same clock reading without its distance from universal time. -/
def dropOffset (m : Moment) : Moment := { m with offset := none }

/-- The microseconds from the start of the calendar to what the clock shows. -/
def reading (m : Moment) : Nat := m.day.ordinal * dayLength + m.micros

/-- The hours of the time of day. -/
def hour (m : Moment) : Nat := m.micros / 3600000000

/-- The minutes of the time of day. -/
def minute (m : Moment) : Nat := m.micros / 60000000 % 60

/-- The seconds of the time of day. -/
def second (m : Moment) : Nat := m.micros / 1000000 % 60

/-- The microseconds of the time of day. -/
def microsecond (m : Moment) : Nat := m.micros % 1000000

/-- A distance from universal time: sign, hours and minutes, and what is finer only when it
    is not zero. -/
def writeOffset (offset : Int) : Text :=
  let n := offset.natAbs
  let seconds := n / 1000000 % 60
  let micros := n % 1000000
  (if offset < 0 then ['-'] else ['+']) ++ Integer.writePadded 2 (n / 3600000000) ++ [':'] ++
    Integer.writePadded 2 (n / 60000000 % 60) ++
    (if seconds = 0 ∧ micros = 0 then [] else ':' :: Integer.writePadded 2 seconds) ++
    (if micros = 0 then [] else '.' :: Integer.writePadded 6 micros)

/-- A moment with `separator` between the day and the time: the seconds are always written,
    microseconds only when they are not zero. -/
def write (separator : Char) (m : Moment) : Text :=
  m.day.write ++ [separator] ++ Integer.writePadded 2 m.hour ++ [':'] ++
    Integer.writePadded 2 m.minute ++ [':'] ++ Integer.writePadded 2 m.second ++
    (if m.microsecond = 0 then [] else '.' :: Integer.writePadded 6 m.microsecond) ++
    (match m.offset with
      | some o => writeOffset o
      | none => [])

end Moment

/-! ## Days and moments in messages

    A message shows a day or a moment as the call that would make it. -/

/-- A call with its arguments. -/
def showCall (name : String) (args : List Text) : Text :=
  name.toList ++ ['('] ++ Text.join ", ".toList args ++ [')']

/-- A day as messages show it. -/
def Day.inspect (d : Day) : Text :=
  showCall "datetime.date" ([d.year, d.month, d.dayOfMonth].map Integer.writeNat)

/-- A distance from universal time as messages show it: whole days, seconds and microseconds,
    where only the days may be negative. -/
def Moment.inspectOffset (offset : Int) : Text :=
  if offset = 0 then "datetime.timezone.utc".toList
  else
    let days := Int.fdiv offset 86400000000
    let rest := (offset - days * 86400000000).toNat
    let part (label : String) (n : Int) : List Text :=
      if n = 0 then [] else [label.toList ++ ['='] ++ Integer.write n]
    let distance := showCall "datetime.timedelta"
      (part "days" days ++ part "seconds" (rest / 1000000) ++
        part "microseconds" (rest % 1000000 : Nat))
    showCall "datetime.timezone" [distance]

/-- A moment as messages show it: what is finer than the minute only as far as it is not
    zero. -/
def Moment.inspect (m : Moment) : Text :=
  let d := m.day
  let fine := if m.microsecond ≠ 0 then [m.second, m.microsecond]
    else if m.second ≠ 0 then [m.second] else []
  let zone := match m.offset with
    | some o => ["tzinfo=".toList ++ inspectOffset o]
    | none => []
  showCall "datetime.datetime"
    (([d.year, d.month, d.dayOfMonth, m.hour, m.minute] ++ fine).map Integer.writeNat ++ zone)

/-- What a time field holds: a whole day or a moment. -/
inductive Stamp where
  | day (d : Day)
  | moment (m : Moment)
  deriving DecidableEq

namespace Stamp

/-- The calendar day of a stamp. -/
def toDay : Stamp → Day
  | day d => d
  | moment m => m.day

/-- A stamp as a moment without distance from universal time; a day is its midnight. -/
def toMoment : Stamp → Moment
  | day d => Moment.midnight d
  | moment m => m.dropOffset

/-- A stamp with a `T` before the time of day, if it has one. -/
def write : Stamp → Text
  | day d => d.write
  | moment m => m.write 'T'

end Stamp

end Agenda
