import Agenda.Time.Moment

/-! # Reading ISO 8601

    Days in the extended (`2024-01-15`), basic (`20240115`) and week (`2024-W03-1`, `2024W03`)
    forms, and moments: a day, any one character, and a time of day with or without separators,
    a decimal fraction of the second after a point or a comma (cut after six digits), and `Z`
    or a distance from universal time.  Ordinal days and hour 24 are not read. -/

namespace Agenda.Iso

/-! ## Section 1: Days -/

/-- The number that the first `n` characters write in ASCII digits, and the rest. -/
def digits? : Nat → Text → Option (Nat × Text)
  | n, t =>
    let front := t.take n
    if front.length = n ∧ front.all Char.isDigit then
      some (Integer.ofDigits (front.filterMap Text.asciiDigit?), t.drop n)
    else none

/-- Take the character `c` off the front. -/
def skip? (c : Char) : Text → Option Text
  | d :: rest => if d = c then some rest else none
  | [] => none

/-- The weekday of the first day of a year, Monday being 0. -/
def firstWeekday (y : Nat) : Nat := (Day.daysBeforeYear y + 7) % 7

/-- Has the year 53 weeks?  It has if it begins on a Thursday, or on a Wednesday and is a
    leap year. -/
def hasLongYear (y : Nat) : Bool :=
  firstWeekday y == 3 || (firstWeekday y == 2 && Day.isLeap y)

/-- The day with this year, week and weekday (Monday is 1).  Week 1 has the first Thursday
    of the year. -/
def ofWeek? (y week weekday : Nat) : Option Day :=
  if 1 ≤ y ∧ 1 ≤ week ∧ (week ≤ 52 ∨ (week = 53 ∧ hasLongYear y)) ∧ 1 ≤ weekday ∧ weekday ≤ 7 then
    let f := firstWeekday y
    let monday : Int := (Day.daysBeforeYear y : Int) + 1 - f + (if 3 < f then 7 else 0)
    Day.ofOrdinal? (monday + 7 * ((week : Int) - 1) + weekday - 1)
  else none

/-- The day at the front of a text, in any of the three forms. -/
def leadingDay? (t : Text) : Option Day := do
  let (y, rest) ← digits? 4 t
  let (hyphen, rest) := match rest with
    | '-' :: rest => (true, rest)
    | rest => (false, rest)
  match rest with
  | 'W' :: rest =>
    let (week, rest) ← digits? 2 rest
    match rest with
    | [] => ofWeek? y week 1
    | _ =>
      let rest ← if hyphen then skip? '-' rest else some rest
      let (weekday, _) ← digits? 1 rest
      ofWeek? y week weekday
  | _ =>
    let (m, rest) ← digits? 2 rest
    let rest ← if hyphen then skip? '-' rest else some rest
    let (d, _) ← digits? 2 rest
    Day.ofDate? y m d

/-- A day.  The text must have the length of one of the forms, in UTF-8 bytes.  That leaves
    room for two bytes after the basic form; they are not looked at. -/
def day? (t : Text) : Option Day :=
  let n := (t.map Char.utf8Size).foldl (· + ·) 0
  if n = 7 ∨ n = 8 ∨ n = 10 then leadingDay? t else none

/-! ## Section 2: Times of day -/

/-- The value of up to six digits of a fraction of a second, in microseconds. -/
def fraction? (t : Text) : Option (Nat × Text) := do
  let n := min 6 t.length
  let (value, rest) ← digits? n t
  some (value * Nat.pow 10 (6 - n), rest.dropWhile Char.isDigit)

/-- A time of day as it is read: its parts, and whether the reading used all of the text. -/
structure Clock where
  hour : Nat := 0
  minute : Nat := 0
  second : Nat := 0
  micro : Nat := 0
  complete : Bool := true

/-- Put the value of the part number `i` into a clock: hour, minute, second. -/
def Clock.setPart (k : Clock) (i value : Nat) : Clock :=
  match i with
  | 0 => { k with hour := value }
  | 1 => { k with minute := value }
  | _ => { k with second := value }

/-- Read parts of two digits from part `i` on, `left` of them at most, with colons between
    them or without; a point, a comma or a further separator begins the fraction.  `follower`
    is the character after the text, if there is any. -/
def clockFrom? (follower : Option Char) (colons : Bool) (k : Clock) :
    Nat → Nat → Text → Option Clock
  | 0, _, t => do
    let (micro, rest) ← fraction? t
    some { k with micro := micro, complete := rest = [] && follower.isNone }
  | left + 1, i, t => do
    let (value, rest) ← digits? 2 t
    let k := k.setPart i value
    match rest with
    | [] => some { k with complete := follower.isNone }
    -- one character is left over: a null character counts as the end of the text, and one
    -- of several bytes is no separator
    | [c] =>
      if c = '\x00' then some k
      else if c.toNat < 128 then some { k with complete := false } else none
    | c :: rest =>
      -- the first separator, or its absence, decides for the whole time of day
      let colons := if i = 0 then c == ':' else colons
      if colons && c == ':' then clockFrom? follower colons k left (i + 1) rest
      else if c = '.' ∨ c = ',' then do
        let (micro, rest) ← fraction? rest
        some { k with micro := micro, complete := rest = [] && follower.isNone }
      else if colons then none
      else clockFrom? follower colons k left (i + 1) (c :: rest)

/-- A time of day or a distance. -/
def clock? (follower : Option Char) (t : Text) : Option Clock :=
  clockFrom? follower false {} 3 0 t

/-- The signed distance that a clock reading denotes, less than a day.  A distance of less
    than a second counts as none. -/
def offset? (negative : Bool) (k : Clock) : Option Int :=
  let seconds := (k.hour * 60 + k.minute) * 60 + k.second
  let n := if seconds = 0 then 0 else seconds * 1000000 + k.micro
  if k.complete ∧ n < dayLength then some (if negative then -(n : Int) else n) else none

/-- Does a distance from universal time begin here? -/
def beginsZone (c : Char) : Bool := c == '+' || c == '-' || c == 'Z'

/-- The moment on `d` with the time of day that the text writes. -/
def timeOn? (d : Day) (t : Text) : Option Moment := do
  -- the distance begins at the first sign, for a time of day has none
  let time := t.takeWhile (!beginsZone ·)
  let zone := t.dropWhile (!beginsZone ·)
  let k ← clock? zone.head? time
  let offset ← match zone with
    | [] => if k.complete then some none else none
    | ['Z'] => some (some 0)
    | 'Z' :: _ => none
    | sign :: rest => do
      let o ← clock? none rest
      some (some (← offset? (sign == '-') o))
  Moment.ofClock? d k.hour k.minute k.second k.micro offset

/-! ## Section 3: Moments -/

/-- How many characters the day at the front of the text has.  In `YYYY-Www-…` the hyphen
    belongs to the day unless two digits follow it; in `YYYYWww…` the run of digits tells
    whether a weekday is written, for the digits of a time come in pairs. -/
def dayLength? (t : Text) : Option Nat :=
  let n := t.length
  if n < 7 then none
  else if n = 7 then some 7
  else if t[4]? = some '-' then
    if t[5]? = some 'W' then
      if t[8]? = some '-' then
        -- `YYYY-Www-` with nothing behind is neither a day nor a day and a time
        if n = 9 then none
        else if (t[10]?.map Char.isDigit).getD false then some 8 else some 10
      else some 8
    else some 10
  else if t[4]? = some 'W' then
    let run := 7 + ((t.drop 7).takeWhile Char.isDigit).length
    if run < 9 then some run else if run % 2 = 0 then some 7 else some 8
  else some 8

/-- A moment; a day alone is its midnight. -/
def moment? (t : Text) : Option Moment := do
  let n ← dayLength? t
  let d ← leadingDay? (t.take n)
  match t.drop n with
  | [] => some (Moment.midnight d)
  | _ :: rest => timeOn? d rest

end Agenda.Iso
