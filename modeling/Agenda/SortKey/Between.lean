import Agenda.SortKey.Basic

/-! # Keys between keys

    A new key between two neighbours, either of which may be missing, and runs of new keys.
    Between integer parts that leave room the next integer part is taken, so keys grow slowly
    under appending and prepending; otherwise a fraction strictly between is made. -/

namespace Agenda.SortKey

/-! ## Section 1: Fractions -/

/-- A fraction above `a` and below one: the first digit that leaves room is moved half way
    up. -/
def fractionAbove? : Text → Option Text
  | [] => some [digit 31]
  | c :: rest => do
    let d ← value? c
    -- 61 is the last digit: nothing is above it, so a later digit has to make room
    if d = 61 then return c :: (← fractionAbove? rest)
    else return [digit ((d + 63) / 2)]

/-- A fraction strictly between `a` and `b`.  The digits that both share are kept, where `a`
    goes on with zeros when it has ended. -/
def fractionInside? : Text → Text → Option Text
  | _, [] => none
  | a, y :: ys =>
    let x := a.headD '0'
    if x = y then (fractionInside? a.tail ys).map (y :: ·)
    else do
      let dx ← value? x
      let dy ← value? y
      if 1 < dy - dx then some [digit ((dx + dy + 1) / 2)]
      -- the digits are neighbours: `y` alone is below `b` if `b` goes on after it
      else if ys ≠ [] then some [y]
      else return x :: (← fractionAbove? a.tail)

/-- Does the fraction end in a zero? -/
def endsInZero (a : Text) : Bool := a.getLast? == some '0'

/-- A fraction strictly between `a` and `b`, where no `b` stands for one. -/
def midpoint (a : Text) (b : Option Text) : Except KeyError Text := do
  if let some b := b then
    if ¬a < b then throw (.fractionsOutOfOrder a b)
  if endsInZero a || (b.map endsInZero).getD false then throw (.trailingZero a b)
  let m := match b with
    | none => fractionAbove? a
    | some b => fractionInside? a b
  match m with
  | some m => return m
  | none => throw .unknownDigit

/-! ## Section 2: One key -/

/-- The key of the first item of an empty list. -/
def defaultKey : Text := "a0".toList

/-- A key below the valid key `after`. -/
def below (after : Text) : Except KeyError Text :=
  let int := integerPart after
  if int = smallestInteger then (int ++ ·) <$> midpoint [] (some (fractionPart after))
  -- `after` has a fraction, so its integer part alone is below it
  else if int < after then .ok int
  else match decrementInteger? int with
    | some k => .ok k
    | none => .error (.noIntegerBelow none (some after))

/-- A key above the valid key `before`. -/
def above (before : Text) : Except KeyError Text :=
  let int := integerPart before
  match incrementInteger? int with
  | some k => .ok k
  | none => (int ++ ·) <$> midpoint (fractionPart before) none

/-- A key between two valid keys in order. -/
def inside (before after : Text) : Except KeyError Text :=
  let int := integerPart before
  if int = integerPart after then
    (int ++ ·) <$> midpoint (fractionPart before) (some (fractionPart after))
  else match incrementInteger? int with
    | none => .error (.noIntegerAbove (some before) (some after))
    | some k =>
      -- the next integer may be `after` itself; then `before` gets a larger fraction
      if k < after then .ok k
      else (int ++ ·) <$> midpoint (fractionPart before) none

/-- A key strictly between two bounds, each of which may be missing. -/
def between (before after : Option Text) : Except KeyError Text := do
  if let some a := before then validate a
  if let some b := after then validate b
  match before, after with
  | none, none => return defaultKey
  | none, some b => below b
  | some a, none => above a
  | some a, some b => if a < b then inside a b else throw (.boundsOutOfOrder a b)

/-- A key after the last one of a list. -/
def afterLast (last : Option Text) : Except KeyError Text := between last none

/-! ## Section 3: Many keys -/

/-- `n` ascending keys above a bound, each made after the one before. -/
def manyAfter (last : Option Text) : Nat → Except KeyError (List Text)
  | 0 => .ok []
  | n + 1 => do
    let k ← between last none
    return k :: (← manyAfter (some k) n)

/-- `n` ascending keys below a bound, each made before the one after. -/
def manyBefore (first : Option Text) : Nat → Except KeyError (List Text)
  | 0 => .ok []
  | n + 1 => do
    let k ← between none first
    return (← manyBefore (some k) n) ++ [k]

/-- `n` ascending keys between two bounds: one in the middle, and the others shared out
    between its two sides. -/
def manyInside (before after : Text) : Nat → Except KeyError (List Text)
  | 0 => .ok []
  | n + 1 => do
    let k ← between (some before) (some after)
    let left ← manyInside before k ((n + 1) / 2)
    let right ← manyInside k after (n - (n + 1) / 2)
    return left ++ k :: right
termination_by n => n

/-- `n` ascending keys strictly between two bounds, each of which may be missing. -/
def many (before after : Option Text) (n : Nat) : Except KeyError (List Text) :=
  match before, after with
  | _, none => manyAfter before n
  | none, some _ => manyBefore after n
  | some a, some b => manyInside a b n

/-- `count` ascending keys strictly between two bounds; a negative count is refused. -/
def keysBetween (before after : Option Text) (count : Int) : Except KeyError (List Text) :=
  if count < 0 then .error .negativeCount else many before after count.toNat

/-- Fresh keys for a list of `count` items. -/
def rebalance (count : Int) : Except KeyError (List Text) := keysBetween none none count

end Agenda.SortKey
