import Agenda.Datum

/-! # Documents as text

    A document is written as null, true, false, a number, a text between double quotes, a list
    between brackets, or a map between braces, with commas between items and a colon after each
    key.  A day and a moment are written as texts.  A blank text is the null document. -/

namespace Agenda.Datum.Flow

/-! ## Section 1: Texts -/

/-- Blanks between values. -/
def isSpace (c : Char) : Bool := c == ' ' || c == '\t' || c == '\n' || c == '\r'

/-- A text without the blanks at its front. -/
def skip (t : Text) : Text := t.dropWhile isSpace

/-- The value of a hexadecimal digit. -/
def hexDigit? (c : Char) : Option Nat :=
  if '0' ≤ c ∧ c ≤ '9' then some (c.toNat - 48)
  else if 'a' ≤ c ∧ c ≤ 'f' then some (c.toNat - 87)
  else if 'A' ≤ c ∧ c ≤ 'F' then some (c.toNat - 55)
  else none

/-- The value of four hexadecimal digits. -/
def unit? (a b c d : Char) : Option Nat := do
  return ((← hexDigit? a) * 16 + (← hexDigit? b)) * 256 + (← hexDigit? c) * 16 + (← hexDigit? d)

/-- The characters that a backslash and a letter stand for. -/
def escapes : List (Char × Char) :=
  [('"', '"'), ('\\', '\\'), ('/', '/'), ('b', '\x08'), ('f', '\x0c'), ('n', '\n'),
    ('r', '\r'), ('t', '\t')]

/-- The character of a pair of units above the first plane. -/
def pairedChar (high low : Nat) : Char :=
  Char.ofNat (0x10000 + (high - 0xD800) * 0x400 + (low - 0xDC00))

/-- Is the unit the first of a pair? -/
def isHigh (n : Nat) : Bool := 0xD800 ≤ n && n < 0xDC00

/-- A text after its opening quote, and what follows its closing one. -/
def readText : Text → Option (Text × Text)
  | [] => none
  | '"' :: rest => some ([], rest)
  | '\\' :: 'u' :: a :: b :: c :: d :: rest => do
    let n ← unit? a b c d
    if isHigh n then
      match rest with
      | '\\' :: 'u' :: e :: f :: g :: h :: rest => do
        let low ← unit? e f g h
        let (t, rest) ← readText rest
        return (pairedChar n low :: t, rest)
      | _ => none
    else
      let (t, rest) ← readText rest
      return (Char.ofNat n :: t, rest)
  | '\\' :: c :: rest => do
    let e ← (escapes.find? (·.1 == c)).map (·.2)
    let (t, rest) ← readText rest
    return (e :: t, rest)
  | c :: rest => do
    let (t, rest) ← readText rest
    return (c :: t, rest)

/-- How one character is written inside quotes. -/
def writeChar (c : Char) : Text :=
  match escapes.find? fun e => e.2 == c && c != '/' with
  | some (letter, _) => ['\\', letter]
  | none => if c.toNat < 0x20 then "\\u".toList ++ Text.hexadecimal 4 c.toNat else [c]

/-- A text between double quotes. -/
def writeText (t : Text) : Text := '"' :: t.flatMap writeChar ++ ['"']

/-! ## Section 2: Reading -/

/-- Characters of a word or a number. -/
def isWordChar (c : Char) : Bool := c.isAlphanum || c == '+' || c == '-' || c == '.'

/-- The value that a word or a number stands for. -/
def readWord? (t : Text) : Option Datum :=
  if t = "null".toList then some .null
  else if t = "true".toList then some (.truth true)
  else if t = "false".toList then some (.truth false)
  else match Integer.read? t with
    | some n => some (.integer n)
    | none => (Binary64.read? (t.map Char.toLower)).map .number

mutual

/-- A value at the front of a text, and what follows it.  `fuel` bounds how deep it is. -/
def readValue (fuel : Nat) (t : Text) : Option (Datum × Text) :=
  match fuel with
  | 0 => none
  | fuel + 1 =>
    match skip t with
    | '"' :: rest => (readText rest).map fun r => (.text r.1, r.2)
    | '[' :: rest =>
      match skip rest with
      | ']' :: rest => some (.list [], rest)
      | rest => (readItems fuel rest).map fun r => (.list r.1, r.2)
    | '\x7b' :: rest =>
      match skip rest with
      | '\x7d' :: rest => some (.map [], rest)
      | rest => (readEntries fuel rest).map fun r => (.map r.1, r.2)
    | t => (readWord? (t.takeWhile isWordChar)).map fun v => (v, t.dropWhile isWordChar)

/-- The items of a list up to its closing bracket. -/
def readItems (fuel : Nat) (t : Text) : Option (List Datum × Text) :=
  match fuel with
  | 0 => none
  | fuel + 1 => do
    let (v, rest) ← readValue fuel t
    match skip rest with
    | ',' :: rest => do
      let (more, rest) ← readItems fuel rest
      return (v :: more, rest)
    | ']' :: rest => return ([v], rest)
    | _ => none

/-- The entries of a map up to its closing brace. -/
def readEntries (fuel : Nat) (t : Text) : Option (List (Text × Datum) × Text) :=
  match fuel with
  | 0 => none
  | fuel + 1 =>
    match skip t with
    | '"' :: rest => do
      let (key, rest) ← readText rest
      match skip rest with
      | ':' :: rest => do
        let (v, rest) ← readValue fuel rest
        match skip rest with
        | ',' :: rest => do
          let (more, rest) ← readEntries fuel rest
          return ((key, v) :: more, rest)
        | '\x7d' :: rest => return ([(key, v)], rest)
        | _ => none
      | _ => none
    | _ => none

end

/-- The document that a text writes. -/
def read? (t : Text) : Option Datum :=
  if skip t = [] then some .null
  else match readValue (2 * t.length + 1) t with
    | some (v, rest) => if skip rest = [] then some v else none
    | none => none

/-! ## Section 3: Writing -/

/-- A new line with a margin. -/
def newLine (margin : Nat) : Text := '\n' :: List.replicate margin ' '

/-- How much further items stand to the right. -/
def indent : Nat := 2

mutual

/-- A document over several lines, all but the first with a margin. -/
def write (margin : Nat) : Datum → Text
  | null => "null".toList
  | truth true => "true".toList
  | truth false => "false".toList
  | integer n => Integer.write n
  | number x => x.write
  | text t => writeText t
  | day d => writeText d.write
  | moment m => writeText (m.write 'T')
  | list [] => "[]".toList
  | list items => '[' :: writeItems (margin + indent) items ++ newLine margin ++ [']']
  | map [] => ['\x7b', '\x7d']
  | map entries =>
    '\x7b' :: writeEntries (margin + indent) entries ++ newLine margin ++ ['\x7d']

/-- Values on lines of their own. -/
def writeItems (margin : Nat) : List Datum → Text
  | [] => []
  | [v] => newLine margin ++ write margin v
  | v :: rest => newLine margin ++ write margin v ++ [','] ++ writeItems margin rest

/-- Entries on lines of their own. -/
def writeEntries (margin : Nat) : List (Text × Datum) → Text
  | [] => []
  | [(k, v)] => newLine margin ++ writeText k ++ ": ".toList ++ write margin v
  | (k, v) :: rest =>
    newLine margin ++ writeText k ++ ": ".toList ++ write margin v ++ [','] ++
      writeEntries margin rest

end

end Agenda.Datum.Flow
