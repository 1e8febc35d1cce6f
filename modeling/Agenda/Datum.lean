import Agenda.Number.Binary64
import Agenda.Text.Quoted
import Agenda.Time.Moment

/-! # Values of a document

    A document holds null, truth values, numbers, texts, days, moments, lists, and maps from
    texts to values.  A value that is used as a text gives its plain form; one that is used as
    an integer gives it, or tells why it cannot.

    A file may also have maps with keys that are no texts.  No reader looks anything up under
    such a key, and maps have no place for them here: whatever is said of documents is said of
    those whose keys are texts. -/

namespace Agenda

/-- A value of a document.  The keys of its maps are texts. -/
inductive Datum where
  | null
  | truth (b : Bool)
  | integer (n : Int)
  | number (x : Binary64)
  | text (t : Text)
  | day (d : Day)
  | moment (m : Moment)
  | list (items : List Datum)
  | map (entries : List (Text × Datum))
  deriving Inhabited

namespace Datum

/-! ## Section 1: Values as texts -/

mutual

/-- A value as messages show it. -/
def inspect : Datum → Text
  | null => "None".toList
  | truth true => "True".toList
  | truth false => "False".toList
  | integer n => Integer.write n
  | number x => x.write
  | text t => Text.quoted t
  | day d => d.inspect
  | moment m => m.inspect
  | list items => '[' :: inspectItems items ++ [']']
  | map entries => '\x7b' :: inspectEntries entries ++ ['\x7d']

/-- Values as messages show them, with commas between. -/
def inspectItems : List Datum → Text
  | [] => []
  | [v] => inspect v
  | v :: rest => inspect v ++ ", ".toList ++ inspectItems rest

/-- Entries as messages show them, with commas between. -/
def inspectEntries : List (Text × Datum) → Text
  | [] => []
  | [(k, v)] => Text.quoted k ++ ": ".toList ++ inspect v
  | (k, v) :: rest =>
    Text.quoted k ++ ": ".toList ++ inspect v ++ ", ".toList ++ inspectEntries rest

end

/-- The plain text of a value: a text is its own. -/
def plain : Datum → Text
  | text t => t
  | day d => d.write
  | moment m => m.write ' '
  | v => v.inspect

/-- The word for the kind of a value. -/
def kindWord : Datum → Text
  | null => "NoneType".toList
  | truth _ => "bool".toList
  | integer _ => "int".toList
  | number _ => "float".toList
  | text _ => "str".toList
  | day _ => "date".toList
  | moment _ => "datetime".toList
  | list _ => "list".toList
  | map _ => "dict".toList

/-! ## Section 2: Absence -/

/-- Does the value stand for nothing: null, false, zero, or an empty text, list or map? -/
def isEmpty : Datum → Bool
  | null => true
  | truth b => !b
  | integer n => n == 0
  | number x => x.isZero
  | text t => t.isEmpty
  | list items => items.isEmpty
  | map entries => entries.isEmpty
  | day _ | moment _ => false

/-- Is no value given: null, or an empty text? -/
def isMissing : Datum → Bool
  | null => true
  | text t => t.isEmpty
  | _ => false

/-- The plain text of a value, empty for a value that stands for nothing. -/
def plainOrEmpty (v : Datum) : Text := if v.isEmpty then [] else v.plain

theorem plainOrEmpty_text (t : Text) : (text t).plainOrEmpty = t := by
  cases t <;> rfl

/-- The value of a key; null, if the map lacks it. -/
def entry (entries : List (Text × Datum)) (key : Text) : Datum :=
  ((entries.find? (·.1 == key)).map (·.2)).getD null

/-! ### Integers that are too long -/

mutual

/-- Is there an integer in the value that is too long to be written? -/
def hasLongInteger : Datum → Bool
  | integer n => Integer.isTooLong n
  | list items => anyLongInteger items
  | map entries => anyLongIntegerIn entries
  | _ => false

/-- Is there one in one of the values? -/
def anyLongInteger : List Datum → Bool
  | [] => false
  | v :: rest => hasLongInteger v || anyLongInteger rest

/-- Is there one in one of the entries? -/
def anyLongIntegerIn : List (Text × Datum) → Bool
  | [] => false
  | (_, v) :: rest => hasLongInteger v || anyLongIntegerIn rest

end

/-- Why a value cannot be written: an integer in it is too long. -/
structure LongInteger where
  deriving DecidableEq

/-- The wording of the error. -/
def LongInteger.message (_ : LongInteger) : Text :=
  "Exceeds the limit (".toList ++ Integer.writeNat Integer.maxDigits ++
    " digits) for integer string conversion; ".toList ++
    "use sys.set_int_max_str_digits() to increase the limit".toList

/-- The plain text of a value that can be written. -/
def toPlain (v : Datum) : Except LongInteger Text :=
  if v.hasLongInteger then .error ⟨⟩ else .ok v.plain

/-- The plain text of a value that can be written, empty for one that stands for nothing. -/
def toText (v : Datum) : Except LongInteger Text :=
  if v.hasLongInteger then .error ⟨⟩ else .ok v.plainOrEmpty

/-! ## Section 3: Values as integers -/

/-- Why a value is no integer. -/
inductive IntegerFault where
  | notNumeral (t : Text)
  | tooLong (digits : Nat)
  | notANumber
  | infinite
  | wrongKind
  deriving DecidableEq

/-- How much of a text a message about a numeral shows. -/
def shownLength : Nat := 200

/-- The wording of a fault. -/
def IntegerFault.message : IntegerFault → Text
  | notNumeral t =>
    "invalid literal for int() with base 10: ".toList ++ (Text.quoted t).take shownLength
  | tooLong digits =>
    "Exceeds the limit (".toList ++ Integer.writeNat Integer.maxDigits ++
      " digits) for integer string conversion: value has ".toList ++ Integer.writeNat digits ++
      " digits; use sys.set_int_max_str_digits() to increase the limit".toList
  | notANumber => "cannot convert float NaN to integer".toList
  | infinite => "cannot convert float infinity to integer".toList
  | wrongKind => "not a number".toList

/-- The integer that a text writes. -/
def ofNumeral (t : Text) : Except IntegerFault Int :=
  match Integer.read? t with
  | some n => .ok n
  | none =>
    match Integer.numeralLength? t with
    | some digits => .error (.tooLong digits)
    | none => .error (.notNumeral t)

/-- The integer that a value stands for: truth values count as 0 and 1, and what a number has
    after the point is dropped. -/
def toInteger : Datum → Except IntegerFault Int
  | truth b => .ok (if b then 1 else 0)
  | integer n => .ok n
  | number (.finite negative m e) =>
    .ok (((Binary64.finite negative m e).truncate?).getD 0)
  | number (.infinite _) => .error .infinite
  | number .nan => .error .notANumber
  | text t => ofNumeral t
  | _ => .error .wrongKind

/-- The integer that a value is: no truth value, and nothing after the point. -/
def integer? : Datum → Option Int
  | truth _ => none
  | number x => if x.isInteger then x.truncate? else none
  | v => v.toInteger.toOption

end Datum

end Agenda
