import Agenda.Filter.Field
import Agenda.Filter.Literal

/-! # Errors in a query

    An error tells its cause and the span of the text that it is about. -/

namespace Agenda.Filter

/-- How many negations and parentheses may be open at once. -/
def maxNesting : Nat := 100

/-- What is wrong with a query. -/
inductive Cause where
  | loneBang
  | unterminatedString
  | invalidNumber (raw : Text)
  | unexpectedCharacter (c : Char)
  | unexpectedToken (raw : Text)
  | expectedBy
  | notSortable (field : Field)
  | tooDeep
  | expectedCloseParen
  | expectedField
  | unknownField (word : Text)
  | unsupported (op : Operator) (field : Field)
  | expectedIn
  | unknownOperator (word : Text)
  | expectedOperator
  | expectedValue
  | expectedCloseBracket
  | expectedNull (op : Operator)
  | comparedWithNull (field : Field)
  | listRefused (op : Operator)
  | unknownStatus (value : Literal)
  | invalidDay (value : Literal)
  | invalidMoment (value : Literal)

/-- The three kinds of causes. -/
inductive CauseKind where
  | general
  | unknownField
  | unknownOperator
  deriving DecidableEq

/-- The kind of a cause. -/
def Cause.kind : Cause → CauseKind
  | unknownField _ => .unknownField
  | loneBang | unsupported _ _ | unknownOperator _ => .unknownOperator
  | _ => .general

/-- A text between single quotes, as it is. -/
def enclose (t : Text) : Text := '\'' :: t ++ ['\'']

/-- The wording of a cause. -/
def Cause.message : Cause → Text
  | loneBang => "Expected '=' or '~' after '!'".toList
  | unterminatedString => "Unterminated string literal".toList
  | invalidNumber raw => "Invalid number: ".toList ++ raw
  | unexpectedCharacter c => "Unexpected character: ".toList ++ enclose [c]
  | unexpectedToken raw => "Unexpected token ".toList ++ enclose raw
  | expectedBy => "Expected 'BY' after 'ORDER'".toList
  | notSortable field => "Cannot order by field ".toList ++ enclose field.name
  | tooDeep =>
    "Query nested too deeply (more than ".toList ++ Integer.writeNat maxNesting ++
      " levels)".toList
  | expectedCloseParen => "Expected closing ')'".toList
  | expectedField => "Expected field name".toList
  | unknownField word => "Unknown field: ".toList ++ enclose word
  | unsupported op field =>
    "Operator ".toList ++ enclose op.symbol ++ " is not supported for field ".toList ++
      enclose field.name
  | expectedIn => "Expected 'IN' after 'NOT'".toList
  | unknownOperator word => "Unknown operator: ".toList ++ enclose word
  | expectedOperator => "Expected operator".toList
  | expectedValue => "Expected value".toList
  | expectedCloseBracket => "Expected ']'".toList
  | expectedNull op => "Expected 'null' after ".toList ++ enclose op.symbol
  | comparedWithNull field =>
    "Use 'IS NULL' to compare ".toList ++ enclose field.name ++ " with null".toList
  | listRefused op => "Operator ".toList ++ enclose op.symbol ++ " does not accept a list".toList
  | unknownStatus value => "Unknown status: ".toList ++ value.inspect
  | invalidDay value =>
    "Invalid date: ".toList ++ value.inspect ++ " (expected YYYY-MM-DD)".toList
  | invalidMoment value =>
    "Invalid datetime: ".toList ++ value.inspect ++
      " (expected YYYY-MM-DD or YYYY-MM-DDTHH:MM[:SS])".toList

/-- An error in a query: its cause and the span it is about. -/
structure QueryError where
  cause : Cause
  start : Nat
  stop  : Nat

/-- The wording of an error. -/
def QueryError.message (e : QueryError) : Text := e.cause.message

/-- The wording of an error with its span. -/
def QueryError.text (e : QueryError) : Text :=
  e.message ++ " (at position ".toList ++ Integer.writeNat e.start ++ "..".toList ++
    Integer.writeNat e.stop ++ [')']

end Agenda.Filter
