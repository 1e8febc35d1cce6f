import Agenda.Number.Binary64
import Agenda.Text.Quoted
import Agenda.Time.Moment

/-! # Values in a query

    A typed query has texts, truth values, the null value and lists.  Queries made by a program
    may also hold numbers, days and moments.

    A value is written in the query language (`Literal.render`), as plain text for a comparison
    (`Literal.asText?`), and for messages (`Literal.inspect`). -/

namespace Agenda.Filter

/-- A value in a query. -/
inductive Literal where
  | null
  | truth (b : Bool)
  | integer (n : Int)
  | number (x : Binary64)
  | text (t : Text)
  | day (d : Day)
  | moment (m : Moment)
  | list (items : List Literal)
  deriving Inhabited

namespace Literal

/-- The text of a value that is neither null nor a list. -/
def asText? : Literal → Option Text
  | null => none
  | truth true => some "true".toList
  | truth false => some "false".toList
  | integer n => some (Integer.write n)
  | number x => some x.writePositional
  | text t => some t
  | day d => some d.write
  | moment m => some (m.write ' ')
  | list _ => none

/-- The items of a list; any other value is its own only item. -/
def items : Literal → List Literal
  | list items => items
  | v => [v]

/-- Is the value a list? -/
def isList : Literal → Bool
  | list _ => true
  | _ => false

/-- A text between single quotes, with a backslash before backslashes and single quotes. -/
def renderText (t : Text) : Text :=
  '\'' :: t.flatMap (fun c => if c = '\\' ∨ c = '\'' then ['\\', c] else [c]) ++ ['\'']

mutual

/-- A value in the query language. -/
def render : Literal → Text
  | null => "null".toList
  | truth true => "true".toList
  | truth false => "false".toList
  | number x => x.writePositional
  | integer n => renderText (Integer.write n)
  | text t => renderText t
  | day d => renderText d.write
  | moment m => renderText (m.write ' ')
  | list items => '[' :: renderItems items ++ [']']

/-- Values with commas between. -/
def renderItems : List Literal → Text
  | [] => []
  | [v] => render v
  | v :: rest => render v ++ ", ".toList ++ renderItems rest

end

mutual

/-- A value as messages show it. -/
def inspect : Literal → Text
  | null => "None".toList
  | truth true => "True".toList
  | truth false => "False".toList
  | integer n => Integer.write n
  | number x => x.write
  | text t => Text.quoted t
  | day d => d.inspect
  | moment m => m.inspect
  | list [v] => '(' :: inspect v ++ ",)".toList
  | list items => '(' :: inspectItems items ++ [')']

/-- Values as messages show them, with commas between. -/
def inspectItems : List Literal → Text
  | [] => []
  | [v] => inspect v
  | v :: rest => inspect v ++ ", ".toList ++ inspectItems rest

end

end Literal

end Agenda.Filter
