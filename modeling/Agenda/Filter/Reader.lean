import Agenda.Filter.Expr
import Agenda.Filter.Token
import Agenda.Task
import Agenda.Time.Typed

/-! # Reading queries

    Grammar:

    * `query     := [or] [ORDER BY field [ASC | DESC]]`
    * `or        := and (OR and)*`
    * `and       := unary ([AND] unary)*`, so neighbours are joined without a word
    * `unary     := NOT unary | '(' or ')' | condition`
    * `condition := field operator value`
    * `operator  := = | != | =~ | !~ | > | < | >= | <= | IS [NOT] | IN | NOT IN`
    * `value     := string | number | word | '[' [value (',' value)*] ']'`

    The reader takes one token after another and keeps a stack of what is open: negations that
    wait for their operand, and groups that wait for their closing parenthesis.  Every token
    makes one step, so reading ends, and an error is found at the first token that cannot go
    on the text before it. -/

namespace Agenda.Filter

namespace Reader

/-! ## Section 1: What is open -/

/-- What has been read of a group: the operands of `OR` but the last, joined, and the operands
    of `AND` in the last, joined. -/
structure Group where
  alternatives : Option Expr := none
  factors      : Option Expr := none

namespace Group

/-- Join an operand to the conjunction. -/
def addFactor (g : Group) (e : Expr) : Group :=
  { g with factors := some (match g.factors with
      | some l => .and l e
      | none => e) }

/-- The whole group. -/
def result (g : Group) : Option Expr :=
  match g.alternatives, g.factors with
  | some l, some r => some (.or l r)
  | some l, none => some l
  | none, r => r

/-- Begin the next operand of `OR`. -/
def nextAlternative (g : Group) : Group := { alternatives := g.result, factors := none }

end Group

/-- Something open: a negation, or a group with what was read outside before it. -/
inductive Frame where
  | negation
  | group (outer : Group)

/-- Where in a list the reader is. -/
inductive ListPlace where
  | first
  | item
  | separator
  deriving DecidableEq

/-- What the reader expects next. -/
inductive Mode where
  /-- A query. -/
  | start
  /-- An operand. -/
  | operand
  /-- An operator for the field. -/
  | operator (field : Field)
  /-- What follows `IS`, which has the span `start` to `stop`. -/
  | afterIs (field : Field) (start stop : Nat)
  /-- The `IN` of `NOT IN`, which begins at `start`. -/
  | afterNot (field : Field) (start : Nat)
  /-- A value. -/
  | value (field : Field) (op : Operator)
  /-- More of a list that begins at `start`: the items of the innermost list and of the lists
      around it. -/
  | list (field : Field) (op : Operator) (start : Nat) (items : List Literal)
      (outer : List (List Literal)) (place : ListPlace)
  /-- A connective, or what ends the group. -/
  | connective
  /-- The `BY` of `ORDER BY`. -/
  | order
  /-- The field to order by. -/
  | orderField
  /-- A direction or the end. -/
  | orderDirection (field : Field)
  /-- The end. -/
  | finish

/-- A reader in the middle of a query. -/
structure State where
  frames  : List Frame := []
  group   : Group := {}
  mode    : Mode := .start
  orderBy : Option OrderBy := none

/-- An error at a token. -/
def fail {α : Type} (cause : Cause) (token : Token) : Except QueryError α :=
  .error ⟨cause, token.start, token.stop⟩

/-! ## Section 2: Conditions -/

/-- Why a field cannot be compared with one item. -/
def checkItem (field : Field) (item : Literal) : Option Cause :=
  let text := match item with
    | .text t => some t
    | _ => none
  match field.kind with
  | .status => if (text.bind Status.ofWord?).isNone then some (.unknownStatus item) else none
  | .day => if (text.bind Typed.day?).isNone then some (.invalidDay item) else none
  | .moment => if (text.bind Typed.moment?).isNone then some (.invalidMoment item) else none
  | _ => none

/-- Is the value null? -/
def isNull : Literal → Bool
  | .null => true
  | _ => false

/-- Why a field cannot be compared with a value by an operator. -/
def checkValue (field : Field) (op : Operator) (value : Literal) : Option Cause :=
  if op = .is ∨ op = .isNot then
    if isNull value then none else some (.expectedNull op)
  else if isNull value then some (.comparedWithNull field)
  else if value.isList ∧ op ≠ .isIn ∧ op ≠ .notIn then some (.listRefused op)
  else value.items.findSome? (checkItem field)

/-- The value that a token is on its own. -/
def single? (token : Token) : Option Literal :=
  match token.lexeme with
  | .string t => some (.text t)
  | .number t => some (.text t)
  | .word w =>
    let small := Text.lower w
    if small = "null".toList then some .null
    else if small = "true".toList then some (.truth true)
    else if small = "false".toList then some (.truth false)
    else some (.text w)
  | _ => none

/-- Give an operand to the innermost open construct: pending negations take it, and the group
    around them takes what they make. -/
def addOperand (e : Expr) : List Frame → Group → List Frame × Group
  | .negation :: frames, group => addOperand (.not e) frames group
  | frames, group => (frames, group.addFactor e)

/-- Go on after a complete operand. -/
def State.withOperand (s : State) (e : Expr) : State :=
  let (frames, group) := addOperand e s.frames s.group
  { s with frames := frames, group := group, mode := .connective }

/-- Go on after an operator with the given span, if the field accepts it. -/
def State.withOperator (s : State) (field : Field) (op : Operator) (start stop : Nat) :
    Except QueryError State :=
  if field.accepts op then .ok { s with mode := .value field op }
  else .error ⟨.unsupported op field, start, stop⟩

/-- Go on after a complete value with the given span, if it fits field and operator. -/
def State.withValue (s : State) (field : Field) (op : Operator) (value : Literal)
    (start stop : Nat) : Except QueryError State :=
  match checkValue field op value with
  | some cause => .error ⟨cause, start, stop⟩
  | none => .ok (s.withOperand (.cond ⟨field, op, value⟩))

/-! ## Section 3: One token -/

/-- The field that a token names. -/
def readField (token : Token) : Except QueryError Field :=
  match token.lexeme with
  | .word w =>
    match Field.find? w with
    | some field => .ok field
    | none => fail (.unknownField w) token
  | _ => fail .expectedField token

/-- Open one more construct. -/
def State.push (s : State) (frame : Frame) (group : Group) (token : Token) :
    Except QueryError State :=
  if s.frames.length < maxNesting then
    .ok { s with frames := frame :: s.frames, group := group, mode := .operand }
  else fail .tooDeep token

/-- Is the token an opening parenthesis? -/
def isOpenParen (token : Token) : Bool :=
  match token.lexeme with
  | .openParen => true
  | _ => false

/-- A token where an operand begins. -/
def readOperand (s : State) (token : Token) : Except QueryError State :=
  if token.isWord "not".toList then s.push .negation s.group token
  else if isOpenParen token then s.push (.group s.group) {} token
  else do return { s with mode := .operator (← readField token) }

/-- Does an operand begin with this token? -/
def beginsOperand (token : Token) : Bool :=
  match token.lexeme with
  | .openParen => true
  | .word w =>
    let small := Text.lower w
    small == "not".toList || !(["and".toList, "or".toList, "order".toList].contains small)
  | _ => false

/-- A token where an operator begins. -/
def readOperator (s : State) (field : Field) (token : Token) : Except QueryError State :=
  match token.lexeme with
  | .op o => s.withOperator field o token.start token.stop
  | .word w =>
    if token.isWord "is".toList then
      .ok { s with mode := .afterIs field token.start token.stop }
    else if token.isWord "in".toList then s.withOperator field .isIn token.start token.stop
    else if token.isWord "not".toList then .ok { s with mode := .afterNot field token.start }
    else fail (.unknownOperator w) token
  | _ => fail .expectedOperator token

/-- A token where a value begins. -/
def readValue (s : State) (field : Field) (op : Operator) (token : Token) :
    Except QueryError State :=
  match single? token with
  | some v => s.withValue field op v token.start token.stop
  | none =>
    match token.lexeme with
    | .openBracket => .ok { s with mode := .list field op token.start [] [] .first }
    | _ => fail .expectedValue token

/-- Go on after the innermost list is complete. -/
def State.closeList (s : State) (field : Field) (op : Operator) (start : Nat)
    (items : List Literal) (outer : List (List Literal)) (token : Token) :
    Except QueryError State :=
  match outer with
  | [] => s.withValue field op (.list items) start token.stop
  | around :: outer =>
    .ok { s with mode := .list field op start (around ++ [.list items]) outer .separator }

/-- A token in a list. -/
def readListToken (s : State) (field : Field) (op : Operator) (start : Nat)
    (items : List Literal) (outer : List (List Literal)) (place : ListPlace) (token : Token) :
    Except QueryError State :=
  match place with
  | .separator =>
    match token.lexeme with
    | .comma => .ok { s with mode := .list field op start items outer .item }
    | .closeBracket => s.closeList field op start items outer token
    | _ => fail .expectedCloseBracket token
  | _ =>
    match single? token with
    | some v => .ok { s with mode := .list field op start (items ++ [v]) outer .separator }
    | none =>
      match token.lexeme, place with
      | .closeBracket, .first => s.closeList field op start items outer token
      | .openBracket, _ => .ok { s with mode := .list field op start [] (items :: outer) .first }
      | _, _ => fail .expectedValue token

/-- A token after a whole query. -/
def readEnd (s : State) (token : Token) : Except QueryError State :=
  match token.lexeme with
  | .finish => .ok s
  | _ => fail (.unexpectedToken token.text) token

/-- A token after an operand that neither joins nor begins one. -/
def readGroupEnd (s : State) (token : Token) : Except QueryError State :=
  match s.frames with
  | .group outer :: frames =>
    match token.lexeme, s.group.result with
    | .closeParen, some e =>
      .ok ({ s with frames := frames, group := outer }.withOperand e)
    | _, _ => fail .expectedCloseParen token
  | _ =>
    if token.isWord "order".toList then .ok { s with mode := .order } else readEnd s token

/-- A token after an operand. -/
def readConnective (s : State) (token : Token) : Except QueryError State :=
  if token.isWord "and".toList then .ok { s with mode := .operand }
  -- neighbours are joined as by `AND`
  else if beginsOperand token then readOperand s token
  else if token.isWord "or".toList then
    .ok { s with group := s.group.nextAlternative, mode := .operand }
  else readGroupEnd s token

/-- A token where the field to order by stands. -/
def readOrderField (s : State) (token : Token) : Except QueryError State := do
  let field ← readField token
  if field.sortable then
    return { s with mode := .orderDirection field, orderBy := some { field := field } }
  else fail (.notSortable field) token

/-- A token after the field to order by. -/
def readDirection (s : State) (field : Field) (token : Token) : Except QueryError State :=
  if token.isWord "asc".toList then .ok { s with mode := .finish }
  else if token.isWord "desc".toList then
    .ok { s with mode := .finish, orderBy := some { field := field, direction := .descending } }
  else readEnd s token

/-- Take one token. -/
def step (s : State) (token : Token) : Except QueryError State :=
  match s.mode with
  | .start =>
    if token.isWord "order".toList then .ok { s with mode := .order }
    else match token.lexeme with
      | .finish => .ok s
      | _ => readOperand s token
  | .operand => readOperand s token
  | .operator field => readOperator s field token
  | .afterIs field start stop =>
    if token.isWord "not".toList then s.withOperator field .isNot start token.stop
    -- the token is already the value, so `IS` has to be accepted before it is read
    else do readValue (← s.withOperator field .is start stop) field .is token
  | .afterNot field start =>
    if token.isWord "in".toList then s.withOperator field .notIn start token.stop
    else fail .expectedIn token
  | .value field op => readValue s field op token
  | .list field op start items outer place =>
    readListToken s field op start items outer place token
  | .connective => readConnective s token
  | .order =>
    if token.isWord "by".toList then .ok { s with mode := .orderField }
    else fail .expectedBy token
  | .orderField => readOrderField s token
  | .orderDirection field => readDirection s field token
  | .finish => readEnd s token

/-! ## Section 4: All tokens -/

/-- The query that has been read. -/
def State.query (s : State) : Query :=
  { expression := s.group.result, orderBy := s.orderBy }

/-- Take all tokens of a text of length `n`, and then its end or the error that cut it
    short. -/
def run (l : Lexing) (n : Nat) : Except QueryError Query := do
  let s ← l.tokens.foldlM step {}
  match l.error with
  | some e => .error e
  | none => return (← step s (Token.atEnd n)).query

end Reader

/-- Read a query. -/
def Query.read (t : Text) : Except QueryError Query := Reader.run (lex t) t.length

end Agenda.Filter
