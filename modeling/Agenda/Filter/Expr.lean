import Agenda.Filter.Field
import Agenda.Filter.Literal

/-! # Queries

    A query is a tree of conditions, which may be empty, and an order for its results.  It is
    written with as few parentheses as its reading needs: `NOT` binds more tightly than `AND`
    and `AND` more tightly than `OR`, and chains of one connective lean to the left. -/

namespace Agenda.Filter

/-- A condition on one field. -/
structure Condition where
  field : Field
  op    : Operator
  value : Literal

/-- A tree of conditions. -/
inductive Expr where
  | cond (c : Condition)
  | not (e : Expr)
  | and (left right : Expr)
  | or (left right : Expr)

/-- The direction of an order. -/
inductive Direction where
  | ascending
  | descending
  deriving DecidableEq

/-- An order for results. -/
structure OrderBy where
  field     : Field
  direction : Direction := .ascending
  deriving DecidableEq

/-- A query; one without an expression is met by every task. -/
structure Query where
  expression : Option Expr := none
  orderBy    : Option OrderBy := none

/-! ## Section 1: Writing -/

/-- A condition as it is written. -/
def Condition.render (c : Condition) : Text :=
  c.field.name ++ [' '] ++ c.op.symbol ++ [' '] ++ c.value.render

/-- A text between parentheses, if `grouped` says so. -/
def parenthesize (grouped : Bool) (t : Text) : Text :=
  if grouped then '(' :: t ++ [')'] else t

namespace Expr

/-- Is the expression an alternative? -/
def isOr : Expr → Bool
  | or _ _ => true
  | _ => false

/-- Is the expression an alternative or a conjunction? -/
def isChain : Expr → Bool
  | or _ _ | and _ _ => true
  | _ => false

/-- An expression as it is written. -/
def render : Expr → Text
  | cond c => c.render
  | not e => "NOT ".toList ++ parenthesize e.isChain e.render
  | and l r =>
    parenthesize l.isOr l.render ++ " AND ".toList ++ parenthesize r.isChain r.render
  | or l r => l.render ++ " OR ".toList ++ parenthesize r.isOr r.render

end Expr

/-- The word for a direction. -/
def Direction.word : Direction → Text
  | ascending => "ASC".toList
  | descending => "DESC".toList

/-- An order as it is written. -/
def OrderBy.render (o : OrderBy) : Text :=
  "ORDER BY ".toList ++ o.field.name ++ [' '] ++ o.direction.word

/-- A query as it is written. -/
def Query.render (q : Query) : Text :=
  Text.join [' '] ((q.expression.map Expr.render).toList ++ (q.orderBy.map OrderBy.render).toList)

/-! ## Section 2: Operands before operators -/

/-- A step of an expression whose operands come before their operators. -/
inductive Step where
  | test (c : Condition)
  | negate
  | conjoin
  | disjoin

/-- An expression as steps, operands first, left before right. -/
def Expr.steps : Expr → List Step
  | cond c => [.test c]
  | not e => e.steps ++ [.negate]
  | and l r => l.steps ++ r.steps ++ [.conjoin]
  | or l r => l.steps ++ r.steps ++ [.disjoin]

end Agenda.Filter
