import Agenda.Filter.Meaning

/-! # Results in order

    Results stand in manual order, or in the order of a field: tasks with a value first, up or
    down, then the tasks without one.  They are put into manual order first and sorting keeps
    the order of what is equal, so manual order decides between equal values, in both
    directions. -/

namespace Agenda.Filter

/-- What results are ordered by: a text in small letters, or a clock reading. -/
inductive SortValue where
  | text (t : Text)
  | reading (n : Nat)
  deriving DecidableEq

/-- Does `a` stand before `b` in ascending order? -/
def SortValue.lt : SortValue → SortValue → Bool
  | text a, text b => decide (a < b)
  | reading a, reading b => decide (a < b)
  | text _, reading _ => true
  | reading _, text _ => false

/-- The value of a field by which a task is ordered. -/
def Subject.sortValue (s : Subject) (field : Field) : Option SortValue :=
  match s.value field with
  | .text t => t.map fun t => .text (Text.lower t)
  | .stamp stamp => stamp.map fun a => .reading a.toMoment.reading
  | .tags _ | .status _ => none

/-- Manual order. -/
def Subject.le (a b : Subject) : Bool := Task.le a.task b.task

/-- May `a` stand before `b`? -/
def Direction.allows : Direction → SortValue → SortValue → Bool
  | ascending, a, b => !b.lt a
  | descending, a, b => !a.lt b

/-- The subjects that have a value in a field, each with that value. -/
def withValues (field : Field) (subjects : List Subject) : List (SortValue × Subject) :=
  subjects.filterMap fun s => (s.sortValue field).map fun x => (x, s)

/-- The subjects that have none. -/
def withoutValue (field : Field) (subjects : List Subject) : List Subject :=
  subjects.filter fun s => (s.sortValue field).isNone

/-- Subjects by the values of a field, those without one at the end.  Subjects with equal values
    stay in their order, and so do those without one. -/
def sortByField (o : OrderBy) (subjects : List Subject) : List Subject :=
  let sorted := (withValues o.field subjects).mergeSort fun a b => o.direction.allows a.1 b.1
  sorted.map Prod.snd ++ withoutValue o.field subjects

/-- Subjects in manual order, and then in the order asked for. -/
def sortSubjects (orderBy : Option OrderBy) (subjects : List Subject) : List Subject :=
  let byHand := subjects.mergeSort Subject.le
  match orderBy with
  | none => byHand
  | some o => sortByField o byHand

/-- The subjects that meet a query, in its order. -/
def Query.select (q : Query) (subjects : List Subject) : List Subject :=
  sortSubjects q.orderBy (subjects.filter q.matches)

/-- The tasks at the top of the tree that meet a query, in its order. -/
def Query.execute (q : Query) (tree : Tree) : List TaskId :=
  (q.select ((tree.tasks.filter tree.isTop).map (Subject.ofTree tree))).map (·.task.id)

end Agenda.Filter
