import Agenda.Text.Case

/-! # Fields and operators of a query

    What a query can ask about a task: the fields, their names, the operators that each of
    them accepts, and whether results can be ordered by it. -/

namespace Agenda.Filter

/-! ## Section 1: Operators -/

/-- The operators of a condition. -/
inductive Operator where
  | eq
  | ne
  | glob
  | notGlob
  | gt
  | lt
  | gte
  | lte
  | is
  | isNot
  | isIn
  | notIn
  deriving DecidableEq

/-- An operator as it is written. -/
def Operator.symbol : Operator → Text
  | eq => "=".toList
  | ne => "!=".toList
  | glob => "=~".toList
  | notGlob => "!~".toList
  | gt => ">".toList
  | lt => "<".toList
  | gte => ">=".toList
  | lte => "<=".toList
  | is => "IS".toList
  | isNot => "IS NOT".toList
  | isIn => "IN".toList
  | notIn => "NOT IN".toList

/-- Every operator. -/
def Operator.every : List Operator :=
  [eq, ne, glob, notGlob, gt, lt, gte, lte, is, isNot, isIn, notIn]

/-! ## Section 2: Fields -/

/-- What a field holds. -/
inductive FieldKind where
  | text
  | status
  | project
  | tags
  | day
  | moment
  deriving DecidableEq

/-- The fields of a task. -/
inductive Field where
  | title
  | body
  | project
  | tags
  | status
  | dueDate
  | startAt
  | created
  | updated
  | reviewed
  deriving DecidableEq

namespace Field

/-- Every field, in the order in which they are offered. -/
def every : List Field :=
  [title, body, project, tags, status, dueDate, startAt, created, updated, reviewed]

/-- The canonical name. -/
def name : Field → Text
  | title => "title".toList
  | body => "body".toList
  | project => "project".toList
  | tags => "tags".toList
  | status => "status".toList
  | dueDate => "due_date".toList
  | startAt => "start_at".toList
  | created => "created".toList
  | updated => "updated".toList
  | reviewed => "reviewed".toList

/-- Other names. -/
def aliases : Field → List Text
  | tags => ["tag".toList]
  | dueDate => ["due".toList]
  | startAt => ["start".toList]
  | created => ["created_at".toList]
  | updated => ["updated_at".toList]
  | reviewed => ["reviewed_at".toList]
  | _ => []

/-- What the field holds. -/
def kind : Field → FieldKind
  | title | body => .text
  | project => .project
  | tags => .tags
  | status => .status
  | dueDate | reviewed => .day
  | startAt | created | updated => .moment

/-- Can results be ordered by the field? -/
def sortable : Field → Bool
  | body | tags | status => false
  | _ => true

/-- Can the field be asked for a missing value? -/
def nullable : Field → Bool
  | title | status | created | updated => false
  | _ => true

/-- Does the field accept the operator? -/
def accepts (f : Field) : Operator → Bool
  | .eq | .ne => true
  | .glob | .notGlob => f.kind == .text || f.kind == .project || f.kind == .tags
  | .gt | .lt | .gte | .lte => f.kind == .day || f.kind == .moment
  | .is | .isNot => f.nullable
  | .isIn | .notIn => !(f.kind == .day || f.kind == .moment)

/-- The field with this name or other name, whatever its case. -/
def find? (word : Text) : Option Field :=
  let token := Text.lower word
  every.find? fun f => f.name == token || f.aliases.contains token

end Field

end Agenda.Filter
