import Agenda.Filter.Expr
import Agenda.Text.Glob
import Agenda.Time.Typed
import Agenda.Tree.Basic

/-! # What a query means

    Every condition is true or false of every task: a missing field, a value that cannot be
    read and an operator that the field does not accept make it false.  Texts are compared
    without regard to case.

    `Expr.holds` is the meaning of an expression by its structure.  Expressions are evaluated
    without recursion, with a stack of work and a stack of results: an expression goes back on
    the work stack under its operands, and takes their results when it comes up again. -/

namespace Agenda.Filter

/-- A task as a query sees it, with the title of its project. -/
structure Subject where
  task         : Task
  projectTitle : Option Text := none

/-- A task of a tree. -/
def Subject.ofTree (tree : Tree) (task : Task) : Subject :=
  { task := task, projectTitle := tree.projectTitle? task }

/-! ## Section 1: Texts and tags -/

/-- Are the texts equal but for case? -/
def sameText (a b : Text) : Bool := Text.lower a == Text.lower b

/-- Does a value equal a text? -/
def textEquals (actual : Option Text) (value : Literal) : Bool :=
  match actual, value.asText? with
  | some a, some t => sameText a t
  | _, _ => false

/-- Does the pattern that a value is match a text? -/
def textMatches (actual : Option Text) (value : Literal) : Bool :=
  match actual, value.asText? with
  | some a, some pattern => Text.Glob.isMatch pattern a
  | _, _ => false

/-- Conditions on a text, which may be missing. -/
def textHolds (actual : Option Text) (op : Operator) (value : Literal) : Bool :=
  match op with
  | .is => actual.isNone
  | .isNot => actual.isSome
  | .eq => textEquals actual value
  | .ne => !textEquals actual value
  | .glob => textMatches actual value
  | .notGlob => !textMatches actual value
  | .isIn => value.items.any (textEquals actual)
  | .notIn => !value.items.any (textEquals actual)
  | _ => false

/-- Is a value one of the tags? -/
def hasTag (tags : List Text) (value : Literal) : Bool :=
  match value.asText? with
  | some t => tags.contains (Tag.normalize t)
  | none => false

/-- Does the pattern that a value is match one of the tags? -/
def anyTagMatches (tags : List Text) (value : Literal) : Bool :=
  match value.asText? with
  | some pattern => tags.any (Text.Glob.isMatch pattern)
  | none => false

/-- Conditions on a set of tags. -/
def tagsHold (tags : List Text) (op : Operator) (value : Literal) : Bool :=
  match op with
  | .is => tags.isEmpty
  | .isNot => !tags.isEmpty
  | .eq => hasTag tags value
  | .ne => !hasTag tags value
  | .glob => anyTagMatches tags value
  | .notGlob => !anyTagMatches tags value
  | .isIn => value.items.any (hasTag tags)
  | .notIn => !value.items.any (hasTag tags)
  | _ => false

/-! ## Section 2: Status -/

/-- The status that a value names. -/
def statusOf? : Literal → Option Status
  | .text t => Status.ofWord? t
  | _ => none

/-- The statuses that all items of a value name; `none` if one of them names none. -/
def statuses? : List Literal → Option (List Status)
  | [] => some []
  | v :: rest => do return (← statusOf? v) :: (← statuses? rest)

/-- Conditions on a status.  A value that names no status makes all of them false. -/
def statusHolds (actual : Status) (op : Operator) (value : Literal) : Bool :=
  match statuses? value.items with
  | none => false
  | some wanted =>
    match op with
    | .eq | .isIn => wanted.contains actual
    | .ne | .notIn => !wanted.contains actual
    | _ => false

/-! ## Section 3: Days and moments -/

/-- Compare two numbers by an operator. -/
def compareHolds (actual : Nat) (op : Operator) (expected : Nat) : Bool :=
  match op with
  | .eq => actual == expected
  | .ne => actual != expected
  | .gt => decide (expected < actual)
  | .lt => decide (actual < expected)
  | .gte => decide (expected ≤ actual)
  | .lte => decide (actual ≤ expected)
  | _ => false

/-- Compare a stamp, which may be missing, with a day. -/
def dayHolds (actual : Option Stamp) (op : Operator) (expected : Day) : Bool :=
  match actual with
  | none => op == .ne
  | some stamp => compareHolds stamp.toDay.ordinal op expected.ordinal

/-- Compare a stamp, which may be missing, with a moment. -/
def momentHolds (actual : Option Stamp) (op : Operator) (expected : Moment) : Bool :=
  match actual with
  | none => op == .ne
  | some stamp => compareHolds stamp.toMoment.reading op expected.reading

/-- Conditions on a stamp.  A day in the query is compared with the day of the stamp, and only
    a day can be compared with where `daysOnly`. -/
def stampHolds (daysOnly : Bool) (actual : Option Stamp) (op : Operator) (value : Literal) :
    Bool :=
  match op, value with
  | .is, _ => actual.isNone
  | .isNot, _ => actual.isSome
  | _, .text t =>
    match Typed.day? t with
    | some day => dayHolds actual op day
    | none =>
      if daysOnly then false
      else match Typed.moment? t with
        | some moment => momentHolds actual op moment
        | none => false
  | _, _ => false

/-! ## Section 4: Conditions and expressions -/

/-- What a field of a task holds. -/
inductive FieldValue where
  | text (t : Option Text)
  | tags (l : List Text)
  | status (s : Status)
  | stamp (s : Option Stamp)

/-- The value of a field.  An empty body counts as missing. -/
def Subject.value (s : Subject) : Field → FieldValue
  | .title => .text (some s.task.title)
  | .body => .text (s.task.body.filter (· ≠ []))
  | .project => .text s.projectTitle
  | .tags => .tags s.task.tags.toList
  | .status => .status s.task.status
  | .dueDate => .stamp s.task.dueDate
  | .startAt => .stamp s.task.startAt
  | .created => .stamp s.task.createdAt
  | .updated => .stamp s.task.updatedAt
  | .reviewed => .stamp s.task.reviewedAt

/-- Is a condition true of a task? -/
def Condition.holds (c : Condition) (s : Subject) : Bool :=
  c.field.accepts c.op &&
    match s.value c.field with
    | .text t => textHolds t c.op c.value
    | .tags l => tagsHold l c.op c.value
    | .status a => statusHolds a c.op c.value
    | .stamp a => stampHolds (c.field.kind == .day) a c.op c.value

/-- Is an expression true of a task?  By structure. -/
def Expr.holds (s : Subject) : Expr → Bool
  | cond c => c.holds s
  | not e => !e.holds s
  | and l r => l.holds s && r.holds s
  | or l r => l.holds s || r.holds s

/-! ## Section 5: Evaluation -/

/-- An expression on the work stack: new there, or expanded, with its operands stacked above
    it. -/
structure Pending where
  expr     : Expr
  expanded : Bool := false

/-- Take an expression off the work stack: what it puts there instead, topmost first, and the
    results after it, the latest first.  `none` if an operand is missing from the results. -/
def Pending.turn (s : Subject) : Pending → List Bool → Option (List Pending × List Bool)
  | ⟨.cond c, _⟩, results => some ([], c.holds s :: results)
  | ⟨.not e, false⟩, results => some ([{ expr := e }, ⟨.not e, true⟩], results)
  | ⟨.not _, true⟩, b :: results => some ([], (!b) :: results)
  | ⟨.and l r, false⟩, results =>
    some ([{ expr := l }, { expr := r }, ⟨.and l r, true⟩], results)
  | ⟨.and _ _, true⟩, right :: left :: results => some ([], (left && right) :: results)
  | ⟨.or l r, false⟩, results =>
    some ([{ expr := l }, { expr := r }, ⟨.or l r, true⟩], results)
  | ⟨.or _ _, true⟩, right :: left :: results => some ([], (left || right) :: results)
  | _, _ => none

/-- How many turns an expression takes until its result stands. -/
def Expr.turns : Expr → Nat
  | cond _ => 1
  | not e => e.turns + 2
  | and l r => l.turns + r.turns + 2
  | or l r => l.turns + r.turns + 2

/-- How many turns are left for an expression on the work stack and what it stacks above it. -/
def Pending.turns (p : Pending) : Nat := if p.expanded then 1 else p.expr.turns

@[simp] theorem Pending.turns_new (e : Expr) : turns { expr := e } = e.turns := rfl

@[simp] theorem Pending.turns_expanded (e : Expr) : turns ⟨e, true⟩ = 1 := rfl

/-- How many turns are left for all of the work. -/
def turnsLeft : List Pending → Nat
  | [] => 0
  | p :: work => p.turns + turnsLeft work

theorem turnsLeft_append (pushed work : List Pending) :
    turnsLeft (pushed ++ work) = turnsLeft pushed + turnsLeft work := by
  induction pushed with
  | nil => exact (Nat.zero_add _).symm
  | cons p pushed ih =>
    show p.turns + turnsLeft (pushed ++ work) = p.turns + turnsLeft pushed + turnsLeft work
    rw [ih, Nat.add_assoc]

/-- Every turn leaves one turn less. -/
theorem Pending.turns_of_turn {s : Subject} {p : Pending} {results results' : List Bool}
    {pushed : List Pending} (h : p.turn s results = some (pushed, results')) :
    turnsLeft pushed + 1 = p.turns := by
  unfold turn at h
  split at h <;> cases h <;> simp [turnsLeft, Expr.turns]
  · simp [turns, Expr.turns]
  · omega
  · omega

/-- Take turns until the work stack is empty, and give the results; `none` if an operand was
    missing. -/
def runWork (s : Subject) (work : List Pending) (results : List Bool) : Option (List Bool) :=
  match work with
  | [] => some results
  | p :: work =>
    match _h : p.turn s results with
    | none => none
    | some (pushed, results) => runWork s (pushed ++ work) results
termination_by turnsLeft work
decreasing_by
  have hturns := Pending.turns_of_turn _h
  rw [turnsLeft_append]
  show turnsLeft pushed + turnsLeft work < p.turns + turnsLeft work
  omega

/-- Is an expression true of a task?  The latest result when no work is left. -/
def Expr.evaluate (e : Expr) (s : Subject) : Bool :=
  match runWork s [{ expr := e }] [] with
  | some (b :: _) => b
  | _ => false

/-- Does a task meet an expression?  Every task meets a missing one. -/
def Subject.meets (s : Subject) : Option Expr → Bool
  | some e => e.evaluate s
  | none => true

/-- Does a task meet a query? -/
def Query.matches (q : Query) (s : Subject) : Bool := s.meets q.expression

end Agenda.Filter
