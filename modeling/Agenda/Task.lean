import Agenda.Tag
import Agenda.Text.Quoted
import Agenda.Time.Moment

/-! # Tasks and projects

    A task refers to its parent and to its project by id; neither needs to exist.  A project
    is active or archived.  Whether a task is open or completed follows from its completion
    time. -/

namespace Agenda

/-- Tasks are known by number. -/
abbrev TaskId := Int

/-- Projects are known by number. -/
abbrev ProjectId := Int

/-! ## Section 1: The status of a project -/

/-- Archived projects are kept but not worked on. -/
inductive ProjectStatus where
  | active
  | archived
  deriving DecidableEq

namespace ProjectStatus

/-- The word for a status. -/
def word : ProjectStatus → Text
  | active => "active".toList
  | archived => "archived".toList

/-- A word that names no project status. -/
structure Unknown where
  value : Option Text
  deriving DecidableEq

/-- The wording of the error. -/
def Unknown.message (e : Unknown) : Text :=
  "Invalid project status: ".toList ++ Text.quoted? e.value

/-- The status that a word names, whatever its case and the blanks around it. -/
def ofWord (value : Option Text) : Except Unknown ProjectStatus :=
  let token := Text.lower (Text.trim (value.getD []))
  if token = active.word then .ok active
  else if token = archived.word then .ok archived
  else .error ⟨value⟩

end ProjectStatus

/-- A project. -/
structure Project where
  id     : ProjectId
  title  : Text
  status : ProjectStatus := .active
  color  : Text := []
  deriving DecidableEq

/-- Is the project archived? -/
def Project.archived (p : Project) : Bool := p.status == .archived

/-! ## Section 2: The status of a task -/

/-- Whether a task is open or completed. -/
inductive Status where
  | active
  | completed
  deriving DecidableEq

namespace Status

/-- The code word of a status. -/
def code : Status → Text
  | active => "ACTIVE".toList
  | completed => "COMPLETED".toList

/-- Other words for the two code words. -/
def aliases : List (Text × Text) :=
  [("OPEN".toList, active.code), ("TODO".toList, active.code),
   ("DONE".toList, completed.code), ("COMPLETE".toList, completed.code)]

/-- A word in capitals, with underscores for spaces and a code word for its alias. -/
def normalize (value : Text) : Text :=
  let token := Text.replaceChar ' ' ['_'] (Text.upper (Text.trim value))
  ((aliases.find? (·.1 == token)).map (·.2)).getD token

/-- The status that a word names. -/
def ofWord? (value : Text) : Option Status :=
  let token := normalize value
  if token = active.code then some active
  else if token = completed.code then some completed
  else none

/-- The words that a query is offered for a status. -/
def offered : List Text :=
  ["ACTIVE".toList, "OPEN".toList, "COMPLETED".toList, "DONE".toList]

end Status

/-! ## Section 3: Tasks -/

/-- A task. -/
structure Task where
  id      : TaskId
  title   : Text := []
  /-- Where the task stands among its siblings; usually a valid sort key. -/
  sortKey : Text := []
  parent  : Option TaskId := none
  project : Option ProjectId := none
  /-- How many children may be worked on at a time; 0 is no limit. -/
  sequentialLimit : Nat := 0
  body    : Option Text := none
  completedAt : Option Stamp := none
  reviewedAt  : Option Stamp := none
  startAt     : Option Stamp := none
  dueDate     : Option Stamp := none
  createdAt   : Option Stamp := none
  updatedAt   : Option Stamp := none
  someday : Bool := false
  tags    : TagSet := TagSet.empty
  deriving DecidableEq

namespace Task

/-- Has the task been completed? -/
def isCompleted (t : Task) : Bool := t.completedAt.isSome

/-- Has the task no parent? -/
def isRoot (t : Task) : Bool := t.parent.isNone

/-- The status of a task. -/
def status (t : Task) : Status := if t.isCompleted then .completed else .active

/-- Can the task be worked on, as far as it alone decides? -/
def isEligible (t : Task) : Bool := !t.isCompleted && !t.someday

/-- A limit below zero. -/
structure NegativeLimit where
  limit : Int
  deriving DecidableEq

/-- The wording of the error. -/
def NegativeLimit.message (e : NegativeLimit) : Text :=
  "sequential_limit must be non-negative, got ".toList ++ Integer.write e.limit

/-- Accept a limit. -/
def checkLimit (limit : Int) : Except NegativeLimit Nat :=
  if limit < 0 then .error ⟨limit⟩ else .ok limit.toNat

/-- Does `a` stand before `b`, or are they the same?  Keys decide, and ids where keys are
    equal. -/
def le (a b : Task) : Bool :=
  decide (a.sortKey < b.sortKey) || (a.sortKey == b.sortKey && decide (a.id ≤ b.id))

/-- The tasks in manual order. -/
def sort (tasks : List Task) : List Task := tasks.mergeSort le

end Task

end Agenda
