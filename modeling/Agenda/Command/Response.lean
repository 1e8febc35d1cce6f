import Agenda.Filter.Completion
import Agenda.Filter.Error
import Agenda.Gesture
import Agenda.Intake
import Agenda.Review
import Agenda.Snapshot.Error

/-! # Responses

    Every command answers with one response: its name, whether it succeeded, a message, and a
    payload of values.  Payloads of errors name the error and give its details. -/

namespace Agenda.Command

/-- A map of values under names. -/
abbrev Payload := List (Text × Datum)

/-- The answer of a command. -/
structure Response where
  command : Text
  ok      : Bool := true
  message : Text
  payload : Payload := []
  summary : Option Text := none

/-- The exit code of a command that has answered. -/
def Response.exitCode (r : Response) : Nat := if r.ok then 0 else 1

/-! ## Section 1: Values of a payload -/

/-- A value under a name. -/
def item (key : String) (v : Datum) : Text × Datum := (key.toList, v)

/-- The names of the parts of a response, with the time of the answer if it is given. -/
def Response.entries (r : Response) (time : Option Text) : Payload :=
  [item "command" (.text r.command),
    item "status" (.text (if r.ok then "OK" else "ERROR").toList),
    item "message" (.text r.message)] ++
  (time.map fun t => item "timestamp" (.text t)).toList ++
  [item "payload" (.map r.payload)] ++
  (r.summary.map fun t => item "summary" (.text t)).toList

/-- A value that may be missing. -/
def orNull {α : Type} (write : α → Datum) (v : Option α) : Datum := (v.map write).getD .null

/-- A list of ids. -/
def ids (l : List TaskId) : Datum := .list (l.map .integer)

/-- A list of texts. -/
def texts (l : List Text) : Datum := .list (l.map .text)

/-- The ids and titles of tasks. -/
def titles (tree : Tree) (l : List TaskId) : Datum :=
  .list ((l.filterMap tree.get?).map fun t =>
    .map [item "id" (.integer t.id), item "title" (.text t.title)])

/-- What a typed title says. -/
def intakePayload (i : Intake) : Payload :=
  [item "title" (.text i.title), item "project_id" (orNull .integer i.project),
    item "project_name" (orNull .text i.projectName), item "tags" (texts i.tags),
    item "url" (orNull .text i.url)]

/-- A plan. -/
def planPayload (p : Plan) : Payload :=
  [item "sort_key" (.text p.sortKey), item "parent_id" (orNull .integer p.parent),
    item "changed" (.truth p.changed)]

/-- A suggestion. -/
def suggestion (s : Filter.Suggestion) : Datum :=
  .map [item "label" (.text s.label), item "value" (.text s.value),
    item "start" (.integer s.start)]

/-! ## Section 2: Errors -/

/-- The details of an error in a query. -/
def queryPayload (e : Filter.QueryError) : Payload :=
  [item "message" (.text e.message), item "start" (.integer e.start),
    item "end" (.integer e.stop)]

/-- The name of the kind of an error in a query. -/
def queryErrorName (e : Filter.QueryError) : Text :=
  match e.cause.kind with
  | .general => "FilterParseError".toList
  | .unknownField => "UnknownField".toList
  | .unknownOperator => "UnknownOperator".toList

/-- The name of an error before its details. -/
def named (name : Text) (details : Payload) : Payload := item "error" (.text name) :: details

/-- Why a command does not succeed. -/
structure Failing where
  message : Text
  payload : Payload := []

/-- A failure without details. -/
def Failing.plain (message : Text) : Failing := { message }

/-- A query that cannot be read. -/
def Failing.ofQuery (e : Filter.QueryError) : Failing :=
  { message := e.message, payload := named (queryErrorName e) (queryPayload e) }

/-- A snapshot that is refused. -/
def Failing.ofSnapshot (e : Snapshot.SnapshotError) : Failing :=
  { message := e.message
    payload := named "SnapshotError".toList [item "source" (.text e.source)] }

/-- A sort key that cannot be made.  What is wrong with the order of keys has details. -/
def Failing.ofKey (e : SortKey.KeyError) : Failing :=
  match e with
  | .unknownDigit | .negativeCount => .plain e.message
  | _ =>
    { message := e.message
      payload := named "OrderingInvariantViolation".toList
        [item "before" (orNull .text e.bounds.1), item "after" (orNull .text e.bounds.2)] }

/-- A parent that cannot be given. -/
def Failing.ofParent (e : Tree.ParentError) : Failing :=
  { message := e.message
    payload := named "HierarchyError".toList
      [item "task_id" (.integer e.task), item "type" (.text e.fault.word),
        item "details" (.text e.fault.details)] }

/-- A gesture without a plan. -/
def Failing.ofGesture (e : GestureError) : Failing :=
  match e with
  | .key k => .ofKey k
  | .parent p => .ofParent p
  | .notFound _ _ | .notInScope _ => .plain e.message

end Agenda.Command
