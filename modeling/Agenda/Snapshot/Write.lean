import Agenda.Datum
import Agenda.Tree.Basic

/-! # Writing a snapshot

    Projects and tasks are listed by id.  An entry has its keys in a fixed order, and leaves
    out what a reader assumes anyway. -/

namespace Agenda.Snapshot

/-- An entry of a map. -/
def item (key : String) (v : Datum) : Text × Datum := (key.toList, v)

/-- An entry that is left out where there is no value. -/
def optional {α : Type} (key : String) (write : α → Datum) (v : Option α) :
    List (Text × Datum) :=
  (v.map fun a => item key (write a)).toList

/-- A stamp as a value. -/
def writeStamp : Stamp → Datum
  | .day d => .day d
  | .moment m => .moment m

/-- The entries of a project. -/
def projectEntries (p : Project) : List (Text × Datum) :=
  [item "id" (.integer p.id), item "title" (.text p.title),
    item "status" (.text p.status.word)] ++
  if p.color = [] then [] else [item "color" (.text p.color)]

/-- The entries of a task. -/
def taskEntries (t : Task) : List (Text × Datum) :=
  [item "id" (.integer t.id), item "title" (.text t.title),
    item "sort_key" (.text t.sortKey)] ++
  optional "parent_id" .integer t.parent ++
  optional "project_id" .integer t.project ++
  optional "body" .text t.body ++
  optional "completed_at" writeStamp t.completedAt ++
  optional "reviewed_at" writeStamp t.reviewedAt ++
  optional "start_at" writeStamp t.startAt ++
  optional "due_date" writeStamp t.dueDate ++
  optional "created_at" writeStamp t.createdAt ++
  optional "updated_at" writeStamp t.updatedAt ++
  (if t.sequentialLimit = 0 then []
    else [item "sequential_limit" (.integer t.sequentialLimit)]) ++
  (if t.someday then [item "someday" (.truth true)] else []) ++
  if t.tags.toList = [] then [] else [item "tags" (.list (t.tags.toList.map .text))]

/-- The projects of a tree by id. -/
def projectsById (tree : Tree) : List Project :=
  tree.projects.mergeSort fun p q => decide (p.id ≤ q.id)

/-- The tasks of a tree by id. -/
def tasksById (tree : Tree) : List Task := tree.tasks.mergeSort fun s t => decide (s.id ≤ t.id)

/-- The document of a tree. -/
def write (tree : Tree) : Datum :=
  .map [item "projects" (.list ((projectsById tree).map fun p => .map (projectEntries p))),
    item "tasks" (.list ((tasksById tree).map fun t => .map (taskEntries t)))]

end Agenda.Snapshot
