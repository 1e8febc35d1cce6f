import Agenda.Snapshot.Error
import Agenda.StoredFile
import Agenda.Time.Iso

/-! # Reading a snapshot

    A document is a map with a list of projects and a list of tasks; both may be missing, and
    so may every part of a project or task but its id.  Numerals, days and moments may be
    written as texts.  The first fault ends the reading: projects come before tasks, and the
    parts of an entry in a fixed order.

    Where a value is needed as a text, an integer in it that is too long to be written is a
    fault as well.  So is such an id of a task, which would stand in the messages about its
    other parts.

    The keys of all maps are texts. -/

namespace Agenda.Snapshot

/-- Why a part of a document cannot be read. -/
inductive Fault where
  | cause (c : Cause)
  | longInteger (e : Datum.LongInteger)
  | statusNotText

/-- Refuse a document. -/
def refuse {α : Type} (c : Cause) : Except Fault α := .error (.cause c)

/-- Refuse a document for a value that the message shows. -/
def refuseValue {α : Type} (cause : Datum → Cause) (v : Datum) : Except Fault α :=
  if v.hasLongInteger then .error (.longInteger ⟨⟩) else refuse (cause v)

/-- A fault where the parts of a task are put together: what cannot be written is told with
    the task. -/
def Fault.inTask (id : TaskId) : Fault → Fault
  | longInteger e => cause (.longIntegerIn id e)
  | fault => fault

/-- The fault of a negative limit, which the message shows. -/
def Fault.ofLimit (id : TaskId) (e : Task.NegativeLimit) : Fault :=
  if Integer.isTooLong e.limit then longInteger ⟨⟩ else cause (.negativeLimit id e)

/-! ## Section 1: Parts of an entry -/

/-- An integer. -/
def readInteger (place : Place) (v : Datum) : Except Fault Int :=
  match v.integer? with
  | some n => .ok n
  | none => refuseValue (.invalid place) v

/-- An id, which may be missing. -/
def readId (place : Place) (v : Datum) : Except Fault (Option Int) :=
  if v.isMissing then .ok none else (readInteger place v).map some

/-- An id that must not be missing. -/
def requireId (place : Place) (v : Datum) : Except Fault Int :=
  if v.isMissing then refuse (.missing place) else readInteger place v

/-- The id of a task. -/
def readTaskId (v : Datum) : Except Fault TaskId := do
  let id ← requireId .taskId v
  if Integer.isTooLong id then .error (.longInteger ⟨⟩) else return id

/-- A text, empty if the value stands for nothing. -/
def readText (v : Datum) : Except Fault Text := v.toText.mapError .longInteger

/-- The body of a task, which may be missing; any value counts as a text. -/
def readBody : Datum → Except Fault (Option Text)
  | .null => .ok none
  | v => (v.toPlain.mapError .longInteger).map some

/-- A truth value, false if it is missing. -/
def readFlag (place : Place) : Datum → Except Fault Bool
  | .null => .ok false
  | .truth b => .ok b
  | v => refuseValue (.invalidFlag place) v

/-- A moment, which may be missing; a day is its midnight. -/
def readMoment (place : Place) (v : Datum) : Except Fault (Option Stamp) :=
  match v with
  | .moment m => .ok (some (.moment m))
  | .day d => .ok (some (.moment (Moment.midnight d)))
  | v =>
    if v.isMissing then .ok none
    else match Iso.moment? (Text.trim v.plain) with
      | some m => .ok (some (.moment m))
      | none => refuseValue (.invalidMoment place) v

/-- How many characters of a text are read as a day. -/
def dayWidth : Nat := 10

/-- A day, which may be missing; of a moment the day counts. -/
def readDay (place : Place) (v : Datum) : Except Fault (Option Stamp) :=
  match v with
  | .moment m => .ok (some (.day m.day))
  | .day d => .ok (some (.day d))
  | v =>
    if v.isMissing then .ok none
    else match Iso.day? ((Text.trim v.plain).take dayWidth) with
      | some d => .ok (some (.day d))
      | none => refuseValue (.invalidDay place) v

/-- The names of tags: a list, or the words of a text with commas or blanks between them. -/
def readNames (id : TaskId) (v : Datum) : Except Fault (List Datum) :=
  if v.isEmpty then .ok []
  else match v with
    | .text t => .ok ((Text.words (Text.replaceChar ',' [' '] t)).map .text)
    | .list names => .ok names
    | _ => refuse (.tagsNotList id)

/-- The tags of these names. -/
def readTags (names : List Datum) : Except Fault TagSet :=
  if Datum.anyLongInteger names then .error (.longInteger ⟨⟩)
  else .ok (TagSet.ofList (names.map Datum.plain))

/-- A limit, 0 if it is missing; whether it is negative is looked at last. -/
def readLimit (place : Place) : Datum → Except Fault Int
  | .null => .ok 0
  | v => readInteger place v

/-- The status of a project, active if it is missing. -/
def readStatus (v : Datum) : Except Fault ProjectStatus :=
  if v.isEmpty then .ok .active
  else match v with
    | .text t => (ProjectStatus.ofWord (some t)).mapError fun e => .cause (.unknownStatus e)
    | _ => .error .statusNotText

/-! ## Section 2: Entries -/

/-- A project. -/
def readProject (v : Datum) : Except Fault Project :=
  match v with
  | .map entries => do
    let get (key : String) : Datum := Datum.entry entries key.toList
    -- the status is looked at before the id
    let status ← readStatus (get "status")
    let id ← requireId .projectId (get "id")
    let title ← readText (get "title")
    let color ← readText (get "color")
    return { id, title, status, color }
  | v => refuse (.entryNotMapping .project v)

/-- A task. -/
def readTask (v : Datum) : Except Fault Task :=
  match v with
  | .map entries => do
    let get (key : String) : Datum := Datum.entry entries key.toList
    let id ← readTaskId (get "id")
    let place (key : String) : Place := .ofTask id key.toList
    let moment (key : String) : Except Fault (Option Stamp) := readMoment (place key) (get key)
    let day (key : String) : Except Fault (Option Stamp) := readDay (place key) (get key)
    let names ← readNames id (get "tags")
    let limit ← readLimit (place "sequential_limit") (get "sequential_limit")
    let completedAt ← moment "completed_at"
    let startAt ← moment "start_at"
    let createdAt ← moment "created_at"
    let updatedAt ← moment "updated_at"
    let reviewedAt ← day "reviewed_at"
    let dueDate ← day "due_date"
    let task : Except Fault Task := do
      let title ← readText (get "title")
      let sortKey ← readText (get "sort_key")
      let parent ← readId (place "parent_id") (get "parent_id")
      let project ← readId (place "project_id") (get "project_id")
      let body ← readBody (get "body")
      let someday ← readFlag (place "someday") (get "someday")
      let tags ← readTags names
      let sequentialLimit ← (Task.checkLimit limit).mapError (Fault.ofLimit id)
      return { id, title, sortKey, parent, project, sequentialLimit, body, completedAt,
               reviewedAt, startAt, dueDate, createdAt, updatedAt, someday, tags }
    task.mapError (Fault.inTask id)
  | v => refuse (.entryNotMapping .task v)

/-! ## Section 3: Documents -/

/-- The list under a key, empty if it is missing. -/
def readList (v : Datum) : Except Fault (List Datum) :=
  if v.isEmpty then .ok []
  else match v with
    | .list items => .ok items
    | _ => refuse .notLists

/-- The tree of a document that is a map. -/
def readEntries (entries : List (Text × Datum)) : Except Fault Tree := do
  let projects ← readList (Datum.entry entries "projects".toList)
  let tasks ← readList (Datum.entry entries "tasks".toList)
  let projects ← projects.mapM readProject
  let tasks ← tasks.mapM readTask
  (Tree.ofTasks tasks projects).mapError fun e => .cause (.duplicate e)

/-- The tree of a document; a document that stands for nothing is an empty tree. -/
def readDocument (v : Datum) : Except Fault Tree :=
  if v.isEmpty then .ok {}
  else match v with
    | .map entries => readEntries entries
    | _ => refuse .notMapping

/-- A fault in the document of a file. -/
def Fault.inFile (source : Text) : Fault → Failure
  | cause c => .refused { cause := c, source := source }
  | longInteger e => .refused { cause := .longInteger e, source := source }
  | statusNotText => .statusNotText

/-- The tree of a document from a file of this name. -/
def read (v : Datum) (source : Text) : Except Failure Tree :=
  (readDocument v).mapError (Fault.inFile source)

/-- The tree of a file; where there is no file it is empty. -/
def load (file : StoredFile) (source : Text) : Except Failure Tree :=
  match file with
  | .absent => .ok {}
  | .directory => .error (.refused { cause := .unreadable source, source := source })
  | .malformed => .error (.refused { cause := .malformed, source := source })
  | .holding v => if v.hasFineOffset then .error .fineOffset else read v source

end Agenda.Snapshot
