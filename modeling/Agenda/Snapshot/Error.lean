import Agenda.Datum
import Agenda.Tree.Basic

/-! # Errors in a snapshot

    An error tells what is wrong with a document, and the name of the file that it is from. -/

namespace Agenda.Snapshot

/-- The value of a document that an error is about. -/
inductive Place where
  | projectId
  | taskId
  | ofTask (id : TaskId) (key : Text)
  deriving DecidableEq

/-- The words for a place. -/
def Place.words : Place → Text
  | projectId => "project id".toList
  | taskId => "task id".toList
  | ofTask id key => "task ".toList ++ Integer.write id ++ [' '] ++ key

/-- The two kinds of entries. -/
inductive EntryKind where
  | project
  | task
  deriving DecidableEq

/-- The word for a kind of entries. -/
def EntryKind.word : EntryKind → Text
  | project => "project".toList
  | task => "task".toList

/-- What is wrong with a snapshot. -/
inductive Cause where
  | unreadable (path : Text)
  | malformed
  | notMapping
  | notLists
  | entryNotMapping (kind : EntryKind) (entry : Datum)
  | unknownStatus (e : ProjectStatus.Unknown)
  | missing (place : Place)
  | invalid (place : Place) (value : Datum)
  | invalidFlag (place : Place) (value : Datum)
  | invalidMoment (place : Place) (value : Datum)
  | invalidDay (place : Place) (value : Datum)
  | tagsNotList (id : TaskId)
  | negativeLimit (id : TaskId) (e : Task.NegativeLimit)
  | duplicate (e : Tree.DuplicateTask)
  | longInteger (e : Datum.LongInteger)
  | longIntegerIn (id : TaskId) (e : Datum.LongInteger)

/-- The wording of a cause. -/
def Cause.message : Cause → Text
  | unreadable path =>
    "cannot read snapshot: [Errno 21] Is a directory: ".toList ++ Text.quoted path
  | malformed => "invalid YAML".toList
  | notMapping => "top level must be a mapping".toList
  | notLists => "'projects' and 'tasks' must be lists".toList
  | entryNotMapping kind entry =>
    kind.word ++ " entry must be a mapping, got ".toList ++ entry.kindWord
  | unknownStatus e => e.message
  | missing place => "missing ".toList ++ place.words
  | invalid place value => "invalid ".toList ++ place.words ++ ": ".toList ++ value.inspect
  | invalidFlag place value =>
    "invalid ".toList ++ place.words ++ ": ".toList ++ value.inspect ++
      " (expected true or false)".toList
  | invalidMoment place value =>
    "invalid timestamp for ".toList ++ place.words ++ ": ".toList ++ value.inspect
  | invalidDay place value =>
    "invalid date for ".toList ++ place.words ++ ": ".toList ++ value.inspect
  | tagsNotList id => "task ".toList ++ Integer.write id ++ ": tags must be a list".toList
  | negativeLimit id e => "task ".toList ++ Integer.write id ++ ": ".toList ++ e.message
  | duplicate e => e.message
  | longInteger e => e.message
  | longIntegerIn id e => "task ".toList ++ Integer.write id ++ ": ".toList ++ e.message

/-- A refused snapshot: what is wrong, and the name of its file, which may be empty. -/
structure SnapshotError where
  cause  : Cause
  source : Text

/-- The wording of an error. -/
def SnapshotError.message (e : SnapshotError) : Text := e.cause.message

/-- The wording of an error after the name of the file. -/
def SnapshotError.text (e : SnapshotError) : Text :=
  if e.source = [] then e.message else e.source ++ ": ".toList ++ e.message

/-- Why a document gives no tree.  Two failures are no refusals of the snapshot: a status that
    is no text, and a moment that the file cannot give back. -/
inductive Failure where
  | refused (e : SnapshotError)
  | statusNotText
  | fineOffset

end Agenda.Snapshot
