import Agenda.Tree.Actionable
import Agenda.Tree.Outline

/-! # List pages

    Which tasks a page shows, in the order of the outline.  A page starts from the tasks that
    have no parent in the tree and that its scope and project admit.  The toggles only leave
    tasks out. -/

namespace Agenda

/-- Which tasks a page starts from. -/
inductive PageScope where
  | all
  | inbox
  | today
  | someday
  deriving DecidableEq

namespace PageScope

/-- The word for a scope. -/
def word : PageScope → Text
  | all => "all".toList
  | inbox => "inbox".toList
  | today => "today".toList
  | someday => "someday".toList

/-- Every scope, in the order in which they are offered. -/
def every : List PageScope := [all, inbox, today, someday]

/-- A word that names no scope. -/
structure Unknown where
  value : Option Text
  deriving DecidableEq

/-- The wording of the error. -/
def Unknown.message (e : Unknown) : Text :=
  "Unknown view scope: ".toList ++ Text.quoted? e.value

/-- The scope that a word names, whatever its case and the blanks around it. -/
def ofWord (value : Option Text) : Except Unknown PageScope :=
  let token := Text.lower (Text.trim (value.getD []))
  match every.find? (·.word == token) with
  | some scope => .ok scope
  | none => .error ⟨value⟩

end PageScope

/-- A page: its toggles, its project if it is restricted to one, its scope and the time at
    which it is shown. -/
structure Page where
  hideNonActionable : Bool := false
  showCompleted     : Bool := false
  project           : Option ProjectId := none
  includeArchived   : Bool := false
  scope             : PageScope := .all
  now               : Stamp

namespace Page

/-- A whole day stands where a time of day is needed. -/
inductive TimeError where
  | wholeDay
  deriving DecidableEq

/-- What the clock shows at a stamp, which must not be a whole day. -/
def clock : Stamp → Except TimeError Moment
  | .moment m => .ok m.dropOffset
  | .day _ => .error .wholeDay

/-- Is the task in the scope of a page shown at `now`? -/
def inScope (scope : PageScope) (now : Moment) (task : Task) : Except TimeError Bool :=
  match scope with
  | .all => .ok true
  | .inbox => .ok task.project.isNone
  | .today =>
    match task.startAt with
    | none => .ok false
    | some start => do return decide ((← clock start).reading ≤ now.reading)
  | .someday => .ok (task.someday && !task.isCompleted)

/-- Do project and archive admit a task at the top of the page? -/
def admits (page : Page) (tree : Tree) (task : Task) : Bool :=
  tree.isTop task && (page.project.isNone || task.project == page.project) &&
    (page.includeArchived || !tree.inArchive task)

/-- The tasks that a page starts from, in the order of the tree. -/
def roots (page : Page) (tree : Tree) : Except TimeError (List TaskId) := do
  let now ← clock page.now
  let tasks ← (tree.tasks.filter (page.admits tree)).filterM (inScope page.scope now)
  return tasks.map Task.id

/-- Keep the lines of an outline that are `shown` and whose parent is kept, unless they are
    at the top.  `kept` are the ids kept so far. -/
def keepShown (shown : Tree.OutlineNode → Bool) (kept : List TaskId) :
    List Tree.OutlineNode → List TaskId
  | [] => []
  | node :: rest =>
    let parentKept := (node.parent.map kept.contains).getD false
    if (node.depth = 0 || parentKept) && shown node then
      node.id :: keepShown shown (node.id :: kept) rest
    else keepShown shown kept rest

/-- Does a page without the tasks that cannot be worked on show this line? -/
def showsNode (page : Page) (tree : Tree) (node : Tree.OutlineNode) : Bool :=
  tree.isActionableId node.id || (page.showCompleted && node.isCompleted)

/-- The lines of a page before tasks that cannot be worked on are left out. -/
def outline (page : Page) (tree : Tree) : Except TimeError (List Tree.OutlineNode) := do
  return tree.outline (← page.roots tree) page.showCompleted

/-- The tasks that a page shows, in order. -/
def visible (page : Page) (tree : Tree) : Except TimeError (List TaskId) := do
  let nodes ← page.outline tree
  if page.hideNonActionable then return keepShown (page.showsNode tree) [] nodes
  else return nodes.map Tree.OutlineNode.id

end Page

end Agenda
