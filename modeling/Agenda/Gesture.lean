import Agenda.SortKey.Between
import Agenda.Tree.Ancestry

/-! # Ordering gestures

    What a gesture does to the moved task: its new sort key and its new parent.  Every task of
    the scope, completed or not, bounds the new key, so no two keys of a scope collide.  Moves
    up and down step over the nearest task of the same completion state, for lists show open
    and completed tasks apart. -/

namespace Agenda

/-- The kinds of gestures. -/
inductive GestureKind where
  | insertAbove
  | insertBelow
  | moveUp
  | moveDown
  | indent
  | unindent
  | reparent
  | append
  deriving DecidableEq

namespace GestureKind

/-- The word for a kind. -/
def word : GestureKind → Text
  | insertAbove => "insert-above".toList
  | insertBelow => "insert-below".toList
  | moveUp => "move-up".toList
  | moveDown => "move-down".toList
  | indent => "indent".toList
  | unindent => "unindent".toList
  | reparent => "reparent".toList
  | append => "append".toList

/-- Every kind, in the order in which they are offered. -/
def every : List GestureKind :=
  [insertAbove, insertBelow, moveUp, moveDown, indent, unindent, reparent, append]

/-- A word that names no kind. -/
structure Unknown where
  value : Option Text
  deriving DecidableEq

/-- The wording of the error. -/
def Unknown.message (e : Unknown) : Text :=
  "Unknown ordering kind: ".toList ++ Text.quoted? e.value

/-- The kind that a word names, whatever its case and the blanks around it, with underscores
    or hyphens. -/
def ofWord (value : Option Text) : Except Unknown GestureKind :=
  let token := Text.replaceChar '_' ['-'] (Text.lower (Text.trim (value.getD [])))
  match every.find? (·.word == token) with
  | some kind => .ok kind
  | none => .error ⟨value⟩

end GestureKind

/-- A gesture: the moved task (missing when a new task is placed), the task that an insertion
    is relative to, the target parent, and the project for a new task at the top. -/
structure Gesture where
  kind    : GestureKind
  task    : Option TaskId := none
  anchor  : Option TaskId := none
  parent  : Option TaskId := none
  project : Option ProjectId := none
  deriving DecidableEq

/-- What a gesture comes to. -/
structure Plan where
  sortKey : Text
  parent  : Option TaskId
  changed : Bool := true
  deriving DecidableEq

/-- The part that a task plays in a gesture. -/
inductive GestureRole where
  | anchor
  | parent
  | moved
  deriving DecidableEq

/-- The word for a role. -/
def GestureRole.word : GestureRole → Text
  | anchor => "Anchor".toList
  | parent => "Parent".toList
  | moved => "Moved".toList

/-- Why a gesture has no plan. -/
inductive GestureError where
  | notFound (role : GestureRole) (id : Option TaskId)
  | notInScope (id : TaskId)
  | key (e : SortKey.KeyError)
  | parent (e : Tree.ParentError)
  deriving DecidableEq

/-- The wording of the error. -/
def GestureError.message : GestureError → Text
  | notFound role id =>
    role.word ++ " task not found: ".toList ++
      (match id with
        | some i => Integer.write i
        | none => "None".toList)
  | notInScope id =>
    "Task ".toList ++ Integer.write id ++ " is not ordered in its scope".toList
  | key e => e.message
  | parent e => e.message

namespace Gesture

/-! ## Section 1: Places in a scope -/

/-- The task that plays a role. -/
def require (tree : Tree) (id : Option TaskId) (role : GestureRole) : Except GestureError Task :=
  match id.bind tree.get? with
  | some task => .ok task
  | none => .error (.notFound role id)

/-- The tasks of a scope but for the one with the id `moved`. -/
def scopeWithout (tree : Tree) (parent : Option TaskId) (project : Option ProjectId)
    (moved : Option TaskId) : List Task :=
  (tree.scope parent project).filter fun t => some t.id != moved

/-- The place of a task in a list. -/
def place (tasks : List Task) (task : Task) : Except GestureError Nat :=
  match tasks.findIdx? (·.id == task.id) with
  | some i => .ok i
  | none => .error (.notInScope task.id)

/-- The key just before a task. -/
def keyBefore (tasks : List Task) (task : Task) : Except GestureError (Option Text) := do
  let i ← place tasks task
  return if i = 0 then none else tasks[i - 1]?.map Task.sortKey

/-- The key just after a task. -/
def keyAfter (tasks : List Task) (task : Task) : Except GestureError (Option Text) := do
  let i ← place tasks task
  return tasks[i + 1]?.map Task.sortKey

/-- A new key between two bounds. -/
def newKey (before after : Option Text) : Except GestureError Text :=
  (SortKey.between before after).mapError .key

/-- A new key above a task of a list. -/
def keyAbove (tasks : List Task) (task : Task) : Except GestureError Text := do
  newKey (← keyBefore tasks task) (some task.sortKey)

/-- A new key below a task of a list. -/
def keyBelow (tasks : List Task) (task : Task) : Except GestureError Text := do
  newKey (some task.sortKey) (← keyAfter tasks task)

/-- A new key after all tasks of a list. -/
def keyAtEnd (tasks : List Task) : Except GestureError Text :=
  newKey (tasks.getLast?.map Task.sortKey) none

/-- The tasks shown in one group with `task`. -/
def shownGroup (tasks : List Task) (task : Task) : List Task :=
  tasks.filter (·.isCompleted == task.isCompleted)

/-- The plan that leaves a task where it is. -/
def unchanged (task : Task) : Plan :=
  { sortKey := task.sortKey, parent := task.parent, changed := false }

/-! ## Section 2: Plans -/

/-- Insert above or below the anchor. -/
def planInsert (g : Gesture) (tree : Tree) (above : Bool) : Except GestureError Plan := do
  let anchor ← require tree g.anchor .anchor
  if some anchor.id = g.task then return unchanged anchor
  let scope := scopeWithout tree anchor.parent anchor.project g.task
  let key ← if above then keyAbove scope anchor else keyBelow scope anchor
  return { sortKey := key, parent := anchor.parent }

/-- Step over the task shown above or below. -/
def planMove (tree : Tree) (task : Task) (up : Bool) : Except GestureError Plan := do
  let scope := tree.siblingsOf task
  let group := shownGroup scope task
  let i ← place group task
  let neighbour := if up then (if i = 0 then none else group[i - 1]?) else group[i + 1]?
  match neighbour with
  | none => return unchanged task
  | some neighbour =>
    let key ← if up then keyAbove scope neighbour else keyBelow scope neighbour
    return { sortKey := key, parent := task.parent }

/-- Accept a new parent for a task. -/
def checkParent (tree : Tree) (id : TaskId) (parent : Option TaskId) :
    Except GestureError Unit :=
  (tree.checkParent id parent).mapError .parent

/-- Become the last child of the task shown above. -/
def planIndent (tree : Tree) (task : Task) : Except GestureError Plan := do
  let group := shownGroup (tree.siblingsOf task) task
  let i ← place group task
  match if i = 0 then none else group[i - 1]? with
  | none => return unchanged task
  | some parent =>
    checkParent tree task.id (some parent.id)
    let key ← keyAtEnd (scopeWithout tree (some parent.id) none (some task.id))
    return { sortKey := key, parent := some parent.id }

/-- Leave the parent and stand just after it. -/
def planUnindent (tree : Tree) (task : Task) : Except GestureError Plan :=
  match tree.parent? task with
  | none => return unchanged task
  | some parent => do
    let scope := scopeWithout tree parent.parent parent.project (some task.id)
    let key ← keyBelow scope parent
    return { sortKey := key, parent := parent.parent }

/-- Become the last child of a given parent. -/
def planReparent (tree : Tree) (task : Task) (parent : Option TaskId) :
    Except GestureError Plan := do
  checkParent tree task.id parent
  if parent = task.parent then return unchanged task
  let key ← keyAtEnd (scopeWithout tree parent task.project (some task.id))
  return { sortKey := key, parent := parent }

/-- Stand at the end of a scope. -/
def planAppend (g : Gesture) (tree : Tree) : Except GestureError Plan := do
  if g.parent.isSome then
    let _ ← require tree g.parent .parent
  let key ← keyAtEnd (scopeWithout tree g.parent g.project g.task)
  return { sortKey := key, parent := g.parent }

/-- The plan of a gesture. -/
def plan (g : Gesture) (tree : Tree) : Except GestureError Plan :=
  match g.kind with
  | .insertAbove => g.planInsert tree true
  | .insertBelow => g.planInsert tree false
  | .append => g.planAppend tree
  | .moveUp => do planMove tree (← require tree g.task .moved) true
  | .moveDown => do planMove tree (← require tree g.task .moved) false
  | .indent => do planIndent tree (← require tree g.task .moved)
  | .unindent => do planUnindent tree (← require tree g.task .moved)
  | .reparent => do planReparent tree (← require tree g.task .moved) g.parent

/-! ## Section 3: Carrying a plan out -/

/-- The task that a plan moves, with its new key and parent. -/
def moved (task : Task) (plan : Plan) : Task :=
  { task with sortKey := plan.sortKey, parent := plan.parent }

/-- Carry a plan out on a task: a plan that changes nothing leaves the tree as it is. -/
def carryOut (tree : Tree) (task : Task) (plan : Plan) : Tree :=
  if plan.changed then tree.put (moved task plan) else tree

end Gesture

end Agenda
