import Agenda.Tree.Basic

/-! # Review

    Open tasks without a parent are looked through at regular intervals, together with what is
    below them; archived projects are left alone.  A task that was never reviewed is due, and
    so is one whose last review lies an interval or more back. -/

namespace Agenda

namespace Review

/-- The first day of an interval lies outside of the calendar. -/
inductive IntervalError where
  | outOfCalendar
  deriving DecidableEq

/-- The interval when none is set, in days. -/
def defaultInterval : Int := 7

/-- How many recently reviewed tasks are listed. -/
def recentLimit : Int := 50

/-- The day of the last review. -/
def lastReview (task : Task) : Option Day := task.reviewedAt.map Stamp.toDay

/-- Is the task reviewed on its own, if its project is not archived? -/
def isReviewed (task : Task) : Bool := !task.isCompleted && task.isRoot

/-- Does the task take part in reviews? -/
def takesPart (tree : Tree) (task : Task) : Bool := isReviewed task && !tree.inArchive task

/-- Is the task due for review?  The latest day of a review that is due again is computed
    only for a task that has been reviewed. -/
def isDue (today : Day) (interval : Int) (task : Task) : Except IntervalError Bool :=
  if !isReviewed task then .ok false
  else match lastReview task with
    | none => .ok true
    | some day =>
      match today.back? interval with
      | none => .error .outOfCalendar
      | some latest => .ok (decide (day ≤ latest))

/-- Never reviewed first, then the oldest review, then manual order. -/
def dueLe (a b : Task) : Bool :=
  match lastReview a, lastReview b with
  | none, none => Task.le a b
  | none, some _ => true
  | some _, none => false
  | some x, some y => decide (x < y) || (x == y && Task.le a b)

/-- The newest review first. -/
def newestFirst (a b : Task) : Bool :=
  match lastReview a, lastReview b with
  | some x, some y => decide (y ≤ x)
  | _, none => true
  | none, some _ => false

/-- The tasks due for review. -/
def due (tree : Tree) (today : Day) (interval : Int) : Except IntervalError (List TaskId) := do
  let tasks ← (tree.tasks.filter (takesPart tree)).filterM (isDue today interval)
  return (tasks.mergeSort dueLe).map Task.id

/-- The first `limit` of a list; a negative limit leaves off as many at the end. -/
def limited {α : Type} (limit : Int) (l : List α) : List α :=
  if limit < 0 then l.take (l.length - limit.natAbs) else l.take limit.toNat

/-- All reviewed tasks that are not due again.  They are brought into manual order before they
    are sorted by the day of the review, so tasks of one day stay in manual order. -/
def allRecent (tree : Tree) (today : Day) (interval : Int) :
    Except IntervalError (List TaskId) := do
  let reviewed := tree.tasks.filter fun t => takesPart tree t && (lastReview t).isSome
  let tasks ← reviewed.filterM fun t => return !(← isDue today interval t)
  return ((Task.sort tasks).mergeSort newestFirst).map Task.id

/-- The tasks reviewed most recently that are not due again. -/
def recent (tree : Tree) (today : Day) (interval limit : Int) :
    Except IntervalError (List TaskId) :=
  (allRecent tree today interval).map (limited limit)

end Review

/-- What there is to review, and what has been reviewed. -/
structure ReviewLists where
  due    : List TaskId
  recent : List TaskId
  deriving DecidableEq

/-- The two lists of a review page. -/
def Review.lists (tree : Tree) (today : Day) (interval : Int) :
    Except Review.IntervalError ReviewLists := do
  let due ← Review.due tree today interval
  let recent ← Review.recent tree today interval Review.recentLimit
  return { due, recent }

end Agenda
