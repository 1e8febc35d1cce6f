import Agenda.Tree.Basic

/-! # The outline of a tree

    Tasks from given roots downward, each task before its children.  In every group open tasks
    come first and completed ones, if they are shown, after them.  No task is listed twice,
    whatever the roots and the links. -/

namespace Agenda.Tree

/-- A line of the outline. -/
structure OutlineNode where
  id          : TaskId
  parent      : Option TaskId
  depth       : Nat
  isCompleted : Bool
  deriving DecidableEq

/-- Open tasks first, then completed ones. -/
def openFirst (tasks : List Task) : List Task :=
  tasks.filter (!·.isCompleted) ++ tasks.filter (·.isCompleted)

/-- The children of a task as a group of the outline. -/
def shownChildren (tree : Tree) (id : TaskId) : List Task :=
  openFirst (tree.children (some id))

/-- List the tasks on the stack, each with its depth, and what is below them.  `left` are the
    tasks that have not been listed; a task that is not among them is passed over. -/
def outlineFrom (tree : Tree) (showCompleted : Bool) (left : List Task)
    (stack : List (Task × Nat)) : List OutlineNode :=
  match stack with
  | [] => []
  | (task, depth) :: stack =>
    if _h : task ∈ left then
      -- through a completed task that is not shown nothing below it is reached
      if task.isCompleted && !showCompleted then tree.outlineFrom showCompleted left stack
      else
        ⟨task.id, task.parent, depth, task.isCompleted⟩ ::
          tree.outlineFrom showCompleted (left.erase task)
            ((tree.shownChildren task.id).map (·, depth + 1) ++ stack)
    else tree.outlineFrom showCompleted left stack
termination_by (left.length, stack.length)
decreasing_by
  · exact Prod.Lex.right _ (by simp)
  · apply Prod.Lex.left
    rw [List.length_erase_of_mem _h]
    have := List.length_pos_of_mem _h
    omega
  · exact Prod.Lex.right _ (by simp)

/-- The roots as the first group of an outline: unknown ids are passed over. -/
def shownRoots (tree : Tree) (roots : List TaskId) : List Task :=
  openFirst (Task.sort (roots.filterMap tree.get?))

/-- The outline below the given roots. -/
def outline (tree : Tree) (roots : List TaskId) (showCompleted : Bool) : List OutlineNode :=
  tree.outlineFrom showCompleted tree.tasks ((tree.shownRoots roots).map (·, 0))

end Agenda.Tree
