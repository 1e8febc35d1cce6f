import Agenda.Tree.Basic

/-! # What can be worked on

    A task can be worked on when it is open, not put off to some day, and either has no parent
    in the tree or stands within the limit of a parent that can be worked on itself.  A limit
    counts eligible children in manual order; 0 is no limit.  A task on or below a circle of
    parents cannot be worked on.

    Tasks are judged from the top of the tree down, all children of a task together.  What is
    not reached from the top keeps its first verdict, that it cannot be worked on. -/

namespace Agenda.Tree

/-! ## Section 1: Verdicts -/

/-- For each task whether it can be worked on. -/
abbrev Verdicts := List (TaskId × Bool)

namespace Verdicts

/-- The verdict on a task.  Without one it cannot be worked on. -/
def on (verdicts : Verdicts) (id : TaskId) : Bool :=
  ((verdicts.find? (·.1 == id)).map Prod.snd).getD false

/-- Note new verdicts, each in the place of an earlier one on the same task. -/
def note (verdicts new : Verdicts) : Verdicts :=
  new.foldl (fun noted verdict => putBy Prod.fst verdict noted) verdicts

end Verdicts

/-- The verdicts on children one after the other.  `able` says whether their parent can be worked
    on, and `rank` is the number of eligible children before the first of them. -/
def childVerdicts (able : Bool) (limit : Nat) : Nat → List Task → Verdicts
  | _, [] => []
  | rank, child :: rest =>
    if child.isEligible then
      (child.id, able && (limit == 0 || decide (rank < limit))) ::
        childVerdicts able limit (rank + 1) rest
    else (child.id, false) :: childVerdicts able limit rank rest

/-! ## Section 2: From the top down -/

/-- Judge the children of the tasks on the stack, and what is below them.  `left` are the tasks
    whose children have not been judged; a task that is not among them is passed over. -/
def judgeFrom (tree : Tree) (left stack : List Task) (verdicts : Verdicts) : Verdicts :=
  match stack with
  | [] => verdicts
  | task :: stack =>
    if _h : task ∈ left then
      let children := tree.children (some task.id)
      tree.judgeFrom (left.erase task) (children.reverse ++ stack)
        (verdicts.note (childVerdicts (verdicts.on task.id) task.sequentialLimit 0 children))
    else tree.judgeFrom left stack verdicts
termination_by (left.length, stack.length)
decreasing_by
  · apply Prod.Lex.left
    rw [List.length_erase_of_mem _h]
    have := List.length_pos_of_mem _h
    omega
  · exact Prod.Lex.right _ (by simp)

/-- For every task whether it can be worked on. -/
def actionability (tree : Tree) : Verdicts :=
  let tops := tree.tasks.filter tree.isTop
  let unreached : Verdicts := tree.tasks.map fun t => (t.id, false)
  tree.judgeFrom tree.tasks tops.reverse
    (unreached.note (tops.map fun t => (t.id, t.isEligible)))

/-- The ids of the tasks that can be worked on. -/
def actionableIds (tree : Tree) : List TaskId := (tree.actionability.filter (·.2)).map (·.1)

/-- Can the task with this id be worked on? -/
def isActionableId (tree : Tree) (id : TaskId) : Bool := tree.actionability.on id

end Agenda.Tree
