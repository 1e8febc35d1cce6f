import Agenda.Tree.Basic

/-! # Parent links

    The way up from a task, and the check that a new parent link closes no circle.  The way up
    ends at a task without a parent, at a missing parent, or before an id that it has passed,
    so it ends in every tree. -/

namespace Agenda.Tree

/-! ## Section 1: The way up -/

theorem length_filter_lt_of_imp {α : Type} {p q : α → Bool} {l : List α} {a : α} (ha : a ∈ l)
    (hp : p a = true) (hq : q a = false) (himp : ∀ x, q x = true → p x = true) :
    (l.filter q).length < (l.filter p).length := by
  have hfilter : l.filter q = (l.filter p).filter q := by
    rw [List.filter_filter]
    apply List.filter_congr
    intro x _
    cases hx : q x with
    | false => rfl
    | true => exact (himp x hx).symm
  rw [hfilter, List.length_filter_lt_length_iff_exists]
  exact ⟨a, List.mem_filter.mpr ⟨ha, hp⟩, Bool.not_eq_true _ ▸ hq⟩

/-- The tasks whose ids have not been passed. -/
def unseen (tree : Tree) (seen : List TaskId) : List Task :=
  tree.tasks.filter fun t => !seen.contains t.id

theorem unseen_length_lt {tree : Tree} {seen : List TaskId} {id : TaskId} {t : Task}
    (hget : tree.get? id = some t) (hid : id ∉ seen) :
    (tree.unseen (id :: seen)).length < (tree.unseen seen).length := by
  have hmem := List.mem_of_find?_eq_some hget
  have hkey : t.id = id := by simpa using List.find?_some hget
  apply length_filter_lt_of_imp hmem
  · simpa [hkey] using hid
  · simp [hkey]
  · intro x hx
    simp only [List.contains_cons, Bool.not_eq_true', Bool.or_eq_false_iff] at hx ⊢
    exact hx.2

/-- The ids from the parent of `task` upward, when `seen` has been passed. -/
def ancestorsFrom (tree : Tree) (seen : List TaskId) (task : Task) : List TaskId :=
  match task.parent with
  | none => []
  | some p =>
    if _hp : p ∈ seen then []
    else match _h : tree.get? p with
      | none => [p]
      | some parent => p :: tree.ancestorsFrom (p :: seen) parent
termination_by (tree.unseen seen).length
decreasing_by exact unseen_length_lt _h _hp

/-- The ids from the direct parent up.  A missing parent is the last of them. -/
def ancestors (tree : Tree) (id : TaskId) : List TaskId :=
  match tree.get? id with
  | none => []
  | some task => tree.ancestorsFrom [id] task

/-! ## Section 2: Circles -/

/-- The circle that `id` would close under a new parent: from `id` to the parent and up to
    `id` again. -/
def cycle? (tree : Tree) (id : TaskId) (newParent : Option TaskId) : Option (List TaskId) :=
  match newParent with
  | none => none
  | some p =>
    if p = id then some [id, id]
    else
      let up := tree.ancestors p
      if id ∈ up then some (id :: p :: up.takeWhile (· ≠ id) ++ [id]) else none

/-- Why a task cannot get a parent. -/
inductive ParentFault where
  | self
  | missing (parent : TaskId)
  | cycle (path : List TaskId)
  deriving DecidableEq

/-- A refused parent link. -/
structure ParentError where
  task  : TaskId
  fault : ParentFault
  deriving DecidableEq

/-- The word for a fault. -/
def ParentFault.word : ParentFault → Text
  | self => "self".toList
  | missing _ => "missing".toList
  | cycle _ => "cycle".toList

/-- What a fault consists in. -/
def ParentFault.details : ParentFault → Text
  | self => "Task cannot be its own parent".toList
  | missing parent => "Parent '".toList ++ Integer.write parent ++ "' not found".toList
  | cycle path => Text.join " -> ".toList (path.map Integer.write)

/-- The wording of the error. -/
def ParentError.message (e : ParentError) : Text :=
  Integer.write e.task ++ ": ".toList ++ e.fault.word ++ " - ".toList ++ e.fault.details

/-- Accept a parent for a task: none at all, or a task of the tree that is not the task
    itself or below it. -/
def checkParent (tree : Tree) (id : TaskId) (newParent : Option TaskId) :
    Except ParentError Unit :=
  match newParent with
  | none => .ok ()
  | some p =>
    if p = id then .error ⟨id, .self⟩
    else if !tree.contains p then .error ⟨id, .missing p⟩
    else match tree.cycle? id (some p) with
      | some path => .error ⟨id, .cycle path⟩
      | none => .ok ()

end Agenda.Tree
