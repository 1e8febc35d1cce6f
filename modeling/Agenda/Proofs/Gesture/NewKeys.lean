import Agenda.Gesture
import Agenda.Proofs.Basic
import Agenda.Proofs.SortKey.Keys
import Agenda.Proofs.Tree.Order

/-! # Keys for the places of a scope

    A key that is made above a task, below a task or at the end of a list is made between the
    keys of its two neighbours.  In a list with ascending keys these speak for all tasks: the
    key is above those of all tasks before its place and below those of all others. -/

namespace Agenda.Gesture

/-! ## Section 1: The scope without the moved task -/

section scopes
variable {tree : Tree} {s t : Task} {parent : Option TaskId} {project : Option ProjectId}
  {moved : Option TaskId}

theorem mem_scopeWithout : t ∈ scopeWithout tree parent project moved ↔
    t ∈ tree.scope parent project ∧ some t.id ≠ moved := by
  simp [scopeWithout]

theorem mem_tasks_of_scopeWithout (h : t ∈ scopeWithout tree parent project moved) :
    t ∈ tree.tasks :=
  (Tree.mem_scope.mp (mem_scopeWithout.mp h).1).1

theorem scopeWithout_ascending (tree : Tree) (parent : Option TaskId)
    (project : Option ProjectId) (moved : Option TaskId) :
    (scopeWithout tree parent project moved).Pairwise (fun a b => a.sortKey ≤ b.sortKey) :=
  (tree.scope_ascending parent project).sublist List.filter_sublist

theorem scopeWithout_strict (tree : Tree) (parent : Option TaskId)
    (project : Option ProjectId) (moved : Option TaskId) :
    (scopeWithout tree parent project moved).Pairwise Task.StandsBefore :=
  (tree.scope_strict parent project).sublist List.filter_sublist

theorem id_ne_of_standsBefore (hs : s ∈ tree.tasks) (ht : t ∈ tree.tasks)
    (h : s.StandsBefore t) : s.id ≠ t.id := by
  intro hid
  obtain rfl := Tree.eq_of_id_eq hs ht hid
  exact Task.not_standsBefore_self s h

end scopes

/-! ## Section 2: Keys next to a task -/

section keys
variable {tasks front back : List Task} {task : Task} {key : Text}

/-- Before the place of a task in a list stands the last of those before it. -/
theorem getElem?_before (front back : List Task) (task : Task) :
    (if front.length = 0 then none else (front ++ task :: back)[front.length - 1]?) =
      front.getLast? := by
  by_cases hfront : front.length = 0
  · rw [if_pos hfront, List.length_eq_zero_iff.mp hfront]
    rfl
  · rw [if_neg hfront, List.getElem?_append_left (by omega), ← List.getLast?_eq_getElem?]

/-- After the place of a task in a list stands the first of those after it. -/
theorem getElem?_after (front back : List Task) (task : Task) :
    (front ++ task :: back)[front.length + 1]? = back.head? := by
  rw [List.getElem?_append_right (by omega), Nat.add_sub_cancel_left, List.getElem?_cons_succ,
    ← List.head?_eq_getElem?]

theorem place_append (h : ∀ s ∈ front, s.id ≠ task.id) :
    place (front ++ task :: back) task = .ok front.length := by
  have hfront : front.findIdx? (·.id == task.id) = none := by
    rw [List.findIdx?_eq_none_iff]
    simpa using h
  unfold place
  rw [List.findIdx?_append, hfront, List.findIdx?_cons]
  simp

theorem place_of_forall_ne (h : ∀ s ∈ tasks, s.id ≠ task.id) :
    place tasks task = .error (.notInScope task.id) := by
  have hnone : tasks.findIdx? (·.id == task.id) = none := by
    rw [List.findIdx?_eq_none_iff]
    simpa using h
  unfold place
  rw [hnone]

theorem keyAbove_append (h : ∀ s ∈ front, s.id ≠ task.id) :
    keyAbove (front ++ task :: back) task =
      newKey (front.getLast?.map Task.sortKey) (some task.sortKey) := by
  unfold keyAbove keyBefore
  rw [place_append h, ← getElem?_before front back task]
  show newKey (if front.length = 0 then none else _) _ = _
  split <;> rfl

theorem keyBelow_append (h : ∀ s ∈ front, s.id ≠ task.id) :
    keyBelow (front ++ task :: back) task =
      newKey (some task.sortKey) (back.head?.map Task.sortKey) := by
  unfold keyBelow keyAfter
  rw [place_append h, ← getElem?_after front back task]
  rfl

/-- A new key lies strictly between its bounds. -/
theorem newKey_strict {before after : Option Text} (h : newKey before after = .ok key) :
    (∀ a ∈ before, a < key) ∧ ∀ b ∈ after, key < b :=
  SortKey.between_strict (mapError_eq_ok_iff.mp h)

/-- A key above that of the last of some tasks with ascending keys is above those of all. -/
theorem lt_of_getLast (hsorted : tasks.Pairwise (fun a b => a.sortKey ≤ b.sortKey))
    (h : ∀ t ∈ tasks.getLast?, t.sortKey < key) : ∀ t ∈ tasks, t.sortKey < key := by
  intro t ht
  obtain ⟨last, hlast, heq | hle⟩ := eq_or_rel_getLast hsorted ht
  · exact heq ▸ h last hlast
  · exact lt_of_le_of_lt hle (h last hlast)

/-- A key below that of the first of some tasks with ascending keys is below those of all. -/
theorem lt_of_head (hsorted : tasks.Pairwise (fun a b => a.sortKey ≤ b.sortKey))
    (h : ∀ t ∈ tasks.head?, key < t.sortKey) : ∀ t ∈ tasks, key < t.sortKey := by
  intro t ht
  obtain ⟨first, hfirst, heq | hle⟩ := eq_or_rel_head hsorted ht
  · exact heq ▸ h first hfirst
  · exact lt_of_lt_of_le (h first hfirst) hle

end keys

end Agenda.Gesture
