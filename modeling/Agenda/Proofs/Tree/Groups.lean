import Agenda.Proofs.Tree.Listing
import Agenda.Proofs.Tree.Order
import Mathlib.Data.List.Sort

/-! # Groups as they are shown

    A group is shown with its open tasks first and its completed ones after them, both in
    manual order.  Of two different tasks one is always shown before the other, whatever their
    keys, so a group is determined by the tasks in it (`IsGroup.unique`).  The children of a
    task, the roots of an outline and the siblings of a task are such groups. -/

namespace Agenda

/-! ## Section 1: Shown order -/

namespace Task

variable {s t : Task}

/-- In a group `s` is shown before `t`: it is open and `t` is completed, or both are alike and
    it stands before `t` in manual order. -/
def ShownBefore (s t : Task) : Prop :=
  s.isCompleted = false ∧ t.isCompleted = true ∨
    s.isCompleted = t.isCompleted ∧ s.StandsBefore t

theorem shownBefore_iff_of_eq (h : s.isCompleted = t.isCompleted) :
    s.ShownBefore t ↔ s.StandsBefore t := by
  constructor
  · intro hshown
    rcases hshown with ⟨hopen, hcompleted⟩ | ⟨-, hstands⟩
    · rw [h, hcompleted] at hopen
      cases hopen
    · exact hstands
  · intro hstands
    exact Or.inr ⟨h, hstands⟩

theorem ShownBefore.asymm (h : s.ShownBefore t) : ¬t.ShownBefore s := by
  intro hback
  rcases h with ⟨hopen, hcompleted⟩ | ⟨halike, hstands⟩
  · rcases hback with ⟨hopen', -⟩ | ⟨halike, -⟩
    · rw [hcompleted] at hopen'
      cases hopen'
    · rw [hcompleted, hopen] at halike
      cases halike
  · exact hstands.asymm ((shownBefore_iff_of_eq halike.symm).mp hback)

instance : Std.Asymm StandsBefore := ⟨fun _ _ h => h.asymm⟩

instance : Std.Asymm ShownBefore := ⟨fun _ _ h => h.asymm⟩

end Task

namespace Tree

variable {tree : Tree} {members : Task → Prop} {tasks group group' : List Task} {t : Task}

theorem mem_openFirst : t ∈ openFirst tasks ↔ t ∈ tasks := (openFirst_perm tasks).mem_iff

/-- Tasks in manual order are shown in shown order. -/
theorem openFirst_shown (h : tasks.Pairwise Task.StandsBefore) :
    (openFirst tasks).Pairwise Task.ShownBefore := by
  have halike {p : Task → Bool}
      (hp : ∀ s t : Task, p s = true → p t = true → s.isCompleted = t.isCompleted) :
      (tasks.filter p).Pairwise Task.ShownBefore := by
    refine (h.sublist List.filter_sublist).imp_of_mem ?_
    intro s t hs ht hst
    exact Or.inr ⟨hp s t (List.mem_filter.mp hs).2 (List.mem_filter.mp ht).2, hst⟩
  refine List.pairwise_append.mpr ⟨halike ?_, halike ?_, ?_⟩
  · intro s t hs ht
    rw [Bool.not_eq_true'] at hs ht
    exact hs.trans ht.symm
  · intro s t hs ht
    exact hs.trans ht.symm
  · intro s hs t ht
    have hopen := (List.mem_filter.mp hs).2
    rw [Bool.not_eq_true'] at hopen
    exact Or.inl ⟨hopen, (List.mem_filter.mp ht).2⟩

/-! ## Section 2: Groups of a tree -/

/-- The tasks of the tree that are members, in shown order. -/
structure IsGroup (tree : Tree) (members : Task → Prop) (group : List Task) : Prop where
  ordered : group.Pairwise Task.ShownBefore
  mem_iff : ∀ t, t ∈ group ↔ t ∈ tree.tasks ∧ members t

/-- A group is determined by the tasks in it. -/
theorem IsGroup.unique (h : tree.IsGroup members group) (h' : tree.IsGroup members group') :
    group = group' := by
  refine h.ordered.eq_of_mem_iff h'.ordered ?_
  intro t
  rw [h.mem_iff, h'.mem_iff]

theorem isGroup_openFirst (hstrict : tasks.Pairwise Task.StandsBefore)
    (hmem : ∀ t, t ∈ tasks ↔ t ∈ tree.tasks ∧ members t) :
    tree.IsGroup members (openFirst tasks) where
  ordered := openFirst_shown hstrict
  mem_iff := fun t => mem_openFirst.trans (hmem t)

theorem isGroup_shownChildren (tree : Tree) (id : TaskId) :
    tree.IsGroup (fun t => t.parent = some id) (tree.shownChildren id) :=
  isGroup_openFirst (tree.children_strict (some id)) fun _ => mem_children

theorem mem_filterMap_get? {roots : List TaskId} :
    t ∈ roots.filterMap tree.get? ↔ t ∈ tree.tasks ∧ t.id ∈ roots := by
  rw [List.mem_filterMap]
  constructor
  · intro h
    obtain ⟨id, hid, hget⟩ := h
    obtain rfl := id_of_get? hget
    exact ⟨mem_of_get? hget, hid⟩
  · intro h
    exact ⟨t.id, h.2, mem_tasks_iff.mp h.1⟩

theorem filterMap_get?_ids_sublist (tree : Tree) (roots : List TaskId) :
    ((roots.filterMap tree.get?).map Task.id).Sublist roots := by
  induction roots with
  | nil => exact List.Sublist.slnil
  | cons id rest ih =>
    cases hget : tree.get? id with
    | none =>
      rw [List.filterMap_cons_none hget]
      exact ih.cons id
    | some t =>
      obtain rfl := id_of_get? hget
      rw [List.filterMap_cons_some hget, List.map_cons]
      exact ih.cons_cons _

theorem mem_shownRoots {roots : List TaskId} :
    t ∈ tree.shownRoots roots ↔ t ∈ tree.tasks ∧ t.id ∈ roots := by
  unfold shownRoots
  rw [mem_openFirst, Task.mem_sort, mem_filterMap_get?]

/-- Of ids that are given once each, those that the tree knows make a group. -/
theorem isGroup_shownRoots {roots : List TaskId} (h : roots.Nodup) :
    tree.IsGroup (fun t => t.id ∈ roots) (tree.shownRoots roots) where
  ordered := openFirst_shown (Task.sort_strict (h.sublist (tree.filterMap_get?_ids_sublist roots)))
  mem_iff := fun _ => mem_shownRoots

/-- The tasks ordered together with a task, itself included, as they are shown. -/
def shownSiblings (tree : Tree) (task : Task) : List Task := openFirst (tree.siblingsOf task)

/-- The task is ordered together with `task`. -/
def SharesScope (task t : Task) : Prop :=
  t.parent = task.parent ∧ (task.parent = none → t.project = task.project)

instance (task t : Task) : Decidable (SharesScope task t) := inferInstanceAs (Decidable (_ ∧ _))

theorem isGroup_shownSiblings (tree : Tree) (task : Task) :
    tree.IsGroup (SharesScope task) (tree.shownSiblings task) :=
  isGroup_openFirst (tree.scope_strict task.parent task.project) fun _ => mem_scope

end Tree

end Agenda
