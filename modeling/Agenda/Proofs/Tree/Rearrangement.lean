import Agenda.Proofs.Tree.Actionable
import Agenda.Tree.Outline

/-! # Trees with the same tasks in another arrangement

    A tree lists its tasks in the order in which they were added.  Two trees with the same
    tasks and projects in any two orders find the same tasks, have the same scopes and ways up,
    let the same tasks be worked on and have the same outlines: ids tell tasks apart, and
    manual order breaks ties by id.  Nothing is asked of keys or links. -/

namespace Agenda.Tree

/-- The trees have the same tasks and the same projects, arranged in any way. -/
structure Rearranged (a b : Tree) : Prop where
  tasks    : a.tasks.Perm b.tasks
  projects : a.projects.Perm b.projects

/-! ## Section 1: Manual order -/

theorem sort_perm_eq {l l' : List Task} (hl : ∀ s ∈ l, ∀ t ∈ l, s.id = t.id → s = t)
    (h : l.Perm l') : Task.sort l = Task.sort l' := by
  refine mergeSort_perm_eq (fun _ _ _ => Task.le_trans) Task.le_total ?_ h
  intro s hs t ht hst hts
  exact hl s hs t ht (Task.id_eq_of_le hst hts)

/-! ## Section 2: One step of a way up -/

section steps
variable {tree : Tree} {seen : List TaskId} {task parent : Task} {p : TaskId}
  (hparent : task.parent = some p)
include hparent

theorem ancestorsFrom_of_missing (hp : p ∉ seen) (hget : tree.get? p = none) :
    tree.ancestorsFrom seen task = [p] := by
  rw [ancestorsFrom]
  split
  · next hnone =>
    rw [hparent] at hnone
    cases hnone
  · next q hq =>
    obtain rfl := Option.some.inj (hparent.symm.trans hq)
    rw [dif_neg hp]
    split
    · rfl
    · next parent hsome =>
      rw [hget] at hsome
      cases hsome

theorem ancestorsFrom_of_parent (hp : p ∉ seen) (hget : tree.get? p = some parent) :
    tree.ancestorsFrom seen task = p :: tree.ancestorsFrom (p :: seen) parent := by
  rw [ancestorsFrom.eq_1 tree seen]
  split
  · next hnone =>
    rw [hparent] at hnone
    cases hnone
  · next q hq =>
    obtain rfl := Option.some.inj (hparent.symm.trans hq)
    rw [dif_neg hp]
    split
    · next hnone =>
      rw [hget] at hnone
      cases hnone
    · next parent' hsome =>
      obtain rfl := Option.some.inj (hget.symm.trans hsome)
      rfl

end steps

variable {a b : Tree}

namespace Rearranged

theorem symm (h : a.Rearranged b) : b.Rearranged a := ⟨h.tasks.symm, h.projects.symm⟩

section
variable (h : a.Rearranged b)
include h

/-! ## Section 3: Looking up and scopes -/

theorem get?_eq : a.get? = b.get? := by
  funext id
  exact find?_key_perm a.tasks_nodup h.tasks id

theorem contains_eq : a.contains = b.contains := by
  funext id
  rw [Bool.eq_iff_iff]
  unfold contains
  rw [List.any_eq_true, List.any_eq_true]
  simp only [h.tasks.mem_iff]

theorem getProject?_eq : a.getProject? = b.getProject? := by
  funext id
  exact find?_key_perm a.projects_nodup h.projects id

theorem inArchive_eq : a.inArchive = b.inArchive := by
  unfold inArchive projectOf?
  rw [h.getProject?_eq]

theorem projectTitle?_eq : a.projectTitle? = b.projectTitle? := by
  unfold projectTitle? projectOf?
  rw [h.getProject?_eq]

theorem parent?_eq : a.parent? = b.parent? := by
  unfold parent?
  rw [h.get?_eq]

theorem isTop_eq : a.isTop = b.isTop := by
  unfold isTop
  rw [h.parent?_eq]

theorem children_eq : a.children = b.children := by
  funext parent
  rw [children_eq_sort, children_eq_sort]
  refine sort_perm_eq ?_ (h.tasks.filter _)
  intro s hs t ht hid
  exact eq_of_id_eq (List.mem_of_mem_filter hs) (List.mem_of_mem_filter ht) hid

theorem scope_eq : a.scope = b.scope := by
  unfold scope childrenIn
  rw [h.children_eq]

theorem siblingsOf_eq : a.siblingsOf = b.siblingsOf := by
  unfold siblingsOf
  rw [h.scope_eq]

theorem siblings?_eq : a.siblings? = b.siblings? := by
  unfold siblings?
  rw [h.get?_eq, h.siblingsOf_eq]

/-! ## Section 4: Ways up -/

theorem ancestorsFrom_eq (seen : List TaskId) (task : Task) :
    a.ancestorsFrom seen task = b.ancestorsFrom seen task := by
  fun_induction ancestorsFrom a seen task with
  | case1 seen task hparent => simp [ancestorsFrom, hparent]
  | case2 seen task p hparent hp => simp [ancestorsFrom, hparent, hp]
  | case3 seen task p hparent hp hget =>
    rw [h.get?_eq] at hget
    rw [ancestorsFrom_of_missing hparent hp hget]
  | case4 seen task p hparent hp parent hget ih =>
    rw [h.get?_eq] at hget
    rw [ancestorsFrom_of_parent hparent hp hget, ih]

theorem ancestors_eq : a.ancestors = b.ancestors := by
  funext id
  unfold ancestors
  rw [h.get?_eq]
  simp only [h.ancestorsFrom_eq]

theorem checkParent_eq : a.checkParent = b.checkParent := by
  unfold checkParent cycle?
  rw [h.ancestors_eq, h.contains_eq]

/-! ## Section 5: What can be worked on -/

theorem rank_eq : a.rank = b.rank := by
  funext t
  exact h.tasks.countP_eq _

theorem actionable {t : Task} (ht : a.Actionable t) : b.Actionable t := by
  induction ht with
  | top present eligible atTop =>
    rw [h.isTop_eq] at atTop
    exact Actionable.top (h.tasks.mem_iff.mp present) eligible atTop
  | child present eligible link _ within ih =>
    rw [h.parent?_eq] at link
    unfold WithinLimit at within
    rw [h.rank_eq] at within
    exact Actionable.child (h.tasks.mem_iff.mp present) eligible link ih within

theorem isActionableId_eq : a.isActionableId = b.isActionableId := by
  funext id
  rw [Bool.eq_iff_iff, isActionableId_iff_exists, isActionableId_iff_exists, h.get?_eq]
  constructor
  · intro hid
    obtain ⟨t, hget, ht⟩ := hid
    exact ⟨t, hget, h.actionable ht⟩
  · intro hid
    obtain ⟨t, hget, ht⟩ := hid
    exact ⟨t, hget, h.symm.actionable ht⟩

/-- The same tasks can be worked on. -/
theorem actionability_perm : a.actionability.Perm b.actionability := by
  rw [actionability_eq, actionability_eq, h.isActionableId_eq]
  exact h.tasks.map _

/-! ## Section 6: Outlines -/

theorem outlineFrom_eq (showCompleted : Bool) {left left' : List Task} (hleft : left.Perm left')
    (stack : List (Task × Nat)) :
    a.outlineFrom showCompleted left stack = b.outlineFrom showCompleted left' stack := by
  have hshown : a.shownChildren = b.shownChildren := by
    unfold shownChildren
    rw [h.children_eq]
  -- a task is passed over in both trees or listed in both
  fun_induction outlineFrom a showCompleted left stack generalizing left' with
  | case1 left => simp [outlineFrom]
  | case2 left task depth stack htask hhidden ih =>
    rw [outlineFrom, ih hleft]
    simp [hleft.mem_iff.mp htask, hhidden]
  | case3 left task depth stack htask hhidden ih =>
    rw [outlineFrom, ih (hleft.erase task), hshown]
    simp [hleft.mem_iff.mp htask, hhidden]
  | case4 left task depth stack htask ih =>
    rw [outlineFrom, ih hleft]
    simp [mt hleft.mem_iff.mpr htask]

/-- Outlines below the same roots are the same, however the roots are arranged. -/
theorem outline_eq {roots roots' : List TaskId} (hroots : roots.Perm roots')
    (showCompleted : Bool) : a.outline roots showCompleted = b.outline roots' showCompleted := by
  have hshown : a.shownRoots roots = b.shownRoots roots' := by
    have hsort : Task.sort (roots.filterMap a.get?) = Task.sort (roots'.filterMap a.get?) := by
      refine sort_perm_eq ?_ (hroots.filterMap _)
      intro s hs t ht hid
      obtain ⟨_, -, hs⟩ := List.mem_filterMap.mp hs
      obtain ⟨_, -, ht⟩ := List.mem_filterMap.mp ht
      exact eq_of_id_eq (mem_of_get? hs) (mem_of_get? ht) hid
    unfold shownRoots
    rw [hsort, h.get?_eq]
  unfold outline
  rw [hshown]
  exact h.outlineFrom_eq showCompleted h.tasks _

end

end Rearranged

end Agenda.Tree
