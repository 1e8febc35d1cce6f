import Agenda.Gesture
import Agenda.Page
import Agenda.Proofs.Filter.Sorting
import Agenda.Proofs.Review
import Agenda.Proofs.Tree.Building
import Agenda.Snapshot.Write

/-! # The arrangement of tasks never matters

    Whatever is computed from a tree is the same for its tasks in any other arrangement: the
    scopes, what can be worked on, pages, reviews, the results of queries, plans, and the
    document that is saved (`sameAnswers_of_perm`).  Keys may collide, parents may be missing
    and links may run in circles. -/

namespace Agenda

/-! ## Section 1: Pages -/

namespace Page
variable {a b : Tree}

instance : Subsingleton TimeError := ⟨fun .wholeDay .wholeDay => rfl⟩

theorem admits_eq (h : a.Rearranged b) (page : Page) : page.admits a = page.admits b := by
  funext task
  unfold admits
  rw [h.isTop_eq, h.inArchive_eq]

theorem outline_eq (h : a.Rearranged b) (page : Page) : page.outline a = page.outline b := by
  unfold outline roots
  rw [admits_eq h]
  cases clock page.now with
  | error e => rfl
  | ok now =>
    show ((a.tasks.filter _).filterM _ >>= _) >>= _ = ((b.tasks.filter _).filterM _ >>= _) >>= _
    rw [bind_assoc, bind_assoc]
    apply filterM_bind_congr (h.tasks.filter _)
    intro kept kept' _ hperm
    rw [pure_bind, pure_bind, h.outline_eq (hperm.map _)]

/-- A page shows the same tasks in the same order. -/
theorem visible_eq (h : a.Rearranged b) (page : Page) : page.visible a = page.visible b := by
  have hshows : page.showsNode a = page.showsNode b := by
    funext node
    unfold showsNode
    rw [h.isActionableId_eq]
  unfold visible
  rw [outline_eq h, hshows]

end Page

/-! ## Section 2: Plans -/

namespace Gesture
variable {a b : Tree} (h : a.Rearranged b)
include h

theorem require_eq : require a = require b := by
  unfold require
  rw [h.get?_eq]

theorem scopeWithout_eq : scopeWithout a = scopeWithout b := by
  unfold scopeWithout
  rw [h.scope_eq]

theorem checkParent_eq : checkParent a = checkParent b := by
  unfold checkParent
  rw [h.checkParent_eq]

/-- A gesture has the same plan, or is refused for the same reason. -/
theorem plan_eq (g : Gesture) : g.plan a = g.plan b := by
  unfold plan planInsert planMove planIndent planUnindent planReparent planAppend
  rw [require_eq h, scopeWithout_eq h, checkParent_eq h, h.siblingsOf_eq, h.parent?_eq]

end Gesture

/-! ## Section 3: Documents -/

namespace Snapshot
variable {a b : Tree} (h : a.Rearranged b)
include h

theorem tasksById_eq : tasksById a = tasksById b :=
  mergeSort_key_perm_eq a.tasks_nodup h.tasks

theorem projectsById_eq : projectsById a = projectsById b :=
  mergeSort_key_perm_eq a.projects_nodup h.projects

/-- The same document is saved. -/
theorem write_eq : write a = write b := by
  unfold write
  rw [projectsById_eq h, tasksById_eq h]

end Snapshot

/-! ## Section 4: All answers -/

/-- Nothing that is computed from the trees tells them apart. -/
structure Tree.SameAnswers (a b : Tree) : Prop where
  siblings : ∀ id, a.siblings? id = b.siblings? id
  /-- The same pairs: each id has one, so this is one map. -/
  actionability : a.actionability.Perm b.actionability
  pages    : ∀ page : Page, page.visible a = page.visible b
  reviews  : ∀ today interval, Review.lists a today interval = Review.lists b today interval
  results  : ∀ q : Filter.Query, q.execute a = q.execute b
  plans    : ∀ g : Gesture, g.plan a = g.plan b
  document : Snapshot.write a = Snapshot.write b

theorem Tree.Rearranged.sameAnswers {a b : Tree} (h : a.Rearranged b) : a.SameAnswers b where
  siblings _ := by rw [h.siblings?_eq]
  actionability := h.actionability_perm
  pages := Page.visible_eq h
  reviews := Review.lists_eq h
  results := Filter.execute_eq h
  plans := Gesture.plan_eq h
  document := Snapshot.write_eq h

/-- **Tasks with distinct ids make a tree in any arrangement, and no two arrangements are told
    apart by anything that is computed from the tree.** -/
theorem sameAnswers_of_perm {tasks tasks' : List Task} (projects : List Project)
    (hids : (tasks.map Task.id).Nodup) (hperm : tasks.Perm tasks') :
    ∃ a b, Tree.ofTasks tasks projects = .ok a ∧ Tree.ofTasks tasks' projects = .ok b ∧
      a.SameAnswers b := by
  have hids' : (tasks'.map Task.id).Nodup := (hperm.map Task.id).nodup_iff.mp hids
  let kept := collectBy Project.id projects
  have hkept : (kept.map Project.id).Nodup := collectBy_nodup Project.id projects
  let a : Tree := ⟨tasks, kept, hids, hkept⟩
  let b : Tree := ⟨tasks', kept, hids', hkept⟩
  have hab : a.Rearranged b := ⟨hperm, List.Perm.refl kept⟩
  refine ⟨a, b, ?_, ?_, hab.sameAnswers⟩
  · exact Tree.ofTasks_eq_ok_iff.mpr ⟨rfl, rfl⟩
  · exact Tree.ofTasks_eq_ok_iff.mpr ⟨rfl, rfl⟩

/-- Two tasks with one key, a task whose parent is missing, and two that are each other's
    parents. -/
def tangled : List Task :=
  [{ id := 1, sortKey := ['a', '0'] }, { id := 2, sortKey := ['a', '0'] },
   { id := 3, parent := some 9 }, { id := 4, parent := some 5 }, { id := 5, parent := some 4 }]

theorem sameAnswers_of_perm_tangled : (tangled.map Task.id).Nodup ∧
    tangled ≠ tangled.reverse ∧ tangled.Perm tangled.reverse ∧
    ∃ a b, Tree.ofTasks tangled [] = .ok a ∧ Tree.ofTasks tangled.reverse [] = .ok b ∧
      a.SameAnswers b := by
  have hids : (tangled.map Task.id).Nodup := by decide
  have hperm : tangled.Perm tangled.reverse := (List.reverse_perm tangled).symm
  refine ⟨hids, ?_, hperm, sameAnswers_of_perm [] hids hperm⟩
  decide

end Agenda
