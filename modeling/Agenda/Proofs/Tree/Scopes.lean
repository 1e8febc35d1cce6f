import Agenda.Proofs.Basic
import Agenda.Tree.Basic
import Mathlib.Data.Char
import Mathlib.Data.Int.Order.Basic
import Mathlib.Data.List.Lex
import Mathlib.Data.List.Nodup

/-! # Scopes of a tree

    Which tasks a scope lists and in what order, what putting a task into a tree changes, and
    when it leaves the keys of every scope distinct (`hasDistinctKeys_put_iff`): the key has to
    differ from those of the scope that the task's own parent and project put it into. -/

namespace Agenda

/-! ## Section 1: Manual order -/

namespace Task

/-- Keys decide, and ids where keys are equal. -/
theorem le_refinesBy : RefinesBy sortKey (fun a b => decide (a.id ≤ b.id)) le := by
  intro a b
  simp [le]

theorem key_le_of_le {a b : Task} (h : le a b = true) : a.sortKey ≤ b.sortKey := by
  rcases (le_refinesBy a b).mp h with hlt | ⟨heq, -⟩
  · exact le_of_lt hlt
  · exact le_of_eq heq

theorem le_trans {a b c : Task} (hab : le a b = true) (hbc : le b c = true) : le a c = true :=
  le_refinesBy.trans key_le_trans a b c hab hbc

theorem le_total (a b : Task) : (le a b || le b a) = true :=
  le_refinesBy.total key_le_total a b

/-- Tasks that stand before each other have one id. -/
theorem id_eq_of_le {a b : Task} (hab : le a b = true) (hba : le b a = true) : a.id = b.id := by
  obtain ⟨hab, hba⟩ := le_refinesBy.le_of_mutual hab hba
  exact key_eq_of_le hab hba

theorem sort_perm (tasks : List Task) : (sort tasks).Perm tasks := List.mergeSort_perm tasks le

theorem mem_sort {tasks : List Task} {t : Task} : t ∈ sort tasks ↔ t ∈ tasks :=
  (sort_perm tasks).mem_iff

theorem sort_pairwise (tasks : List Task) :
    (sort tasks).Pairwise (fun a b => le a b = true) := by
  have htrans : ∀ a b c : Task, le a b = true → le b c = true → le a c = true :=
    fun _ _ _ => le_trans
  exact List.pairwise_mergeSort htrans le_total tasks

/-- Tasks in manual order have ascending keys. -/
theorem sort_ascending (tasks : List Task) :
    (sort tasks).Pairwise (fun a b => a.sortKey ≤ b.sortKey) :=
  (sort_pairwise tasks).imp key_le_of_le

/-- Tasks that stand in manual order stay as they are. -/
theorem sort_eq_self {tasks : List Task} (h : tasks.Pairwise (fun a b => le a b = true)) :
    sort tasks = tasks :=
  List.mergeSort_of_pairwise h

end Task

namespace Tree

variable {tree : Tree} {a b t task : Task} {parent : Option TaskId} {project : Option ProjectId}

/-! ## Section 2: The tasks of a tree -/

theorem mem_of_get? {id : TaskId} (h : tree.get? id = some t) : t ∈ tree.tasks :=
  List.mem_of_find?_eq_some h

theorem id_of_get? {id : TaskId} (h : tree.get? id = some t) : t.id = id := by
  simpa using List.find?_some h

theorem eq_of_id_eq (ha : a ∈ tree.tasks) (hb : b ∈ tree.tasks) (h : a.id = b.id) : a = b :=
  List.inj_on_of_nodup_map tree.tasks_nodup ha hb h

theorem mem_tasks_iff : t ∈ tree.tasks ↔ tree.get? t.id = some t := by
  constructor
  · intro ht
    have hsome : (tree.get? t.id).isSome := List.find?_isSome.mpr ⟨t, ht, by simp⟩
    obtain ⟨t', ht'⟩ := Option.isSome_iff_exists.mp hsome
    rw [ht', eq_of_id_eq (mem_of_get? ht') ht (id_of_get? ht')]
  · intro h
    exact mem_of_get? h

/-- Putting a task into a tree leaves the tasks with other ids. -/
theorem mem_put : t ∈ (tree.put task).tasks ↔ t = task ∨ t ∈ tree.tasks ∧ t.id ≠ task.id := by
  rw [mem_tasks_iff, get?_put]
  by_cases h : task.id = t.id
  · rw [if_pos h]
    constructor
    · intro heq
      exact Or.inl (Option.some.inj heq).symm
    · intro h
      rcases h with rfl | ⟨-, hne⟩
      · rfl
      · exact absurd h.symm hne
  · rw [if_neg h, ← mem_tasks_iff]
    constructor
    · intro ht
      exact Or.inr ⟨ht, fun heq => h heq.symm⟩
    · intro h
      rcases h with rfl | ⟨ht, -⟩
      · exact absurd rfl h
      · exact ht

/-! ## Section 3: The tasks of a scope -/

theorem mem_children : t ∈ tree.children parent ↔ t ∈ tree.tasks ∧ t.parent = parent := by
  rw [children_eq_sort, Task.mem_sort, List.mem_filter, beq_iff_eq]

theorem mem_scope : t ∈ tree.scope parent project ↔
    t ∈ tree.tasks ∧ t.parent = parent ∧ (parent = none → t.project = project) := by
  unfold scope childrenIn
  cases parent with
  | none => simp [mem_children, and_assoc]
  | some p => simp [mem_children]

/-- A scope lists its tasks with ascending keys. -/
theorem scope_ascending (tree : Tree) (parent : Option TaskId) (project : Option ProjectId) :
    (tree.scope parent project).Pairwise (fun a b => a.sortKey ≤ b.sortKey) := by
  unfold scope childrenIn
  rw [children_eq_sort, children_eq_sort]
  cases parent with
  | none => exact (Task.sort_ascending _).sublist List.filter_sublist
  | some p => exact Task.sort_ascending _

theorem children_nodup (tree : Tree) (parent : Option TaskId) : (tree.children parent).Nodup := by
  have htasks : tree.tasks.Nodup := List.Nodup.of_map Task.id tree.tasks_nodup
  rw [children_eq_sort, (Task.sort_perm _).nodup_iff]
  exact htasks.filter _

theorem scope_nodup (tree : Tree) (parent : Option TaskId) (project : Option ProjectId) :
    (tree.scope parent project).Nodup := by
  unfold scope childrenIn
  cases parent with
  | none => exact (tree.children_nodup none).filter _
  | some p => exact tree.children_nodup (some p)

theorem mem_tasks_put (h : t.id ≠ task.id) : t ∈ (tree.put task).tasks ↔ t ∈ tree.tasks := by
  have hne : t ≠ task := fun heq => h (heq ▸ rfl)
  rw [mem_put]
  simp [hne, h]

/-- Tasks other than the one that is put into a tree stay with their parents. -/
theorem mem_children_put (h : t.id ≠ task.id) :
    t ∈ (tree.put task).children parent ↔ t ∈ tree.children parent := by
  rw [mem_children, mem_children, mem_tasks_put h]

/-- They stay in their scopes. -/
theorem mem_scope_put (h : t.id ≠ task.id) :
    t ∈ (tree.put task).scope parent project ↔ t ∈ tree.scope parent project := by
  rw [mem_scope, mem_scope, mem_tasks_put h]

/-! ## Section 4: Distinct keys -/

/-- Within each scope no two tasks have one key. -/
def HasDistinctKeys (tree : Tree) : Prop :=
  ∀ parent project, ((tree.scope parent project).map Task.sortKey).Nodup

/-- A task is the only one of its scope with its key. -/
theorem hasDistinctKeys_iff : tree.HasDistinctKeys ↔
    ∀ a ∈ tree.tasks, ∀ b ∈ tree.tasks, a.parent = b.parent →
      (a.parent = none → a.project = b.project) → a.sortKey = b.sortKey → a = b := by
  constructor
  · intro h a ha b hb hparent hproject hkey
    have hscope : a ∈ tree.scope b.parent b.project :=
      mem_scope.mpr ⟨ha, hparent, fun hnone => hproject (hparent.trans hnone)⟩
    have hscope' : b ∈ tree.scope b.parent b.project := mem_scope.mpr ⟨hb, rfl, fun _ => rfl⟩
    exact List.inj_on_of_nodup_map (h b.parent b.project) hscope hscope' hkey
  · intro h parent project
    refine List.Nodup.map_on ?_ (scope_nodup tree parent project)
    intro a ha b hb hkey
    obtain ⟨haTree, haParent, haProject⟩ := mem_scope.mp ha
    obtain ⟨hbTree, hbParent, hbProject⟩ := mem_scope.mp hb
    refine h a haTree b hbTree (haParent.trans hbParent.symm) ?_ hkey
    intro hnone
    have hparent : parent = none := haParent.symm.trans hnone
    exact (haProject hparent).trans (hbProject hparent).symm

/-- No other task of the task's scope has its key. -/
def HasOwnKey (tree : Tree) (task : Task) : Prop :=
  ∀ other ∈ tree.siblingsOf task, other.id ≠ task.id → other.sortKey ≠ task.sortKey

theorem hasOwnKey_put_self : (tree.put task).HasOwnKey task ↔ tree.HasOwnKey task := by
  constructor
  · intro h other hother hid
    exact h other ((mem_scope_put hid).mpr hother) hid
  · intro h other hother hid
    exact h other ((mem_scope_put hid).mp hother) hid

/-- **A task that is put into a tree leaves the keys distinct exactly when no other task of the
    scope it lands in has its key.** -/
theorem hasDistinctKeys_put_iff (h : tree.HasDistinctKeys) (task : Task) :
    (tree.put task).HasDistinctKeys ↔ tree.HasOwnKey task := by
  rw [hasDistinctKeys_iff] at h ⊢
  constructor
  · intro hput other hother hid hkey
    obtain ⟨htree, hparent, hproject⟩ := mem_scope.mp hother
    have heq := hput other (mem_put.mpr (Or.inr ⟨htree, hid⟩)) task (mem_put.mpr (Or.inl rfl))
      hparent (fun hnone => hproject (hparent.symm.trans hnone)) hkey
    exact hid (heq ▸ rfl)
  · intro hown
    -- another task of its scope with its key there is not
    have clash {other : Task} (hother : other ∈ tree.tasks) (hid : other.id ≠ task.id)
        (hparent : other.parent = task.parent)
        (hproject : task.parent = none → other.project = task.project)
        (hkey : other.sortKey = task.sortKey) : False :=
      hown other (mem_scope.mpr ⟨hother, hparent, hproject⟩) hid hkey
    intro a ha b hb hparent hproject hkey
    rcases mem_put.mp ha with rfl | ⟨haTree, haId⟩
    · rcases mem_put.mp hb with rfl | ⟨hbTree, hbId⟩
      · rfl
      · exact (clash hbTree hbId hparent.symm (fun h => (hproject h).symm) hkey.symm).elim
    · rcases mem_put.mp hb with rfl | ⟨hbTree, -⟩
      · exact (clash haTree haId hparent (fun h => hproject (hparent.trans h)) hkey).elim
      · exact h a haTree b hbTree hparent hproject hkey

end Tree

end Agenda
