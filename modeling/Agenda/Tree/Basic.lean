import Agenda.Task

/-! # The tree of tasks

    Tasks in the order in which they were added, each id once, and the projects they refer to.
    Parent links are not checked: parents may be missing and links may run in circles.

    The tasks of one parent are a family, which lists them by sort key and id.  Children of a
    task, and tasks without a parent that share a project, form the scopes in which tasks are
    ordered. -/

namespace Agenda

/-! ## Section 1: Lists with one item for each key -/

/-- Put `a` into the place of the item with its key, or at the end if there is none. -/
def putBy {α κ : Type} [DecidableEq κ] (key : α → κ) (a : α) : List α → List α
  | [] => [a]
  | b :: rest => if key b = key a then a :: rest else b :: putBy key a rest

theorem mem_keys_putBy {α κ : Type} [DecidableEq κ] (key : α → κ) (a : α) (l : List α) (k : κ) :
    k ∈ (putBy key a l).map key ↔ k = key a ∨ k ∈ l.map key := by
  induction l with
  | nil => simp [putBy]
  | cons b rest ih =>
    unfold putBy
    split
    · rename_i h; simp [h]
    · simp only [List.map_cons, List.mem_cons, ih]; grind

theorem putBy_nodup {α κ : Type} [DecidableEq κ] (key : α → κ) (a : α) {l : List α}
    (h : (l.map key).Nodup) : ((putBy key a l).map key).Nodup := by
  induction l with
  | nil => simp [putBy]
  | cons b rest ih =>
    obtain ⟨hb, hrest⟩ := List.nodup_cons.mp h
    unfold putBy
    split
    · rename_i hk
      simpa [hk] using And.intro hb hrest
    · rename_i hk
      refine List.nodup_cons.mpr ⟨?_, ih hrest⟩
      rw [mem_keys_putBy]
      rintro (h' | h')
      · exact hk h'
      · exact hb h'

theorem eq_or_mem_of_mem_putBy {α κ : Type} [DecidableEq κ] {key : α → κ} {a b : α}
    {l : List α} (h : b ∈ putBy key a l) : b = a ∨ b ∈ l := by
  induction l with
  | nil => exact .inl (List.mem_singleton.mp h)
  | cons c rest ih =>
    unfold putBy at h
    split at h
    · rcases List.mem_cons.mp h with h | h
      · exact .inl h
      · exact .inr (List.mem_cons_of_mem c h)
    · rcases List.mem_cons.mp h with h | h
      · exact .inr (h ▸ List.mem_cons_self)
      · exact (ih h).imp_right (List.mem_cons_of_mem c)

theorem find?_putBy {α κ : Type} [DecidableEq κ] [BEq κ] [LawfulBEq κ] (key : α → κ) (a : α)
    (l : List α) (k : κ) : (putBy key a l).find? (key · == k) =
      if key a = k then some a else l.find? (key · == k) := by
  induction l with
  | nil => by_cases h : key a = k <;> simp [putBy, h]
  | cons b rest ih =>
    unfold putBy
    by_cases hb : key b = key a
    · by_cases h : key a = k <;> simp [hb, h]
    · by_cases h : key a = k
      · have hk : key b ≠ k := fun e => hb (e.trans h.symm)
        simp [h, hk, ih]
      · simp only [hb, if_false, List.find?_cons, ih, h]

/-- One item for each key: a later item takes the place of an earlier one with its key. -/
def collectBy {α κ : Type} [DecidableEq κ] (key : α → κ) (l : List α) : List α :=
  l.foldl (fun acc a => putBy key a acc) []

theorem collectBy_nodup {α κ : Type} [DecidableEq κ] (key : α → κ) (l : List α) :
    ((collectBy key l).map key).Nodup := by
  unfold collectBy
  suffices h : ∀ acc : List α, (acc.map key).Nodup →
      ((l.foldl (fun acc a => putBy key a acc) acc).map key).Nodup from h [] (by simp)
  induction l with
  | nil => intro acc h; exact h
  | cons a rest ih => intro acc h; exact ih _ (putBy_nodup key a h)

/-! ## Section 2: Trees -/

/-- Tasks and projects, each id once. -/
structure Tree where
  tasks    : List Task := []
  projects : List Project := []
  tasks_nodup    : (tasks.map Task.id).Nodup := by simp
  projects_nodup : (projects.map Project.id).Nodup := by simp

namespace Tree

/-- Two tasks with one id. -/
structure DuplicateTask where
  id : TaskId
  deriving DecidableEq

/-- The wording of the error. -/
def DuplicateTask.message (e : DuplicateTask) : Text :=
  "Duplicate task id: ".toList ++ Integer.write e.id

/-- The first id that an earlier item of the list has too. -/
def firstDuplicate? : List TaskId → List TaskId → Option TaskId
  | _, [] => none
  | seen, i :: rest => if i ∈ seen then some i else firstDuplicate? (i :: seen) rest

theorem nodup_of_firstDuplicate?_eq_none {seen ids : List TaskId}
    (h : firstDuplicate? seen ids = none) : ids.Nodup ∧ ∀ i ∈ ids, i ∉ seen := by
  induction ids generalizing seen with
  | nil => simp
  | cons i rest ih =>
    unfold firstDuplicate? at h
    split at h
    · simp at h
    · rename_i hi
      obtain ⟨h1, h2⟩ := ih h
      grind

/-- The tree of the given tasks; of several projects with one id the last counts. -/
def ofTasks (tasks : List Task) (projects : List Project) : Except DuplicateTask Tree :=
  match h : firstDuplicate? [] (tasks.map Task.id) with
  | some id => .error ⟨id⟩
  | none => .ok
    { tasks := tasks
      projects := collectBy Project.id projects
      tasks_nodup := (nodup_of_firstDuplicate?_eq_none h).1
      projects_nodup := collectBy_nodup Project.id projects }

/-- Put a task into the tree, in the place of the task with its id if there is one. -/
def put (tree : Tree) (task : Task) : Tree :=
  { tree with
    tasks := putBy Task.id task tree.tasks
    tasks_nodup := putBy_nodup Task.id task tree.tasks_nodup }

/-! ## Section 3: Looking up -/

/-- The task with this id. -/
def get? (tree : Tree) (id : TaskId) : Option Task := tree.tasks.find? (·.id == id)

/-- A task that has been put into the tree is found under its id, and every other task as
    before. -/
theorem get?_put (tree : Tree) (task : Task) (id : TaskId) :
    (tree.put task).get? id = if task.id = id then some task else tree.get? id :=
  find?_putBy Task.id task tree.tasks id

/-- Has the tree a task with this id? -/
def contains (tree : Tree) (id : TaskId) : Bool := tree.tasks.any (·.id == id)

/-- The project with this id. -/
def getProject? (tree : Tree) (id : ProjectId) : Option Project :=
  tree.projects.find? (·.id == id)

/-- The project of a task, if the tree has it. -/
def projectOf? (tree : Tree) (task : Task) : Option Project :=
  task.project.bind tree.getProject?

/-- The title of a task's project. -/
def projectTitle? (tree : Tree) (task : Task) : Option Text :=
  (tree.projectOf? task).map Project.title

/-- Is the task's project archived? -/
def inArchive (tree : Tree) (task : Task) : Bool :=
  ((tree.projectOf? task).map Project.archived).getD false

/-- The parent of a task, if the tree has it. -/
def parent? (tree : Tree) (task : Task) : Option Task := task.parent.bind tree.get?

/-- Does the task start a tree of its own, because it has no parent or its parent is
    missing? -/
def isTop (tree : Tree) (task : Task) : Bool := (tree.parent? task).isNone

/-! ## Section 4: Families -/

/-- A parent, or none, and the tasks that have it. -/
structure Family where
  parent   : Option TaskId
  children : List Task

namespace Family

/-- The children that the family of this parent has. -/
def childrenOf (families : List Family) (parent : Option TaskId) : List Task :=
  ((families.find? (·.parent == parent)).map children).getD []

/-- Add a task to the family of its parent; the first child of a parent makes a family. -/
def add (families : List Family) (task : Task) : List Family :=
  putBy Family.parent ⟨task.parent, childrenOf families task.parent ++ [task]⟩ families

/-- The family with its children in manual order. -/
def sorted (family : Family) : Family := { family with children := Task.sort family.children }

theorem childrenOf_add (families : List Family) (task : Task) (parent : Option TaskId) :
    childrenOf (add families task) parent =
      if task.parent = parent then childrenOf families parent ++ [task]
      else childrenOf families parent := by
  rw [childrenOf, add, find?_putBy]
  by_cases h : task.parent = parent
  · rw [if_pos h, if_pos h, h]
    rfl
  · rw [if_neg h, if_neg h]
    rfl

/-- Tasks that are added one after another come to their parents in that order. -/
theorem childrenOf_foldl_add (tasks : List Task) (families : List Family)
    (parent : Option TaskId) : childrenOf (tasks.foldl add families) parent =
      childrenOf families parent ++ tasks.filter (·.parent == parent) := by
  induction tasks generalizing families with
  | nil => simp
  | cons task rest ih =>
    rw [List.foldl_cons, ih, childrenOf_add]
    by_cases h : task.parent = parent
    · rw [if_pos h, List.filter_cons_of_pos (by simp [h]), List.append_assoc]
      rfl
    · rw [if_neg h, List.filter_cons_of_neg (by simp [h])]

theorem childrenOf_map_sorted (families : List Family) (parent : Option TaskId) :
    childrenOf (families.map sorted) parent = Task.sort (childrenOf families parent) := by
  have hfind : (families.map sorted).find? (·.parent == parent) =
      (families.find? (·.parent == parent)).map sorted := List.find?_map
  rw [childrenOf, childrenOf, hfind]
  cases families.find? (·.parent == parent) with
  | none => exact List.mergeSort_nil.symm
  | some family => rfl

end Family

/-- The tasks of the tree by their parents, each family in manual order. -/
def families (tree : Tree) : List Family := (tree.tasks.foldl Family.add []).map Family.sorted

/-- The tasks with this parent, in manual order. -/
def children (tree : Tree) (parent : Option TaskId) : List Task :=
  Family.childrenOf tree.families parent

theorem children_eq_sort (tree : Tree) (parent : Option TaskId) :
    tree.children parent = Task.sort (tree.tasks.filter (·.parent == parent)) := by
  rw [children, families, Family.childrenOf_map_sorted, Family.childrenOf_foldl_add]
  rfl

/-! ## Section 5: Scopes -/

/-- The tasks with this parent and this project, in manual order. -/
def childrenIn (tree : Tree) (parent : Option TaskId) (project : Option ProjectId) :
    List Task :=
  (tree.children parent).filter (·.project == project)

/-- The tasks ordered together: the children of a task, or the tasks of a project (or of
    none) that have no parent. -/
def scope (tree : Tree) (parent : Option TaskId) (project : Option ProjectId) : List Task :=
  if parent.isSome then tree.children parent else tree.childrenIn none project

/-- The tasks ordered together with a task, itself included. -/
def siblingsOf (tree : Tree) (task : Task) : List Task := tree.scope task.parent task.project

/-- The tasks ordered together with the task of this id. -/
def siblings? (tree : Tree) (id : TaskId) : Option (List Task) :=
  (tree.get? id).map tree.siblingsOf

end Tree

end Agenda
