import Agenda.Proofs.Tree.Building
import Agenda.Proofs.Tree.Groups

/-! # Scopes partition a tree

    Each task of a tree stands once in the list of its siblings, the lists of two tasks are one
    list or have no task in common, and in each list the tasks stand in strict order
    (`partitioned`).  To put a task into a tree is local (`putIsLocal`): a list with neither the
    task that was there nor the new one is as it was, and any other list differs by the old one,
    which is gone, by the new one, which stands at its place, or by both.

    The main result (`scopes_partition`) says so of every tree that is made of given tasks by
    putting others into it, one after another. -/

namespace Agenda

/-! ## Section 1: Lists that differ by a task -/

namespace Task

variable {t task : Task} {old : Option Task} {tasks before after : List Task}

/-- `more` is `rest` with `t` put in at its place: behind the tasks that stand before it, and in
    front of those that it stands before. -/
def Joins (t : Task) (rest more : List Task) : Prop :=
  ∃ front back, rest = front ++ back ∧ more = front ++ t :: back ∧
    (∀ s ∈ front, s.StandsBefore t) ∧ ∀ s ∈ back, t.StandsBefore s

/-- What becomes of a list when `task` takes the place of `old`, or is new. -/
structure Replaces (old : Option Task) (task : Task) (before after : List Task) : Prop where
  /-- A list with neither of the two is as it was. -/
  untouched : (∀ o ∈ old, o ∉ before) → task ∉ after → after = before
  /-- A list that had the old task and has not the new one is without the old one. -/
  removed : ∀ o ∈ old, o ∈ before → task ∉ after → o.Joins after before
  /-- A list that had not the old task and has the new one has it at its place. -/
  inserted : (∀ o ∈ old, o ∉ before) → task ∈ after → task.Joins before after
  /-- A list with both is without the old task, and has the new one at its place. -/
  moved : ∀ o ∈ old, o ∈ before → task ∈ after →
    ∃ rest, o.Joins rest before ∧ task.Joins rest after

theorem filter_id_ne {id : TaskId} (h : ∀ s ∈ tasks, s.id ≠ id) :
    tasks.filter (·.id != id) = tasks := by
  apply List.filter_eq_self.mpr
  intro s hs
  exact bne_iff_ne.mpr (h s hs)

/-- A task of an ordered list stands at its place among the others. -/
theorem joins_filter (h : tasks.Pairwise StandsBefore) (ht : t ∈ tasks)
    (hid : ∀ s ∈ tasks, s.id = t.id → s = t) : t.Joins (tasks.filter (·.id != t.id)) tasks := by
  obtain ⟨front, back, rfl, hfront, hback⟩ := exists_split h ht
  -- no task stands before itself, so those around it have other ids
  have hfrontId : ∀ s ∈ front, s.id ≠ t.id := by
    intro s hs heq
    have hself := hid s (List.mem_append_left _ hs) heq
    exact not_standsBefore_self t (hself ▸ hfront s hs)
  have hbackId : ∀ s ∈ back, s.id ≠ t.id := by
    intro s hs heq
    have hself := hid s (List.mem_append_right _ (List.mem_cons_of_mem _ hs)) heq
    exact not_standsBefore_self t (hself ▸ hback s hs)
  refine ⟨front, back, ?_, rfl, hfront, hback⟩
  rw [List.filter_append, List.filter_cons_of_neg (by simp), filter_id_ne hfrontId,
    filter_id_ne hbackId]

/-- In two ordered lists that agree on all tasks but the one with the id of `task`, this one is all
    that can have changed. -/
theorem replaces_of_strict (hbefore : before.Pairwise StandsBefore)
    (hafter : after.Pairwise StandsBefore) (hid : ∀ o ∈ old, o.id = task.id)
    (hold : ∀ s ∈ before, s.id = task.id → s ∈ old) (hnew : ∀ s ∈ after, s.id = task.id → s = task)
    (hothers : ∀ s, s.id ≠ task.id → (s ∈ after ↔ s ∈ before)) :
    Replaces old task before after := by
  -- the other tasks are the same in both, and so is their order
  have hrest : after.filter (·.id != task.id) = before.filter (·.id != task.id) := by
    refine (hafter.sublist List.filter_sublist).eq_of_mem_iff
      (hbefore.sublist List.filter_sublist) ?_
    intro s
    rw [List.mem_filter, List.mem_filter, bne_iff_ne]
    exact and_congr_left (hothers s)
  have hwithoutOld (h : ∀ o ∈ old, o ∉ before) : before.filter (·.id != task.id) = before :=
    filter_id_ne fun s hs heq => h s (hold s hs heq) hs
  have hwithoutNew (h : task ∉ after) : after.filter (·.id != task.id) = after :=
    filter_id_ne fun s hs heq => h (hnew s hs heq ▸ hs)
  have hjoinedOld {o : Task} (ho : o ∈ old) (h : o ∈ before) :
      o.Joins (before.filter (·.id != task.id)) before := by
    rw [← hid o ho]
    apply joins_filter hbefore h
    intro s hs heq
    exact Option.mem_unique (hold s hs (heq.trans (hid o ho))) ho
  have hjoinedNew (h : task ∈ after) : task.Joins (before.filter (·.id != task.id)) after := by
    rw [← hrest]
    exact joins_filter hafter h hnew
  constructor
  case untouched =>
    intro hout hnot
    rw [← hwithoutNew hnot, hrest, hwithoutOld hout]
  case removed =>
    intro o ho hmem hnot
    rw [← hwithoutNew hnot, hrest]
    exact hjoinedOld ho hmem
  case inserted =>
    intro hout hmem
    rw [← hwithoutOld hout]
    exact hjoinedNew hmem
  case moved =>
    intro o ho hmem hmem'
    exact ⟨_, hjoinedOld ho hmem, hjoinedNew hmem'⟩

end Task

namespace Tree

variable {tree start : Tree} {s t task : Task} {id : TaskId} {siblings : List Task}

/-! ## Section 2: The partition -/

/-- The lists of siblings partition the tree, and each list is in strict order. -/
structure Partitioned (tree : Tree) : Prop where
  /-- A task stands in the list of its siblings, once, and no other task with its id does. -/
  once : ∀ id t, tree.get? id = some t →
    ∃ siblings, tree.siblings? id = some siblings ∧ siblings.filter (·.id == id) = [t]
  /-- The siblings of a task share its scope. -/
  shared : ∀ id t siblings, tree.get? id = some t → tree.siblings? id = some siblings →
    ∀ s, s ∈ siblings ↔ s ∈ tree.tasks ∧ SharesScope t s
  /-- Two tasks have the same siblings, or none in common. -/
  apart : ∀ id id' siblings siblings', tree.siblings? id = some siblings →
    tree.siblings? id' = some siblings' →
      siblings = siblings' ∨ ∀ s ∈ siblings, ∀ s' ∈ siblings', s.id ≠ s'.id
  siblings_strict : ∀ id siblings, tree.siblings? id = some siblings →
    siblings.Pairwise Task.StandsBefore
  children_strict : ∀ parent, (tree.children parent).Pairwise Task.StandsBefore

theorem siblings?_eq_some_iff :
    tree.siblings? id = some siblings ↔ ∃ t, tree.get? id = some t ∧ tree.siblingsOf t = siblings :=
  Option.map_eq_some_iff

theorem mem_siblingsOf : s ∈ tree.siblingsOf t ↔ s ∈ tree.tasks ∧ SharesScope t s := mem_scope

/-- Tasks with a sibling in common have the same siblings. -/
theorem siblingsOf_eq_of_mem (hs : s ∈ tree.siblingsOf t) :
    tree.siblingsOf s = tree.siblingsOf t := by
  obtain ⟨-, hparent, hproject⟩ := mem_siblingsOf.mp hs
  unfold siblingsOf
  rw [hparent]
  cases h : t.parent with
  | none => rw [hproject h]
  | some p => rfl

/-- **The lists of siblings partition any tree.** -/
theorem partitioned (tree : Tree) : tree.Partitioned where
  once := by
    intro id t hget
    obtain rfl := id_of_get? hget
    have hmem : t ∈ tree.siblingsOf t :=
      mem_siblingsOf.mpr ⟨mem_of_get? hget, rfl, fun _ => rfl⟩
    refine ⟨tree.siblingsOf t, siblings?_eq_some_iff.mpr ⟨t, hget, rfl⟩, ?_⟩
    -- in the list, as in the tree, only the task itself has its id
    have hid : ∀ s ∈ tree.siblingsOf t, (s.id == t.id) = (s == t) := by
      intro s hs
      rw [Bool.eq_iff_iff, beq_iff_eq, beq_iff_eq]
      constructor
      · intro heq
        exact eq_of_id_eq (mem_siblingsOf.mp hs).1 (mem_of_get? hget) heq
      · intro heq
        rw [heq]
    have hnodup : (tree.siblingsOf t).Nodup := scope_nodup tree t.parent t.project
    rw [List.filter_congr hid, List.filter_beq, List.count_eq_one_of_mem hnodup hmem]
    rfl
  shared := by
    intro id t siblings hget hsiblings s
    obtain ⟨t', hget', rfl⟩ := siblings?_eq_some_iff.mp hsiblings
    obtain rfl := Option.some.inj (hget.symm.trans hget')
    exact mem_siblingsOf
  apart := by
    intro id id' siblings siblings' hsiblings hsiblings'
    obtain ⟨t, -, rfl⟩ := siblings?_eq_some_iff.mp hsiblings
    obtain ⟨t', -, rfl⟩ := siblings?_eq_some_iff.mp hsiblings'
    -- one task in both lists makes them the same
    by_cases hcommon : ∃ s ∈ tree.siblingsOf t, s ∈ tree.siblingsOf t'
    · obtain ⟨s, hs, hs'⟩ := hcommon
      exact Or.inl ((siblingsOf_eq_of_mem hs).symm.trans (siblingsOf_eq_of_mem hs'))
    · refine Or.inr ?_
      intro s hs s' hs' heq
      obtain rfl := eq_of_id_eq (mem_siblingsOf.mp hs).1 (mem_siblingsOf.mp hs').1 heq
      exact hcommon ⟨s, hs, hs'⟩
  siblings_strict := by
    intro id siblings hsiblings
    obtain ⟨t, -, rfl⟩ := siblings?_eq_some_iff.mp hsiblings
    exact tree.scope_strict t.parent t.project
  children_strict := tree.children_strict

/-! ## Section 3: Putting a task into a tree -/

/-- To put `task` into the tree changes nothing else. -/
structure PutIsLocal (tree : Tree) (task : Task) : Prop where
  /-- It is the tree that is built of the tasks with this one among them, and of the projects. -/
  rebuilt : ofTasks (putBy Task.id task tree.tasks) tree.projects = .ok (tree.put task)
  found : (tree.put task).get? task.id = some task
  others : ∀ id, id ≠ task.id → (tree.put task).get? id = tree.get? id
  /-- The other tasks are the same, and in the same order. -/
  arrangement : (tree.put task).tasks.filter (·.id != task.id) =
    tree.tasks.filter (·.id != task.id)
  projects : (tree.put task).projects = tree.projects
  scopes : ∀ parent project, Task.Replaces (tree.get? task.id) task
    (tree.scope parent project) ((tree.put task).scope parent project)
  children : ∀ parent, Task.Replaces (tree.get? task.id) task
    (tree.children parent) ((tree.put task).children parent)
  /-- So it is with the siblings of any other task. -/
  siblings : ∀ id before, id ≠ task.id → tree.siblings? id = some before →
    ∃ after, (tree.put task).siblings? id = some after ∧
      Task.Replaces (tree.get? task.id) task before after

/-- Ordered lists of tasks from before and from after, with the same other tasks in them. -/
theorem replaces_put {before after : List Task} (hbefore : before.Pairwise Task.StandsBefore)
    (hafter : after.Pairwise Task.StandsBefore) (hsubset : before ⊆ tree.tasks)
    (hsubset' : after ⊆ (tree.put task).tasks)
    (hothers : ∀ s, s.id ≠ task.id → (s ∈ after ↔ s ∈ before)) :
    Task.Replaces (tree.get? task.id) task before after := by
  refine Task.replaces_of_strict hbefore hafter (fun o ho => id_of_get? ho) ?_ ?_ hothers
  · intro s hs heq
    rw [← heq]
    exact mem_tasks_iff.mp (hsubset hs)
  · intro s hs heq
    rcases mem_put.mp (hsubset' hs) with h | ⟨-, hne⟩
    · exact h
    · exact absurd heq hne

theorem replaces_scope_put (tree : Tree) (task : Task) (parent : Option TaskId)
    (project : Option ProjectId) : Task.Replaces (tree.get? task.id) task
      (tree.scope parent project) ((tree.put task).scope parent project) :=
  replaces_put (tree.scope_strict parent project) ((tree.put task).scope_strict parent project)
    (fun _ hs => (mem_scope.mp hs).1) (fun _ hs => (mem_scope.mp hs).1)
    fun _ hid => mem_scope_put hid

theorem replaces_children_put (tree : Tree) (task : Task) (parent : Option TaskId) :
    Task.Replaces (tree.get? task.id) task (tree.children parent)
      ((tree.put task).children parent) :=
  replaces_put (tree.children_strict parent) ((tree.put task).children_strict parent)
    (fun _ hs => (mem_children.mp hs).1) (fun _ hs => (mem_children.mp hs).1)
    fun _ hid => mem_children_put hid

/-- **To put a task into a tree is local.** -/
theorem putIsLocal (tree : Tree) (task : Task) : tree.PutIsLocal task where
  rebuilt := tree.ofTasks_putBy task
  found := by rw [get?_put, if_pos rfl]
  others := by
    intro id hid
    rw [get?_put, if_neg (Ne.symm hid)]
  arrangement := filter_putBy
  projects := rfl
  scopes := tree.replaces_scope_put task
  children := tree.replaces_children_put task
  siblings := by
    intro id before hid hbefore
    obtain ⟨t, hget, rfl⟩ := siblings?_eq_some_iff.mp hbefore
    have hget' : (tree.put task).get? id = some t := by rw [get?_put, if_neg (Ne.symm hid), hget]
    exact ⟨_, siblings?_eq_some_iff.mpr ⟨t, hget', rfl⟩,
      tree.replaces_scope_put task t.parent t.project⟩

/-! ## Section 4: Runs -/

/-- Put tasks into the tree, one after another. -/
def putAll (tree : Tree) (tasks : List Task) : Tree := tasks.foldl put tree

/-- The tree, and each that comes of it when tasks are put in one after another. -/
def history (tree : Tree) (tasks : List Task) : List Tree := tasks.scanl put tree

theorem putAll_concat (tree : Tree) (tasks : List Task) (task : Task) :
    tree.putAll (tasks ++ [task]) = (tree.putAll tasks).put task := List.foldl_concat ..

theorem history_concat (tree : Tree) (tasks : List Task) (task : Task) :
    tree.history (tasks ++ [task]) = tree.history tasks ++ [(tree.putAll tasks).put task] := by
  unfold history putAll
  simp [List.scanl_append]

/-- The last tree of the history is the one that has all the tasks. -/
theorem exists_history_eq (tree : Tree) (tasks : List Task) :
    ∃ earlier, tree.history tasks = earlier ++ [tree.putAll tasks] := by
  cases tasks using List.reverseRecOn with
  | nil => exact ⟨[], rfl⟩
  | append_singleton rest task =>
    refine ⟨tree.history rest, ?_⟩
    rw [history_concat, putAll_concat]

theorem projects_putAll (tree : Tree) (tasks : List Task) :
    (tree.putAll tasks).projects = tree.projects := by
  induction tasks using List.reverseRecOn with
  | nil => rfl
  | append_singleton rest task ih =>
    rw [putAll_concat]
    exact ih

/-- Of the tasks with one id the last that was put in is found. -/
theorem get?_putAll (tree : Tree) (tasks : List Task) (id : TaskId) :
    (tree.putAll tasks).get? id = (tasks.reverse.find? (·.id == id)).or (tree.get? id) := by
  -- from the end: the last task that was put in is found, or what was found before it
  induction tasks using List.reverseRecOn with
  | nil => rfl
  | append_singleton rest task ih =>
    rw [putAll_concat, get?_put, ih, List.reverse_append, List.reverse_singleton,
      List.singleton_append]
    by_cases h : task.id = id
    · rw [if_pos h, List.find?_cons_of_pos (by simp [h])]
      rfl
    · rw [if_neg h, List.find?_cons_of_neg (by simp [h])]

/-- What holds when tasks have been put into the tree that is made of given tasks and projects. -/
structure StaysPartitioned (tasks : List Task) (projects : List Project) (start : Tree)
    (added : List Task) : Prop where
  /-- Of the tasks with one id the last one counts. -/
  found : ∀ id, (start.putAll added).get? id = (tasks ++ added).reverse.find? (·.id == id)
  projects : (start.putAll added).projects = collectBy Project.id projects
  partitioned : (start.putAll added).Partitioned
  putIsLocal : ∀ task, (start.putAll added).PutIsLocal task
  /-- A further task makes a further tree; the one it is put into, and those before it, stay as
      they were. -/
  history : ∃ earlier, start.history added = earlier ++ [start.putAll added] ∧
    ∀ task, start.history (added ++ [task]) =
      earlier ++ [start.putAll added, (start.putAll added).put task]

/-- **Scopes partition a tree, and to put a task into it is local**, for every tree that is made
    of given tasks by putting others into it, one after another. -/
theorem scopes_partition {tasks : List Task} {projects : List Project}
    (h : ofTasks tasks projects = .ok start) (added : List Task) :
    StaysPartitioned tasks projects start added where
  found := by
    intro id
    obtain ⟨htasks, -⟩ := ofTasks_eq_ok_iff.mp h
    -- the given tasks have different ids, so they may be searched from either end
    have hgiven : start.get? id = tasks.reverse.find? (·.id == id) := by
      rw [← htasks]
      exact find?_key_perm start.tasks_nodup (List.reverse_perm start.tasks).symm id
    rw [get?_putAll, hgiven, List.reverse_append, List.find?_append]
  projects := by rw [projects_putAll, (ofTasks_eq_ok_iff.mp h).2]
  partitioned := partitioned _
  putIsLocal := putIsLocal _
  history := by
    obtain ⟨earlier, hearlier⟩ := start.exists_history_eq added
    refine ⟨earlier, hearlier, ?_⟩
    intro task
    rw [history_concat, hearlier, List.append_assoc]
    rfl

/-- A task with two subtasks. -/
def twoSubtasks : Tree :=
  { tasks := [{ id := 1, sortKey := ['a', '0'], project := some 7 },
              { id := 2, sortKey := ['a', '0'], parent := some 1 },
              { id := 3, sortKey := ['a', '1'], parent := some 1 }]
    projects := []
    tasks_nodup := by decide
    projects_nodup := List.nodup_nil }

/-- The second subtask is taken out, to stand beside the task in its project. -/
def takenOut : Task := { id := 3, sortKey := ['a', '1'], project := some 7 }

theorem scopes_partition_takenOut :
    ofTasks twoSubtasks.tasks [] = .ok twoSubtasks ∧
      StaysPartitioned twoSubtasks.tasks [] twoSubtasks [takenOut] ∧
      (twoSubtasks.siblings? 2).map (·.map Task.id) = some [2, 3] ∧
      ((twoSubtasks.putAll [takenOut]).siblings? 2).map (·.map Task.id) = some [2] ∧
      ((twoSubtasks.putAll [takenOut]).siblings? 1).map (·.map Task.id) = some [1, 3] := by
  have hbuilt : ofTasks twoSubtasks.tasks [] = .ok twoSubtasks := ofTasks_eq_ok_iff.mpr ⟨rfl, rfl⟩
  let task : Task := { id := 1, sortKey := ['a', '0'], project := some 7 }
  let first : Task := { id := 2, sortKey := ['a', '0'], parent := some 1 }
  let second : Task := { id := 3, sortKey := ['a', '1'], parent := some 1 }
  have hbefore : twoSubtasks.children (some 1) = [first, second] := Task.sort_eq_self (by decide)
  have hafter : (twoSubtasks.putAll [takenOut]).children (some 1) = [first] :=
    Task.sort_eq_self (by decide)
  have hbeside : (twoSubtasks.putAll [takenOut]).children none = [task, takenOut] :=
    Task.sort_eq_self (by decide)
  refine ⟨hbuilt, scopes_partition hbuilt [takenOut], ?_, ?_, ?_⟩
  · show some ((twoSubtasks.children (some 1)).map Task.id) = _
    rw [hbefore]
    rfl
  · show some (((twoSubtasks.putAll [takenOut]).children (some 1)).map Task.id) = _
    rw [hafter]
    rfl
  · show some ((((twoSubtasks.putAll [takenOut]).children none).filter _).map Task.id) = _
    rw [hbeside]
    rfl

end Tree

end Agenda
