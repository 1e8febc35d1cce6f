import Agenda.Proofs.Tree.Groups

/-! # What an outline lists

    An outline lists each task once that is reached from a root over tasks that are shown, and
    with a task that is not a root it has listed the parent before (`outline_preorder`).  This
    holds of every tree, whatever circles its links run in, and of all roots.  The tasks that
    have not been listed carry the argument: a way down to one of them that leads through the
    task listed next can be taken from the children of that task, which are put on the
    stack. -/

namespace Agenda.Tree

variable {tree : Tree} {showCompleted : Bool}

/-! ## Section 1: Ways down -/

/-- The task `id` is shown, and so is every task on a way of parent links from it up to
    `root`. -/
inductive ShownWithin (tree : Tree) (showCompleted : Bool) (root : TaskId) : TaskId → Prop where
  | root {t : Task} (present : tree.get? root = some t)
      (shown : passesOver showCompleted t = false) : ShownWithin tree showCompleted root root
  | child {id p : TaskId} {t : Task} (above : ShownWithin tree showCompleted root p)
      (present : tree.get? id = some t) (parent : t.parent = some p)
      (shown : passesOver showCompleted t = false) : ShownWithin tree showCompleted root id

theorem ShownWithin.exists_get? {root id : TaskId}
    (h : tree.ShownWithin showCompleted root id) : ∃ t, tree.get? id = some t := by
  cases h with
  | root present _ => exact ⟨_, present⟩
  | child _ present _ _ => exact ⟨_, present⟩

/-- A way down leads from a task of the group to this one, over tasks that are left and
    shown. -/
inductive Reached (tree : Tree) (showCompleted : Bool) (left group : List Task) :
    Task → Prop where
  | start {t : Task} (mem : t ∈ group) (free : t ∈ left)
      (shown : passesOver showCompleted t = false) : Reached tree showCompleted left group t
  | child {p t : Task} (above : Reached tree showCompleted left group p)
      (mem : t ∈ tree.shownChildren p.id) (free : t ∈ left)
      (shown : passesOver showCompleted t = false) : Reached tree showCompleted left group t

section reached
variable {left group : List Task} {task t : Task}

theorem Reached.mem_left (h : Reached tree showCompleted left group t) : t ∈ left := by
  cases h with
  | start _ free _ => exact free
  | child _ _ free _ => exact free

theorem not_reached_nil : ¬Reached tree showCompleted left [] t := by
  intro h
  induction h with
  | start mem _ _ => cases mem
  | child _ _ _ _ ih => exact ih

/-- No way down starts at a task that is not left or not shown. -/
theorem reached_cons_of_skipped (h : ¬(task ∈ left ∧ passesOver showCompleted task = false)) :
    Reached tree showCompleted left (task :: group) t ↔
      Reached tree showCompleted left group t := by
  constructor
  · intro hreached
    induction hreached with
    | start mem free shown =>
      rcases List.mem_cons.mp mem with rfl | mem
      · exact absurd ⟨free, shown⟩ h
      · exact Reached.start mem free shown
    | child _ mem free shown ih => exact Reached.child ih mem free shown
  · intro hreached
    induction hreached with
    | start mem free shown => exact Reached.start (List.mem_cons_of_mem _ mem) free shown
    | child _ mem free shown ih => exact Reached.child ih mem free shown

/-- **A task is listed, or what is reached from it is reached from its children without it.** -/
theorem reached_cons_of_listed (hleft : task ∈ left)
    (hshown : passesOver showCompleted task = false) :
    Reached tree showCompleted left (task :: group) t ↔ t = task ∨
      Reached tree showCompleted (left.erase task) (tree.shownChildren task.id ++ group) t := by
  constructor
  · intro hreached
    -- a way down that comes through the task goes on from one of its children
    induction hreached with
    | @start t mem free shown =>
      by_cases heq : t = task
      · exact Or.inl heq
      · have hmem := (List.mem_cons.mp mem).resolve_left heq
        have hfree := (List.mem_erase_of_ne heq).mpr free
        exact Or.inr (Reached.start (List.mem_append_right _ hmem) hfree shown)
    | @child p t _ mem free shown ih =>
      by_cases heq : t = task
      · exact Or.inl heq
      · have hfree := (List.mem_erase_of_ne heq).mpr free
        rcases ih with rfl | hp
        · exact Or.inr (Reached.start (List.mem_append_left _ mem) hfree shown)
        · exact Or.inr (Reached.child hp mem hfree shown)
  · intro h
    have hself : Reached tree showCompleted left (task :: group) task :=
      Reached.start List.mem_cons_self hleft hshown
    rcases h with rfl | hreached
    · exact hself
    · induction hreached with
      | start mem free shown =>
        have hfree := List.mem_of_mem_erase free
        rcases List.mem_append.mp mem with mem | mem
        · exact Reached.child hself mem hfree shown
        · exact Reached.start (List.mem_cons_of_mem _ mem) hfree shown
      | child _ mem free shown ih => exact Reached.child ih mem (List.mem_of_mem_erase free) shown

/-- From the roots of an outline the tasks are reached that are shown with all on a way up to
    a root. -/
theorem reached_shownRoots_iff {roots : List TaskId} (ht : t ∈ tree.tasks) :
    Reached tree showCompleted tree.tasks (tree.shownRoots roots) t ↔
      ∃ root ∈ roots, tree.ShownWithin showCompleted root t.id := by
  constructor
  · intro h
    clear ht
    induction h with
    | @start t mem free shown =>
      exact ⟨t.id, (mem_shownRoots.mp mem).2, ShownWithin.root (mem_tasks_iff.mp free) shown⟩
    | @child p t _ mem free shown ih =>
      obtain ⟨root, hroot, hp⟩ := ih
      have hparent := (mem_shownChildren.mp mem).2
      exact ⟨root, hroot, ShownWithin.child hp (mem_tasks_iff.mp free) hparent shown⟩
  · intro h
    obtain ⟨root, hroot, hwithin⟩ := h
    have hget := mem_tasks_iff.mp ht
    -- the way runs over ids, and the task is looked up again at each step
    generalize t.id = id at hwithin hget
    clear ht
    induction hwithin generalizing t with
    | root present shown =>
      obtain rfl := Option.some.inj (present.symm.trans hget)
      obtain rfl := id_of_get? present
      have hmem := mem_of_get? present
      exact Reached.start (mem_shownRoots.mpr ⟨hmem, hroot⟩) hmem shown
    | @child id p u above present parent shown ih =>
      obtain rfl := Option.some.inj (present.symm.trans hget)
      obtain ⟨v, hv⟩ := above.exists_get?
      have hmem := mem_of_get? present
      obtain rfl := id_of_get? hv
      exact Reached.child (ih hv) (mem_shownChildren.mpr ⟨hmem, parent⟩) hmem shown

end reached

/-! ## Section 2: Working off any stack -/

/-- What is listed from a stack: no task twice, exactly the tasks that are reached, and each
    of them from the stack or one step below a task that is listed before it. -/
structure Covers (tree : Tree) (showCompleted : Bool) (left : List Task)
    (stack places : List (Task × Nat)) : Prop where
  nodup : (places.map (·.1.id)).Nodup
  mem_iff : ∀ t, t ∈ places.map Prod.fst ↔
    Reached tree showCompleted left (stack.map Prod.fst) t
  parent_first : ∀ place ∈ places, place ∈ stack ∨
    ∃ above, place.1 ∈ tree.shownChildren above.1.id ∧ place.2 = above.2 + 1 ∧
      [above, place].Sublist places

section covers
variable {left : List Task} {stack places : List (Task × Nat)} {task : Task} {depth : Nat}

theorem covers_nil (left : List Task) : Covers tree showCompleted left [] [] where
  nodup := List.nodup_nil
  mem_iff := fun _ => iff_of_false List.not_mem_nil not_reached_nil
  parent_first := fun _ hplace => absurd hplace List.not_mem_nil

/-- A task that is not left or not shown changes nothing. -/
theorem Covers.skip (h : Covers tree showCompleted left stack places)
    (hskip : ¬(task ∈ left ∧ passesOver showCompleted task = false)) :
    Covers tree showCompleted left ((task, depth) :: stack) places where
  nodup := h.nodup
  mem_iff := fun t => (h.mem_iff t).trans (reached_cons_of_skipped hskip).symm
  parent_first := fun place hplace =>
    (h.parent_first place hplace).imp_left (List.mem_cons_of_mem _)

/-- A task that is left and shown is listed, and its children come before the rest. -/
theorem Covers.list (hleft : task ∈ left) (hids : (left.map Task.id).Nodup)
    (hshown : passesOver showCompleted task = false)
    (h : Covers tree showCompleted (left.erase task)
      ((tree.shownChildren task.id).map (·, depth + 1) ++ stack) places) :
    Covers tree showCompleted left ((task, depth) :: stack) ((task, depth) :: places) where
  nodup := by
    refine List.nodup_cons.mpr ⟨?_, h.nodup⟩
    intro hmem
    obtain ⟨place, hplace, hid⟩ := List.mem_map.mp hmem
    have hfree := ((h.mem_iff _).mp (List.mem_map_of_mem hplace)).mem_left
    -- the task itself is no longer left, and no other task has its id
    have heq : place.1 = task :=
      List.inj_on_of_nodup_map hids (List.mem_of_mem_erase hfree) hleft hid
    rw [heq] at hfree
    exact (List.Nodup.of_map _ hids).not_mem_erase hfree
  mem_iff := by
    intro t
    rw [List.map_cons, List.mem_cons, h.mem_iff, List.map_append, map_fst_map_depth,
      List.map_cons, reached_cons_of_listed hleft hshown]
  parent_first := by
    intro place hplace
    rcases List.mem_cons.mp hplace with rfl | hplace
    · exact Or.inl List.mem_cons_self
    rcases h.parent_first place hplace with hstack | ⟨above, hchild, hdepth, hbefore⟩
    · rcases List.mem_append.mp hstack with hchild | hstack
      · obtain ⟨t, ht, rfl⟩ := List.mem_map.mp hchild
        have hbefore := (List.singleton_sublist.mpr hplace).cons_cons (task, depth)
        exact Or.inr ⟨(task, depth), ht, rfl, hbefore⟩
      · exact Or.inl (List.mem_cons_of_mem _ hstack)
    · exact Or.inr ⟨above, hchild, hdepth, hbefore.cons _⟩

/-- Whatever stands on the stack is worked off. -/
theorem exists_covers (left : List Task) (stack : List (Task × Nat))
    (hids : (left.map Task.id).Nodup) :
    ∃ places, tree.outlineFrom showCompleted left stack = places.map line ∧
      Covers tree showCompleted left stack places := by
  -- along the run of the outline: what is passed over once is left out for good
  fun_induction outlineFrom tree showCompleted left stack with
  | case1 left => exact ⟨[], rfl, covers_nil left⟩
  | case2 left task depth stack _ hpassed ih =>
    obtain ⟨places, hlines, hcovers⟩ := ih hids
    have hskip : ¬(task ∈ left ∧ passesOver showCompleted task = false) := by
      intro h
      unfold passesOver at h
      rw [hpassed] at h
      cases h.2
    exact ⟨places, hlines, hcovers.skip hskip⟩
  | case3 left task depth stack hleft hpassed ih =>
    have hids' : ((left.erase task).map Task.id).Nodup :=
      hids.sublist (List.erase_sublist.map Task.id)
    obtain ⟨places, hlines, hcovers⟩ := ih hids'
    have hshown : passesOver showCompleted task = false := Bool.eq_false_iff.mpr hpassed
    refine ⟨(task, depth) :: places, ?_, Covers.list hleft hids hshown hcovers⟩
    rw [hlines]
    rfl
  | case4 left task depth stack hleft ih =>
    obtain ⟨places, hlines, hcovers⟩ := ih hids
    exact ⟨places, hlines, hcovers.skip fun h => hleft h.1⟩

end covers

/-! ## Section 3: Outlines -/

section outlines
variable {roots : List TaskId} {places : List (Task × Nat)}

/-- What the outline below some roots lists. -/
theorem exists_covers_outline (tree : Tree) (roots : List TaskId) (showCompleted : Bool) :
    ∃ places, tree.outline roots showCompleted = places.map line ∧
      Covers tree showCompleted tree.tasks ((tree.shownRoots roots).map (·, 0)) places :=
  exists_covers tree.tasks _ tree.tasks_nodup

theorem map_id_map_line (places : List (Task × Nat)) :
    (places.map line).map OutlineNode.id = places.map (·.1.id) := by
  rw [List.map_map]
  rfl

section listed
variable (h : Covers tree showCompleted tree.tasks ((tree.shownRoots roots).map (·, 0)) places)
include h

theorem Covers.mem_roots_iff {t : Task} : t ∈ places.map Prod.fst ↔
    Reached tree showCompleted tree.tasks (tree.shownRoots roots) t := by
  rw [h.mem_iff, map_fst_map_depth]

theorem Covers.mem_tasks {place : Task × Nat} (hplace : place ∈ places) :
    place.1 ∈ tree.tasks :=
  (h.mem_roots_iff.mp (List.mem_map_of_mem hplace)).mem_left

/-- The ids that are listed are those that are shown with all on a way up to a root. -/
theorem Covers.mem_ids_iff {id : TaskId} : id ∈ places.map (·.1.id) ↔
    ∃ root ∈ roots, tree.ShownWithin showCompleted root id := by
  constructor
  · intro hid
    obtain ⟨place, hplace, rfl⟩ := List.mem_map.mp hid
    have hreached := h.mem_roots_iff.mp (List.mem_map_of_mem hplace)
    exact (reached_shownRoots_iff (h.mem_tasks hplace)).mp hreached
  · intro hwithin
    obtain ⟨t, hget⟩ : ∃ t, tree.get? id = some t := by
      obtain ⟨root, -, hwithin⟩ := hwithin
      exact hwithin.exists_get?
    obtain rfl := id_of_get? hget
    have hreached := (reached_shownRoots_iff (mem_of_get? hget)).mpr hwithin
    obtain ⟨place, hplace, rfl⟩ := List.mem_map.mp (h.mem_roots_iff.mpr hreached)
    exact List.mem_map_of_mem hplace

/-- A line is a root, or follows the line of its parent one step deeper. -/
theorem Covers.line_cases {place : Task × Nat} (hplace : place ∈ places) :
    (line place).depth = 0 ∧ (line place).id ∈ roots ∨
      ∃ above : OutlineNode, (line place).parent = some above.id ∧
        (line place).depth = above.depth + 1 ∧ [above, line place].Sublist (places.map line) := by
  rcases h.parent_first place hplace with hroot | ⟨above, hchild, hdepth, hbefore⟩
  · obtain ⟨t, ht, rfl⟩ := List.mem_map.mp hroot
    exact Or.inl ⟨rfl, (mem_shownRoots.mp ht).2⟩
  · exact Or.inr ⟨line above, (mem_shownChildren.mp hchild).2, hdepth, hbefore.map line⟩

end listed

/-! ### Roots that stand apart -/

/-- A group is listed in one way only. -/
theorem Lists.unique {group places places' : List (Task × Nat)}
    (h : Lists tree showCompleted group places) (h' : Lists tree showCompleted group places') :
    places' = places := by
  have hpart := h.sublist h' (List.Sublist.refl group) id
  have hwhole := h'.sublist h (List.Sublist.refl group) id
  exact hpart.antisymm hwhole

/-- Roots that are given once each and do not stand below each other or themselves stand
    apart. -/
theorem standApart_of_roots (hnodup : roots.Nodup)
    (hbelow : ∀ r ∈ roots, ∀ s ∈ roots, (tree.get? s).isSome = true → ¬tree.Below r s) :
    tree.StandApart (tree.shownRoots roots) := by
  have hfree {s t : Task} (hs : s ∈ tree.shownRoots roots) (ht : t ∈ tree.shownRoots roots) :
      ¬tree.Below s.id t.id := by
    obtain ⟨-, hs⟩ := mem_shownRoots.mp hs
    obtain ⟨htask, ht⟩ := mem_shownRoots.mp ht
    exact hbelow s.id hs t.id ht (Option.isSome_of_eq_some (mem_tasks_iff.mp htask))
  refine ⟨fun t ht => (mem_shownRoots.mp ht).1, fun t ht => hfree ht ht, ?_⟩
  apply (isGroup_shownRoots hnodup).ordered.nodup.pairwise_of_forall_ne
  intro s hs t ht hne
  have hids : s.id ≠ t.id := by
    intro hid
    exact hne (eq_of_id_eq (mem_shownRoots.mp hs).1 (mem_shownRoots.mp ht).1 hid)
  rw [within_iff, within_iff]
  exact ⟨fun h => h.elim hids (hfree hs ht), fun h => h.elim hids.symm (hfree ht hs)⟩

/-- From such roots the outline is the only list that is made group by group. -/
theorem outline_lists (hnodup : roots.Nodup)
    (hbelow : ∀ r ∈ roots, ∀ s ∈ roots, (tree.get? s).isSome = true → ¬tree.Below r s)
    (showCompleted : Bool) :
    ∃ group, tree.IsGroup (fun t => t.id ∈ roots) group ∧
      ∃ places, (∀ places', Lists tree showCompleted (group.map (·, 0)) places' ↔
        places' = places) ∧ tree.outline roots showCompleted = places.map line := by
  obtain ⟨places, hlists, -, houtline⟩ :=
    exists_lists_outline (standApart_of_roots hnodup hbelow) showCompleted
  refine ⟨tree.shownRoots roots, isGroup_shownRoots hnodup, places, ?_, houtline⟩
  intro places'
  constructor
  · intro hother
    exact hlists.unique hother
  · rintro rfl
    exact hlists

end outlines

/-- **An outline goes through the tree in pre-order.**  It lists no task twice, and exactly those
    that are shown with all tasks on a way up to one of the roots.  A line is a root at depth 0,
    or comes after the line of its parent and one step deeper.  Where the roots are given once
    each and stand neither below each other nor on a circle, the outline is the list that is
    made group by group, each task followed by the list of its own children. -/
theorem outline_preorder (tree : Tree) (roots : List TaskId) (showCompleted : Bool) :
    ((tree.outline roots showCompleted).map OutlineNode.id).Nodup ∧
    (∀ id, id ∈ (tree.outline roots showCompleted).map OutlineNode.id ↔
      ∃ root ∈ roots, tree.ShownWithin showCompleted root id) ∧
    (∀ node ∈ tree.outline roots showCompleted,
      (∃ t, tree.get? node.id = some t ∧ node = line (t, node.depth)) ∧
      (node.depth = 0 ∧ node.id ∈ roots ∨ ∃ above : OutlineNode, node.parent = some above.id ∧
        node.depth = above.depth + 1 ∧
          [above, node].Sublist (tree.outline roots showCompleted))) ∧
    (∀ id, tree.IsGroup (fun t => t.parent = some id) (tree.shownChildren id)) ∧
    (roots.Nodup →
      (∀ r ∈ roots, ∀ s ∈ roots, (tree.get? s).isSome = true → ¬tree.Below r s) →
      ∃ group, tree.IsGroup (fun t => t.id ∈ roots) group ∧
        ∃ places, (∀ places', Lists tree showCompleted (group.map (·, 0)) places' ↔
          places' = places) ∧ tree.outline roots showCompleted = places.map line) := by
  obtain ⟨places, houtline, hcovers⟩ := exists_covers_outline tree roots showCompleted
  refine ⟨?_, ?_, ?_, tree.isGroup_shownChildren, ?_⟩
  · rw [houtline, map_id_map_line]
    exact hcovers.nodup
  · rw [houtline, map_id_map_line]
    intro id
    exact hcovers.mem_ids_iff
  · rw [houtline]
    intro node hnode
    obtain ⟨place, hplace, rfl⟩ := List.mem_map.mp hnode
    have hget := mem_tasks_iff.mp (hcovers.mem_tasks hplace)
    exact ⟨⟨place.1, hget, rfl⟩, hcovers.line_cases hplace⟩
  · intro hnodup hbelow
    exact outline_lists hnodup hbelow showCompleted

/-- Two tasks at the top, one with an open and a completed child, and a circle beside them. -/
def besideCircle : Tree :=
  { tasks := [{ id := 1, sortKey := ['a', '1'] },
              { id := 2, sortKey := ['a', '0'], parent := some 1,
                completedAt := some (.moment (Moment.midnight Day.first)) },
              { id := 3, sortKey := ['a', '1'], parent := some 1 },
              { id := 4, sortKey := ['a', '0'] },
              { id := 5, sortKey := ['a', '0'], parent := some 6 },
              { id := 6, sortKey := ['a', '0'], parent := some 5 }]
    projects := []
    tasks_nodup := by decide
    projects_nodup := List.nodup_nil }

/-- From the tasks at the top it is listed group by group, without the circle. -/
theorem outline_preorder_besideCircle : besideCircle.Below 5 5 ∧
    ([1, 4] : List TaskId).Nodup ∧
    (∀ r ∈ ([1, 4] : List TaskId), ∀ s ∈ ([1, 4] : List TaskId),
      (besideCircle.get? s).isSome = true → ¬besideCircle.Below r s) ∧
    (∃ group, besideCircle.IsGroup (fun t => t.id ∈ ([1, 4] : List TaskId)) group ∧
      ∃ places, Lists besideCircle true (group.map (·, 0)) places ∧
        besideCircle.outline [1, 4] true = places.map line) ∧
    2 ∈ (besideCircle.outline [1, 4] true).map OutlineNode.id := by
  have hcircle : besideCircle.Below 5 5 :=
    Relation.TransGen.tail (Relation.TransGen.single ⟨_, rfl, rfl⟩) ⟨_, rfl, rfl⟩
  have hbelow : ∀ r ∈ ([1, 4] : List TaskId), ∀ s ∈ ([1, 4] : List TaskId),
      (besideCircle.get? s).isSome = true → ¬besideCircle.Below r s := by
    intro r hr s _ hs
    have hsome := Option.isSome_iff_exists.mp hs
    simp only [List.mem_cons, List.not_mem_nil, or_false] at hr
    rcases hr with rfl | rfl
    · exact not_below_of_isTop rfl rfl hsome
    · exact not_below_of_isTop rfl rfl hsome
  obtain ⟨-, hmem, -, -, hlists⟩ := outline_preorder besideCircle [1, 4] true
  obtain ⟨group, hgroup, places, hplaces, houtline⟩ := hlists (by decide) hbelow
  refine ⟨hcircle, by decide, hbelow, ⟨group, hgroup, places, (hplaces places).mpr rfl, houtline⟩,
    (hmem 2).mpr ⟨1, List.mem_cons_self, ?_⟩⟩
  exact ShownWithin.child (ShownWithin.root rfl rfl) rfl rfl rfl

end Agenda.Tree
