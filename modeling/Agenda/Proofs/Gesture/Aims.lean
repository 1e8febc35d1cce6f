import Agenda.Proofs.Gesture.NewKeys
import Agenda.Proofs.SortKey.Bounds

/-! # Where the key of a plan falls

    A gesture aims at a spot in a scope: just above or just below some task, or at the end
    (`aim?`).  A plan that changes something has a key above those of all tasks before that
    spot and below those of all others, the moved task left out, whatever the keys of the scope
    (`plan_key_falls`).  Only a scope whose keys collide or are not valid can make it fail. -/

namespace Agenda

/-! ## Section 1: Aims -/

namespace Tree

/-- The nearest task before `task` in its scope that is open or completed as it is. -/
def nearestBefore? (tree : Tree) (task : Task) : Option Task :=
  ((tree.siblingsOf task).filter fun s =>
    s.isCompleted == task.isCompleted && decide (s.StandsBefore task)).getLast?

/-- The nearest task after `task` in its scope that is open or completed as it is. -/
def nearestAfter? (tree : Tree) (task : Task) : Option Task :=
  ((tree.siblingsOf task).filter fun s =>
    s.isCompleted == task.isCompleted && decide (task.StandsBefore s)).head?

end Tree

namespace Gesture

/-- A spot in a list of tasks. -/
inductive Spot where
  | justAbove (anchor : Task)
  | justBelow (anchor : Task)
  | atEnd

/-- The task stands before the spot. -/
def Spot.Follows : Spot → Task → Prop
  | justAbove anchor, t => t.StandsBefore anchor
  | justBelow anchor, t => ¬anchor.StandsBefore t
  | atEnd, _ => True

/-- A scope and a spot in it. -/
structure Aim where
  parent  : Option TaskId
  project : Option ProjectId
  spot    : Spot

/-- The tasks of the scope, the moved one left out. -/
def Aim.tasks (aim : Aim) (tree : Tree) (moved : Option TaskId) : List Task :=
  scopeWithout tree aim.parent aim.project moved

/-- Where a gesture puts its task.  It aims nowhere if a task that it needs is missing. -/
def aim? (g : Gesture) (tree : Tree) : Option Aim :=
  match g.kind with
  | .insertAbove =>
    (g.anchor.bind tree.get?).map fun anchor => ⟨anchor.parent, anchor.project, .justAbove anchor⟩
  | .insertBelow =>
    (g.anchor.bind tree.get?).map fun anchor => ⟨anchor.parent, anchor.project, .justBelow anchor⟩
  | .moveUp =>
    (g.task.bind tree.get?).bind fun task => (tree.nearestBefore? task).map fun neighbour =>
      ⟨task.parent, task.project, .justAbove neighbour⟩
  | .moveDown =>
    (g.task.bind tree.get?).bind fun task => (tree.nearestAfter? task).map fun neighbour =>
      ⟨task.parent, task.project, .justBelow neighbour⟩
  | .indent =>
    (g.task.bind tree.get?).bind fun task => (tree.nearestBefore? task).map fun neighbour =>
      ⟨some neighbour.id, none, .atEnd⟩
  | .unindent =>
    (g.task.bind tree.get?).bind fun task => (tree.parent? task).map fun parent =>
      ⟨parent.parent, parent.project, .justBelow parent⟩
  | .reparent => (g.task.bind tree.get?).map fun task => ⟨g.parent, task.project, .atEnd⟩
  | .append => some ⟨g.parent, g.project, .atEnd⟩

/-- The keys are valid, and no two tasks have the same. -/
structure SoundKeys (tasks : List Task) : Prop where
  distinct : (tasks.map Task.sortKey).Nodup
  valid    : ∀ t ∈ tasks, SortKey.isValid t.sortKey = true

/-! ## Section 2: What becomes of a gesture -/

/-- The plan leaves the task where it is, or there is none, and not for want of a key. -/
def MakesNoKey (result : Except GestureError Plan) : Prop :=
  (∀ p, result = .ok p → p.changed = false) ∧ ∀ e, result ≠ .error (.key e)

/-- The spot cuts the scope, and the plan has a new key between the tasks next to it, if there
    is a key between them. -/
def MakesKeyAt (aim : Aim) (tasks : List Task) (result : Except GestureError Plan) : Prop :=
  ∃ above below, tasks = above ++ below ∧ (∀ t ∈ above, aim.spot.Follows t) ∧
    (∀ t ∈ below, ¬aim.spot.Follows t) ∧
    result = (newKey (above.getLast?.map Task.sortKey) (below.head?.map Task.sortKey)).map
      fun key => { sortKey := key, parent := aim.parent }

section outcomes
variable {g : Gesture} {tree : Tree} {task t : Task} {parent moved : Option TaskId}
  {project : Option ProjectId}

theorem makesNoKey_unchanged (t : Task) : MakesNoKey (.ok (unchanged t)) := by
  refine ⟨?_, ?_⟩
  · intro p hp
    obtain rfl := Except.ok.inj hp
    rfl
  · intro e he
    cases he

theorem makesNoKey_error {e : GestureError} (h : ∀ k, e ≠ .key k) : MakesNoKey (.error e) := by
  refine ⟨?_, ?_⟩
  · intro p hp
    cases hp
  · intro k hk
    exact h k (Except.error.inj hk)

theorem makesNoKey_refused (e : Tree.ParentError) : MakesNoKey (.error (.parent e)) := by
  apply makesNoKey_error
  intro k hk
  cases hk

/-- A key between a task and the one before it. -/
theorem makesKeyAt_justAbove {front back : List Task} (hfront : ∀ s ∈ front, s.StandsBefore t)
    (hback : ∀ s ∈ back, t.StandsBefore s) :
    MakesKeyAt ⟨parent, project, .justAbove t⟩ (front ++ t :: back)
      ((newKey (front.getLast?.map Task.sortKey) (some t.sortKey)).map
        fun key => { sortKey := key, parent := parent }) := by
  refine ⟨front, t :: back, rfl, hfront, ?_, rfl⟩
  intro s hs
  rcases List.mem_cons.mp hs with rfl | hs
  · exact Task.not_standsBefore_self s
  · exact (hback s hs).asymm

/-- A key between a task and the one after it. -/
theorem makesKeyAt_justBelow {front back : List Task} (hfront : ∀ s ∈ front, s.StandsBefore t)
    (hback : ∀ s ∈ back, t.StandsBefore s) :
    MakesKeyAt ⟨parent, project, .justBelow t⟩ (front ++ t :: back)
      ((newKey (some t.sortKey) (back.head?.map Task.sortKey)).map
        fun key => { sortKey := key, parent := parent }) := by
  refine ⟨front ++ [t], back, List.append_cons front t back, ?_, ?_, ?_⟩
  · intro s hs
    rcases List.mem_append.mp hs with hs | hs
    · exact (hfront s hs).asymm
    · obtain rfl := List.mem_singleton.mp hs
      exact Task.not_standsBefore_self s
  · intro s hs hnot
    exact hnot (hback s hs)
  · rw [List.getLast?_concat]
    rfl

/-- A list of tasks of the tree in strict order is cut by each of its tasks. -/
theorem exists_cut {tasks : List Task} (hstrict : tasks.Pairwise Task.StandsBefore)
    (htree : ∀ s ∈ tasks, s ∈ tree.tasks) (ht : t ∈ tasks) :
    ∃ front back, tasks = front ++ t :: back ∧ (∀ s ∈ front, s.StandsBefore t) ∧
      (∀ s ∈ back, t.StandsBefore s) ∧ ∀ s ∈ front, s.id ≠ t.id := by
  obtain ⟨front, back, rfl, hfront, hback⟩ := Task.exists_split hstrict ht
  refine ⟨front, back, rfl, hfront, hback, ?_⟩
  intro s hs
  exact id_ne_of_standsBefore (htree s (List.mem_append_left _ hs)) (htree t ht) (hfront s hs)

/-- A key next to a task of the scope. -/
theorem makesKeyAt_beside (ht : t ∈ scopeWithout tree parent project moved) :
    MakesKeyAt ⟨parent, project, .justAbove t⟩ (scopeWithout tree parent project moved)
        ((keyAbove (scopeWithout tree parent project moved) t).map
          fun key => { sortKey := key, parent := parent }) ∧
      MakesKeyAt ⟨parent, project, .justBelow t⟩ (scopeWithout tree parent project moved)
        ((keyBelow (scopeWithout tree parent project moved) t).map
          fun key => { sortKey := key, parent := parent }) := by
  have hstrict := scopeWithout_strict tree parent project moved
  obtain ⟨front, back, hsplit, hfront, hback, hids⟩ :=
    exists_cut hstrict (fun _ hs => mem_tasks_of_scopeWithout hs) ht
  rw [hsplit, keyAbove_append hids, keyBelow_append hids]
  exact ⟨makesKeyAt_justAbove hfront hback, makesKeyAt_justBelow hfront hback⟩

/-- A key at the end of a scope. -/
theorem makesKeyAt_atEnd (tree : Tree) (parent : Option TaskId) (project : Option ProjectId)
    (moved : Option TaskId) :
    MakesKeyAt ⟨parent, project, .atEnd⟩ (scopeWithout tree parent project moved)
      ((keyAtEnd (scopeWithout tree parent project moved)).map
        fun key => { sortKey := key, parent := parent }) := by
  refine ⟨scopeWithout tree parent project moved, [], ?_, ?_, ?_, rfl⟩
  · rw [List.append_nil]
  · intro t _
    trivial
  · intro t ht
    cases ht

/-! ### Insertions -/

theorem planInsert_outcome (g : Gesture) (tree : Tree) (above : Bool) :
    MakesNoKey (g.planInsert tree above) ∨ ∃ anchor, g.anchor.bind tree.get? = some anchor ∧
      MakesKeyAt ⟨anchor.parent, anchor.project,
          if above then .justAbove anchor else .justBelow anchor⟩
        (scopeWithout tree anchor.parent anchor.project g.task) (g.planInsert tree above) := by
  unfold planInsert require
  cases hget : g.anchor.bind tree.get? with
  | none => exact Or.inl (makesNoKey_error fun k hk => by cases hk)
  | some anchor =>
    show MakesNoKey (if some anchor.id = g.task then _ else _) ∨ _
    -- a task is not moved beside itself
    by_cases hself : some anchor.id = g.task
    · rw [if_pos hself]
      exact Or.inl (makesNoKey_unchanged anchor)
    · refine Or.inr ⟨anchor, rfl, ?_⟩
      obtain ⟨id, -, hanchor⟩ := Option.bind_eq_some_iff.mp hget
      have hmem : anchor ∈ scopeWithout tree anchor.parent anchor.project g.task :=
        mem_scopeWithout.mpr
          ⟨Tree.mem_scope.mpr ⟨Tree.mem_of_get? hanchor, rfl, fun _ => rfl⟩, hself⟩
      obtain ⟨habove, hbelow⟩ := makesKeyAt_beside hmem
      show MakesKeyAt _ _ (if some anchor.id = g.task then _ else _)
      rw [if_neg hself]
      cases above with
      | true => exact habove
      | false => exact hbelow

/-! ### Moves and indents -/

/-- In the group that is shown with a task the nearest tasks of its state stand next to it. -/
theorem exists_cut_shownGroup (ht : task ∈ tree.tasks) :
    ∃ front back, shownGroup (tree.siblingsOf task) task = front ++ task :: back ∧
      tree.nearestBefore? task = front.getLast? ∧ tree.nearestAfter? task = back.head? ∧
      ∀ s ∈ front, s.id ≠ task.id := by
  have hstrict : (tree.siblingsOf task).Pairwise Task.StandsBefore := tree.scope_strict _ _
  have hmem : task ∈ tree.siblingsOf task := Tree.mem_scope.mpr ⟨ht, rfl, fun _ => rfl⟩
  have htree : ∀ s ∈ tree.siblingsOf task, s ∈ tree.tasks := fun _ hs => (Tree.mem_scope.mp hs).1
  obtain ⟨front, back, hsplit, -, -, hids⟩ := exists_cut hstrict htree hmem
  let same : Task → Bool := fun s => s.isCompleted == task.isCompleted
  refine ⟨front.filter same, back.filter same, ?_, ?_, ?_, ?_⟩
  · have hself : same task = true := beq_self_eq_true _
    show (tree.siblingsOf task).filter same = _
    rw [hsplit, List.filter_append, List.filter_cons_of_pos hself]
  · unfold Tree.nearestBefore?
    rw [hsplit] at hstrict ⊢
    rw [← List.filter_filter, Task.filter_before hstrict]
  · unfold Tree.nearestAfter?
    rw [hsplit] at hstrict ⊢
    rw [← List.filter_filter, Task.filter_after hstrict]
  · intro s hs
    exact hids s (List.mem_of_mem_filter hs)

/-- At its place in that group a task has the nearest tasks of its state as neighbours. -/
theorem place_shownGroup (ht : task ∈ tree.tasks) :
    ∃ i, place (shownGroup (tree.siblingsOf task) task) task = .ok i ∧
      (if i = 0 then none else (shownGroup (tree.siblingsOf task) task)[i - 1]?) =
        tree.nearestBefore? task ∧
      (shownGroup (tree.siblingsOf task) task)[i + 1]? = tree.nearestAfter? task := by
  obtain ⟨front, back, hgroup, hbefore, hafter, hids⟩ := exists_cut_shownGroup ht
  refine ⟨front.length, ?_, ?_, ?_⟩
  · rw [hgroup, place_append hids]
  · rw [hgroup, hbefore, getElem?_before]
  · rw [hgroup, hafter, getElem?_after]

theorem mem_of_nearestBefore? (h : tree.nearestBefore? task = some t) :
    t ∈ tree.siblingsOf task ∧ t.StandsBefore task := by
  have hmem := List.mem_filter.mp (List.mem_of_getLast? h)
  simp only [Bool.and_eq_true, decide_eq_true_eq] at hmem
  exact ⟨hmem.1, hmem.2.2⟩

theorem mem_of_nearestAfter? (h : tree.nearestAfter? task = some t) :
    t ∈ tree.siblingsOf task ∧ task.StandsBefore t := by
  have hmem := List.mem_filter.mp (List.mem_of_head? h)
  simp only [Bool.and_eq_true, decide_eq_true_eq] at hmem
  exact ⟨hmem.1, hmem.2.2⟩

/-- A key next to a sibling has the same neighbours whether the moved task, which is not one of
    them, is left out or not. -/
theorem makesKeyAt_move (ht : task ∈ tree.tasks) (up : Bool)
    (hnear : (if up then tree.nearestBefore? task else tree.nearestAfter? task) = some t) :
    MakesKeyAt ⟨task.parent, task.project, if up then .justAbove t else .justBelow t⟩
      (scopeWithout tree task.parent task.project (some task.id))
      ((if up then keyAbove (tree.siblingsOf task) t else keyBelow (tree.siblingsOf task) t).map
        fun key => { sortKey := key, parent := task.parent }) := by
  have hnext : t ∈ tree.siblingsOf task ∧
      if up then t.StandsBefore task else task.StandsBefore t := by
    cases up with
    | true => exact mem_of_nearestBefore? hnear
    | false => exact mem_of_nearestAfter? hnear
  obtain ⟨hmem, hside⟩ := hnext
  have htree : ∀ s ∈ tree.siblingsOf task, s ∈ tree.tasks := fun _ hs => (Tree.mem_scope.mp hs).1
  obtain ⟨front, back, hsplit, hfront, hback, hids⟩ :=
    exists_cut (tree.scope_strict task.parent task.project) htree hmem
  let stays : Task → Bool := fun s => some s.id != some task.id
  have hscope : scopeWithout tree task.parent task.project (some task.id) =
      front.filter stays ++ (t :: back).filter stays := by
    show (tree.siblingsOf task).filter stays = _
    unfold Tree.siblingsOf
    rw [hsplit, List.filter_append]
  have hstays {s : Task} (hs : s ∈ front ++ t :: back) (hne : s ≠ task) : stays s = true := by
    rw [← hsplit] at hs
    have hid : s.id ≠ task.id := fun hid => hne (Tree.eq_of_id_eq (htree s hs) ht hid)
    simpa [stays] using hid
  have hself : stays t = true := by
    apply hstays (List.mem_append_right _ List.mem_cons_self)
    rintro rfl
    cases up <;> exact Task.not_standsBefore_self t hside
  rw [hscope, List.filter_cons_of_pos hself]
  unfold Tree.siblingsOf
  rw [hsplit]
  -- the moved task stands on the other side of its neighbour than the new key
  cases up with
  | true =>
    have hkept : front.filter stays = front := by
      rw [List.filter_eq_self]
      intro s hs
      apply hstays (List.mem_append_left _ hs)
      rintro rfl
      exact hside.asymm (hfront s hs)
    rw [hkept, if_pos rfl, if_pos rfl, keyAbove_append hids]
    exact makesKeyAt_justAbove hfront fun s hs => hback s (List.mem_of_mem_filter hs)
  | false =>
    have hkept : back.filter stays = back := by
      rw [List.filter_eq_self]
      intro s hs
      apply hstays (List.mem_append_right _ (List.mem_cons_of_mem _ hs))
      rintro rfl
      exact hside.asymm (hback s hs)
    rw [hkept, if_neg Bool.false_ne_true, if_neg Bool.false_ne_true, keyBelow_append hids]
    exact makesKeyAt_justBelow (fun s hs => hfront s (List.mem_of_mem_filter hs)) hback

/-- In terms of the nearest sibling the place in the group does not matter. -/
theorem planMove_eq (ht : task ∈ tree.tasks) (up : Bool) : planMove tree task up =
    match if up then tree.nearestBefore? task else tree.nearestAfter? task with
    | none => .ok (unchanged task)
    | some n =>
      (if up then keyAbove (tree.siblingsOf task) n else keyBelow (tree.siblingsOf task) n).map
        fun key => { sortKey := key, parent := task.parent } := by
  obtain ⟨i, hplace, hbefore, hafter⟩ := place_shownGroup ht
  unfold planMove
  dsimp only
  rw [hplace, ← hbefore, ← hafter]
  cases up <;> rfl

theorem planMove_outcome (ht : task ∈ tree.tasks) (up : Bool) :
    MakesNoKey (planMove tree task up) ∨
      ∃ n, (if up then tree.nearestBefore? task else tree.nearestAfter? task) = some n ∧
        MakesKeyAt ⟨task.parent, task.project, if up then .justAbove n else .justBelow n⟩
          (scopeWithout tree task.parent task.project (some task.id)) (planMove tree task up) := by
  rw [planMove_eq ht up]
  cases hnear : if up then tree.nearestBefore? task else tree.nearestAfter? task with
  | none => exact Or.inl (makesNoKey_unchanged task)
  | some n => exact Or.inr ⟨n, rfl, makesKeyAt_move ht up hnear⟩

theorem planIndent_outcome (ht : task ∈ tree.tasks) :
    MakesNoKey (planIndent tree task) ∨ ∃ n, tree.nearestBefore? task = some n ∧
      MakesKeyAt ⟨some n.id, none, .atEnd⟩ (scopeWithout tree (some n.id) none (some task.id))
        (planIndent tree task) := by
  obtain ⟨i, hplace, hbefore, -⟩ := place_shownGroup ht
  have hplan : planIndent tree task =
      match tree.nearestBefore? task with
      | none => .ok (unchanged task)
      | some n => checkParent tree task.id (some n.id) >>= fun _ =>
        (keyAtEnd (scopeWithout tree (some n.id) none (some task.id))).map
          fun key => { sortKey := key, parent := some n.id } := by
    unfold planIndent
    dsimp only
    rw [hplace, ← hbefore]
    rfl
  cases hnear : tree.nearestBefore? task with
  | none =>
    rw [hplan, hnear]
    exact Or.inl (makesNoKey_unchanged task)
  | some n =>
    have hindent : planIndent tree task = checkParent tree task.id (some n.id) >>= fun _ =>
        (keyAtEnd (scopeWithout tree (some n.id) none (some task.id))).map
          fun key => { sortKey := key, parent := some n.id } := by
      rw [hplan, hnear]
    rw [hindent]
    unfold checkParent
    cases tree.checkParent task.id (some n.id) with
    | error e => exact Or.inl (makesNoKey_refused e)
    | ok _ => exact Or.inr ⟨n, rfl, makesKeyAt_atEnd tree (some n.id) none (some task.id)⟩

/-! ### Other gestures -/

theorem planUnindent_outcome (tree : Tree) (task : Task) :
    MakesNoKey (planUnindent tree task) ∨ ∃ parent, tree.parent? task = some parent ∧
      MakesKeyAt ⟨parent.parent, parent.project, .justBelow parent⟩
        (scopeWithout tree parent.parent parent.project (some task.id))
        (planUnindent tree task) := by
  unfold planUnindent
  cases hparent : tree.parent? task with
  | none => exact Or.inl (makesNoKey_unchanged task)
  | some parent =>
    obtain ⟨id, -, hget⟩ := Option.bind_eq_some_iff.mp hparent
    by_cases hself : parent.id = task.id
    · -- a task that is its own parent is not found in the scope it has been left out of
      have hids : ∀ s ∈ scopeWithout tree parent.parent parent.project (some task.id),
          s.id ≠ parent.id := by
        intro s hs hid
        exact (mem_scopeWithout.mp hs).2 (congrArg some (hid.trans hself))
      left
      show MakesNoKey (keyBelow _ parent >>= _)
      unfold keyBelow keyAfter
      rw [place_of_forall_ne hids]
      exact makesNoKey_error fun k hk => by cases hk
    · have hmem : parent ∈ scopeWithout tree parent.parent parent.project (some task.id) :=
        mem_scopeWithout.mpr
          ⟨Tree.mem_scope.mpr ⟨Tree.mem_of_get? hget, rfl, fun _ => rfl⟩,
            fun h => hself (Option.some.inj h)⟩
      exact Or.inr ⟨parent, rfl, (makesKeyAt_beside hmem).2⟩

theorem planReparent_outcome (tree : Tree) (task : Task) (parent : Option TaskId) :
    MakesNoKey (planReparent tree task parent) ∨
      MakesKeyAt ⟨parent, task.project, .atEnd⟩
        (scopeWithout tree parent task.project (some task.id)) (planReparent tree task parent) := by
  unfold planReparent checkParent
  cases tree.checkParent task.id parent with
  | error e => exact Or.inl (makesNoKey_refused e)
  | ok _ =>
    show MakesNoKey (if parent = task.parent then _ else _) ∨
      MakesKeyAt _ _ (if parent = task.parent then _ else _)
    by_cases hparent : parent = task.parent
    · rw [if_pos hparent]
      exact Or.inl (makesNoKey_unchanged task)
    · rw [if_neg hparent]
      exact Or.inr (makesKeyAt_atEnd tree parent task.project (some task.id))

theorem planAppend_outcome (g : Gesture) (tree : Tree) :
    MakesNoKey (g.planAppend tree) ∨
      MakesKeyAt ⟨g.parent, g.project, .atEnd⟩ (scopeWithout tree g.parent g.project g.task)
        (g.planAppend tree) := by
  have hmakes := makesKeyAt_atEnd tree g.parent g.project g.task
  unfold planAppend
  by_cases hparent : g.parent.isSome = true
  · rw [if_pos hparent]
    unfold require
    cases g.parent.bind tree.get? with
    | none => exact Or.inl (makesNoKey_error fun k hk => by cases hk)
    | some _ => exact Or.inr hmakes
  · rw [if_neg hparent]
    exact Or.inr hmakes

/-- **A gesture that makes a key makes it where it aims.** -/
theorem plan_outcome (g : Gesture) (tree : Tree) :
    MakesNoKey (g.plan tree) ∨ ∃ aim, g.aim? tree = some aim ∧
      MakesKeyAt aim (aim.tasks tree g.task) (g.plan tree) := by
  -- the kinds that move a task require it
  have hmoved {f : Task → Except GestureError Plan} {target : Task → Option Aim}
      (h : ∀ task ∈ tree.tasks, MakesNoKey (f task) ∨ ∃ aim, target task = some aim ∧
        MakesKeyAt aim (aim.tasks tree (some task.id)) (f task)) :
      MakesNoKey (require tree g.task .moved >>= f) ∨
        ∃ aim, (g.task.bind tree.get?).bind target = some aim ∧
          MakesKeyAt aim (aim.tasks tree g.task) (require tree g.task .moved >>= f) := by
    unfold require
    cases hget : g.task.bind tree.get? with
    | none => exact Or.inl (makesNoKey_error fun k hk => by cases hk)
    | some task =>
      obtain ⟨id, hid, hget⟩ := Option.bind_eq_some_iff.mp hget
      obtain rfl := Tree.id_of_get? hget
      rw [hid]
      exact h task (Tree.mem_of_get? hget)
  unfold plan aim?
  cases g.kind with
  | insertAbove =>
    rcases planInsert_outcome g tree true with hnone | ⟨anchor, hget, hkey⟩
    · exact Or.inl hnone
    · refine Or.inr ⟨_, ?_, hkey⟩
      rw [hget]
      rfl
  | insertBelow =>
    rcases planInsert_outcome g tree false with hnone | ⟨anchor, hget, hkey⟩
    · exact Or.inl hnone
    · refine Or.inr ⟨_, ?_, hkey⟩
      rw [hget]
      rfl
  | moveUp =>
    apply hmoved
    intro task ht
    rcases planMove_outcome ht true with hnone | ⟨n, hnear, hkey⟩
    · exact Or.inl hnone
    · exact Or.inr ⟨_, congrArg (Option.map _) hnear, hkey⟩
  | moveDown =>
    apply hmoved
    intro task ht
    rcases planMove_outcome ht false with hnone | ⟨n, hnear, hkey⟩
    · exact Or.inl hnone
    · exact Or.inr ⟨_, congrArg (Option.map _) hnear, hkey⟩
  | indent =>
    apply hmoved
    intro task ht
    rcases planIndent_outcome ht with hnone | ⟨n, hnear, hkey⟩
    · exact Or.inl hnone
    · exact Or.inr ⟨_, congrArg (Option.map _) hnear, hkey⟩
  | unindent =>
    apply hmoved
    intro task _
    rcases planUnindent_outcome tree task with hnone | ⟨parent, hparent, hkey⟩
    · exact Or.inl hnone
    · exact Or.inr ⟨_, congrArg (Option.map _) hparent, hkey⟩
  | reparent =>
    show MakesNoKey _ ∨ ∃ aim, (g.task.bind tree.get?).map _ = some aim ∧ _
    rw [Option.map_eq_bind]
    apply hmoved
    intro task _
    rcases planReparent_outcome tree task g.parent with hnone | hkey
    · exact Or.inl hnone
    · exact Or.inr ⟨_, rfl, hkey⟩
  | append =>
    rcases planAppend_outcome g tree with hnone | hkey
    · exact Or.inl hnone
    · exact Or.inr ⟨_, rfl, hkey⟩

/-! ## Section 3: Keys that fit -/

theorem MakesKeyAt.key_lt_iff {aim : Aim} {tasks : List Task} {result : Except GestureError Plan}
    {p : Plan} (h : MakesKeyAt aim tasks result)
    (hsorted : tasks.Pairwise (fun a b => a.sortKey ≤ b.sortKey)) (hp : result = .ok p) :
    p.parent = aim.parent ∧ ∀ t ∈ tasks,
      (aim.spot.Follows t → t.sortKey < p.sortKey) ∧
        (¬aim.spot.Follows t → p.sortKey < t.sortKey) := by
  obtain ⟨above, below, rfl, habove, hbelow, hresult⟩ := h
  rw [hp] at hresult
  obtain ⟨key, hkey, rfl⟩ := map_eq_ok_iff.mp hresult.symm
  -- the key lies between two neighbours, and the scope is in order on both sides of them
  obtain ⟨hlow, hhigh⟩ := newKey_strict hkey
  obtain ⟨hsorted, hsorted', -⟩ := List.pairwise_append.mp hsorted
  refine ⟨rfl, ?_⟩
  intro t ht
  rcases List.mem_append.mp ht with ht | ht
  · have hlt := lt_of_getLast hsorted (fun s hs => hlow _ (Option.mem_map_of_mem _ hs)) t ht
    exact ⟨fun _ => hlt, fun hnot => absurd (habove t ht) hnot⟩
  · have hlt := lt_of_head hsorted' (fun s hs => hhigh _ (Option.mem_map_of_mem _ hs)) t ht
    exact ⟨fun hyes => absurd hyes (hbelow t ht), fun _ => hlt⟩

/-- Between valid keys that are not the same there is always a key. -/
theorem MakesKeyAt.not_sound {aim : Aim} {tasks : List Task}
    {result : Except GestureError Plan} {e : SortKey.KeyError} (h : MakesKeyAt aim tasks result)
    (hsorted : tasks.Pairwise (fun a b => a.sortKey ≤ b.sortKey)) (he : result = .error (.key e)) :
    ¬SoundKeys tasks := by
  intro hsound
  obtain ⟨above, below, rfl, -, -, hresult⟩ := h
  have hmem {t : Task} (ht : t ∈ above.getLast?) : t ∈ above := List.mem_of_getLast? ht
  have hmem' {t : Task} (ht : t ∈ below.head?) : t ∈ below := List.mem_of_head? ht
  -- the two keys around the place are bounds that fit, so `between` finds a key
  have hfit : SortKey.BoundsFit (above.getLast?.map Task.sortKey)
      (below.head?.map Task.sortKey) := by
    refine ⟨?_, ?_, ?_⟩
    · intro a ha
      obtain ⟨s, hs, rfl⟩ := Option.mem_map.mp ha
      exact hsound.valid s (List.mem_append_left _ (hmem hs))
    · intro b hb
      obtain ⟨t, ht, rfl⟩ := Option.mem_map.mp hb
      exact hsound.valid t (List.mem_append_right _ (hmem' ht))
    · intro a ha b hb
      obtain ⟨s, hs, rfl⟩ := Option.mem_map.mp ha
      obtain ⟨t, ht, rfl⟩ := Option.mem_map.mp hb
      have hle := (List.pairwise_append.mp hsorted).2.2 s (hmem hs) t (hmem' ht)
      have hkeys := List.pairwise_append.mp (List.pairwise_map.mp hsound.distinct)
      have hne := hkeys.2.2 s (hmem hs) t (hmem' ht)
      exact lt_of_le_of_ne hle hne
  obtain ⟨key, hkey⟩ := SortKey.between_isOk_iff.mpr hfit
  rw [he] at hresult
  unfold newKey at hresult
  rw [hkey] at hresult
  cases hresult

theorem aim_tasks_ascending (aim : Aim) (tree : Tree) (moved : Option TaskId) :
    (aim.tasks tree moved).Pairwise (fun a b => a.sortKey ≤ b.sortKey) :=
  scopeWithout_ascending tree aim.parent aim.project moved

/-- A plan that changes something has its parent and its key from where the gesture aims. -/
theorem exists_aim_of_changed {p : Plan} (hplan : g.plan tree = .ok p)
    (hchanged : p.changed = true) : ∃ aim, g.aim? tree = some aim ∧ p.parent = aim.parent ∧
      ∀ t ∈ aim.tasks tree g.task, t.sortKey ≠ p.sortKey ∧
        (aim.spot.Follows t → t.sortKey < p.sortKey) ∧
        (¬aim.spot.Follows t → p.sortKey < t.sortKey) := by
  rcases plan_outcome g tree with hnone | ⟨aim, haim, hkey⟩
  · rw [hnone.1 p hplan] at hchanged
    cases hchanged
  · obtain ⟨hparent, hsides⟩ := hkey.key_lt_iff (aim_tasks_ascending aim tree g.task) hplan
    refine ⟨aim, haim, hparent, ?_⟩
    intro t ht
    obtain ⟨hbefore, hafter⟩ := hsides t ht
    refine ⟨?_, hbefore, hafter⟩
    by_cases hfollows : aim.spot.Follows t
    · exact ne_of_lt (hbefore hfollows)
    · exact ne_of_gt (hafter hfollows)

/-- **The key of a plan falls where the gesture aims**: in the scope that it works on, the moved
    task left out, it is above the keys of all tasks before the spot and below those of all
    others, so it is none of them.  Only if two keys of that scope are the same, or one is not
    valid, can the gesture fail for want of a key. -/
theorem plan_key_falls (g : Gesture) (tree : Tree) :
    (∀ p, g.plan tree = .ok p → p.changed = true → ∃ aim, g.aim? tree = some aim ∧
      p.parent = aim.parent ∧ ∀ t ∈ aim.tasks tree g.task, t.sortKey ≠ p.sortKey ∧
        (aim.spot.Follows t → t.sortKey < p.sortKey) ∧
        (¬aim.spot.Follows t → p.sortKey < t.sortKey)) ∧
      ∀ e, g.plan tree = .error (.key e) → ∃ aim, g.aim? tree = some aim ∧
        ¬SoundKeys (aim.tasks tree g.task) := by
  refine ⟨fun p hplan hchanged => exists_aim_of_changed hplan hchanged, ?_⟩
  intro e he
  rcases plan_outcome g tree with hnone | ⟨aim, haim, hkey⟩
  · exact absurd he (hnone.2 e)
  · exact ⟨aim, haim, hkey.not_sound (aim_tasks_ascending aim tree g.task) he⟩

end outcomes

end Gesture

end Agenda
