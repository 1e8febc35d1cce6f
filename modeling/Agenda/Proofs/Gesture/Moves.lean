import Agenda.Proofs.Gesture.Landing
import Agenda.Proofs.Tree.Groups

/-! # Moves up and down as they are shown

    A move makes its key among all siblings of a task, where open and completed ones may stand
    in any order, and whatever their keys are.  In the list that is shown it exchanges the task
    with the neighbour of its state next to it, and with nothing else (`moves_exchange`).  So a
    move up and a move down after it cancel each other. -/

namespace Agenda

/-! ## Section 1: Neighbours in shown order -/

namespace Task

variable {s n m : Task}

/-- What is shown before a task is shown before one that takes its place, if that is so among
    the tasks of its state. -/
theorem ShownBefore.replace_right (h : s.ShownBefore n) (halike : n.isCompleted = m.isCompleted)
    (hstands : s.StandsBefore n → s.StandsBefore m) : s.ShownBefore m := by
  rcases h with ⟨hopen, hcompleted⟩ | ⟨hsame, hbefore⟩
  · exact Or.inl ⟨hopen, halike.symm.trans hcompleted⟩
  · exact Or.inr ⟨hsame.trans halike, hstands hbefore⟩

theorem ShownBefore.replace_left (h : n.ShownBefore s) (halike : n.isCompleted = m.isCompleted)
    (hstands : n.StandsBefore s → m.StandsBefore s) : m.ShownBefore s := by
  rcases h with ⟨hopen, hcompleted⟩ | ⟨hsame, hbefore⟩
  · exact Or.inl ⟨halike.symm.trans hopen, hcompleted⟩
  · exact Or.inr ⟨halike.symm.trans hsame, hstands hbefore⟩

end Task

namespace Tree

variable {tree : Tree} {up : Bool} {task n n' m : Task}
  {front back front' back' above below above' below' : List Task}

/-- A task with `n` directly above or directly below it. -/
def beside (above : Bool) (n task : Task) : List Task := if above then [n, task] else [task, n]

/-- Among the siblings of a task `n` is shown directly above or below it and is open or
    completed as the task is. -/
structure ShownNext (tree : Tree) (above : Bool) (task n : Task) (front back : List Task) :
    Prop where
  alike : n.isCompleted = task.isCompleted
  shown : tree.shownSiblings task = front ++ beside above n task ++ back

theorem mem_shownSiblings : m ∈ tree.shownSiblings task ↔ m ∈ tree.siblingsOf task :=
  mem_openFirst

theorem shownSiblings_nodup (tree : Tree) (task : Task) : (tree.shownSiblings task).Nodup :=
  (tree.isGroup_shownSiblings task).ordered.nodup

section cut
variable (h : tree.shownSiblings task = above ++ task :: below)
include h

/-- The other siblings, as they are shown. -/
theorem ordered_of_cut : (above ++ below).Pairwise Task.ShownBefore := by
  have hordered := (tree.isGroup_shownSiblings task).ordered
  rw [h] at hordered
  exact hordered.sublist ((List.sublist_cons_self task below).append_left above)

theorem not_mem_of_cut : task ∉ above ++ below := by
  have hnodup := tree.shownSiblings_nodup task
  rw [h, List.nodup_middle] at hnodup
  exact (List.nodup_cons.mp hnodup).1

theorem mem_of_cut_iff : m ∈ above ++ below ↔ m ∈ tree.siblingsOf task ∧ m.id ≠ task.id := by
  have htask : task ∈ tree.siblingsOf task := by
    rw [← mem_shownSiblings, h]
    exact List.mem_append_right above List.mem_cons_self
  rw [← mem_shownSiblings, h]
  constructor
  · intro hm
    have hmem : m ∈ above ++ task :: below :=
      ((List.sublist_cons_self task below).append_left above).subset hm
    refine ⟨hmem, fun hid => ?_⟩
    rw [← h, mem_shownSiblings] at hmem
    obtain rfl := eq_of_id_eq (mem_scope.mp hmem).1 (mem_scope.mp htask).1 hid
    exact not_mem_of_cut h hm
  · intro hm
    have hne : m ≠ task := fun heq => hm.2 (congrArg Task.id heq)
    simpa [hne] using hm.1

end cut

/-- A task is shown in one place only. -/
theorem cut_unique (h : tree.shownSiblings task = above ++ task :: below)
    (h' : tree.shownSiblings task = above' ++ task :: below') :
    above = above' ∧ below = below' := by
  have hmem := not_mem_of_cut h
  rw [List.mem_append, not_or] at hmem
  obtain ⟨habove, -, hbelow⟩ :=
    (List.append_cons_inj_of_notMem hmem.1 hmem.2).mp (h.symm.trans h')
  exact ⟨habove, hbelow⟩

theorem beside_above (front back : List Task) (n task : Task) :
    front ++ beside true n task ++ back = (front ++ [n]) ++ task :: back := by
  simp [beside]

theorem beside_below (front back : List Task) (n task : Task) :
    front ++ beside false n task ++ back = front ++ task :: (n :: back) := by
  simp [beside]

theorem ShownNext.unique (h : tree.ShownNext up task n front back)
    (h' : tree.ShownNext up task n' front' back') : n = n' ∧ front = front' ∧ back = back' := by
  have hcut := h.shown
  have hcut' := h'.shown
  cases up with
  | true =>
    rw [beside_above] at hcut hcut'
    obtain ⟨habove, hback⟩ := cut_unique hcut hcut'
    obtain ⟨hfront, hn⟩ := List.append_singleton_inj.mp habove
    exact ⟨hn, hfront, hback⟩
  | false =>
    rw [beside_below] at hcut hcut'
    obtain ⟨hfront, hbelow⟩ := cut_unique hcut hcut'
    obtain ⟨hn, hback⟩ := List.cons.inj hbelow
    exact ⟨hn, hfront, hback⟩

theorem ShownNext.exists_cut (h : tree.ShownNext up task n front back) : ∃ above below,
    tree.shownSiblings task = above ++ task :: below ∧ above ++ below = front ++ n :: back := by
  have hcut := h.shown
  cases up with
  | true =>
    rw [beside_above] at hcut
    exact ⟨front ++ [n], back, hcut, List.append_cons front n back ▸ rfl⟩
  | false =>
    rw [beside_below] at hcut
    exact ⟨front, n :: back, hcut, rfl⟩

/-- What is shown besides a task are its other siblings. -/
theorem ShownNext.mem_iff (h : tree.ShownNext up task n front back) :
    m ∈ front ++ n :: back ↔ m ∈ tree.siblingsOf task ∧ m.id ≠ task.id := by
  obtain ⟨above, below, hcut, hrest⟩ := h.exists_cut
  rw [← hrest]
  exact mem_of_cut_iff hcut

theorem ShownNext.sides (h : tree.ShownNext up task n front back) :
    (∀ s ∈ front, s.ShownBefore n) ∧ ∀ s ∈ back, n.ShownBefore s := by
  obtain ⟨above, below, hcut, hrest⟩ := h.exists_cut
  have hothers := ordered_of_cut hcut
  rw [hrest] at hothers
  obtain ⟨-, hback, hfront⟩ := List.pairwise_append.mp hothers
  exact ⟨fun s hs => hfront s hs n List.mem_cons_self, (List.pairwise_cons.mp hback).1⟩

/-! ## Section 2: A task in another place -/

/-- If a task gets another key, and with it stands below some of the other siblings and above
    the rest of them as they are shown, it is shown between these. -/
theorem shownSiblings_put (hid : m.id = task.id) (hparent : m.parent = task.parent)
    (hproject : m.project = task.project)
    (hcut : tree.shownSiblings task = front ++ task :: back)
    (hrest : front ++ back = above ++ below)
    (habove : ∀ s ∈ above, s.ShownBefore m) (hbelow : ∀ s ∈ below, m.ShownBefore s) :
    (tree.put m).shownSiblings m = above ++ m :: below := by
  have hothers := ordered_of_cut hcut
  rw [hrest] at hothers
  obtain ⟨haboveOrdered, hbelowOrdered, hacross⟩ := List.pairwise_append.mp hothers
  refine IsGroup.unique ((tree.put m).isGroup_shownSiblings m) ⟨?_, ?_⟩
  · refine List.pairwise_append.mpr
      ⟨haboveOrdered, List.pairwise_cons.mpr ⟨hbelow, hbelowOrdered⟩, ?_⟩
    intro s hs t ht
    rcases List.mem_cons.mp ht with rfl | ht
    · exact habove s hs
    · exact hacross s hs t ht
  · intro t
    have hmem : t ∈ above ++ m :: below ↔ t = m ∨ t ∈ above ++ below := by
      simp only [List.mem_append, List.mem_cons]
      tauto
    -- the task stands in the same scope, and the others are the siblings that it had before
    have hother : t ∈ above ++ below ↔ (t ∈ tree.tasks ∧ SharesScope m t) ∧ t.id ≠ m.id := by
      unfold SharesScope
      rw [← hrest, mem_of_cut_iff hcut, hid, hparent, hproject]
      exact and_congr_left fun _ => mem_scope
    have hself : SharesScope m m := ⟨rfl, fun _ => rfl⟩
    rw [hmem, hother, mem_put]
    constructor
    · intro ht
      rcases ht with rfl | ⟨⟨ht, hshares⟩, hne⟩
      · exact ⟨Or.inl rfl, hself⟩
      · exact ⟨Or.inr ⟨ht, hne⟩, hshares⟩
    · intro ht
      obtain ⟨rfl | ⟨ht, hne⟩, hshares⟩ := ht
      · exact Or.inl rfl
      · exact Or.inr ⟨⟨ht, hshares⟩, hne⟩

end Tree

namespace Gesture

variable {g : Gesture} {tree : Tree} {up : Bool} {task n : Task} {p : Plan}
  {front back : List Task}

/-! ## Section 3: The neighbour that a move steps over -/

/-- The gesture moves the task up or down. -/
structure Moves (g : Gesture) (up : Bool) (task : Task) : Prop where
  kind  : g.kind = if up then .moveUp else .moveDown
  named : g.task = some task.id

theorem Moves.plan_eq (h : g.Moves up task) (ht : task ∈ tree.tasks) :
    g.plan tree = planMove tree task up := by
  have hrequire : require tree g.task .moved = .ok task := by
    unfold require
    rw [h.named, Option.bind_some, Tree.mem_tasks_iff.mp ht]
  have hkind := h.kind
  unfold plan
  cases up with
  | true =>
    rw [if_pos rfl] at hkind
    rw [hkind, hrequire]
    rfl
  | false =>
    rw [if_neg Bool.false_ne_true] at hkind
    rw [hkind, hrequire]
    rfl

/-- The group that is shown with a task stands together among all tasks that are shown. -/
theorem openFirst_shownGroup (tasks : List Task) (task : Task) : ∃ above below,
    Tree.openFirst tasks = above ++ shownGroup tasks task ++ below ∧
      ∀ s ∈ above ++ below, s.isCompleted ≠ task.isCompleted := by
  unfold Tree.openFirst shownGroup
  cases task.isCompleted with
  | true => exact ⟨tasks.filter (!·.isCompleted), [], by simp, by simp⟩
  | false => exact ⟨[], tasks.filter (·.isCompleted), by simp, by simp⟩

/-- Around a task first those of its state are shown, with the nearest ones next to it, and then
    the others. -/
theorem exists_cut_shownSiblings (ht : task ∈ tree.tasks) : ∃ above front back below,
    tree.shownSiblings task = (above ++ front) ++ task :: (back ++ below) ∧
      tree.nearestBefore? task = front.getLast? ∧ tree.nearestAfter? task = back.head? ∧
      (∀ s ∈ front ++ back, s.isCompleted = task.isCompleted) ∧
      ∀ s ∈ above ++ below, s.isCompleted ≠ task.isCompleted := by
  obtain ⟨front, back, hgroup, hbefore, hafter, -⟩ := exists_cut_shownGroup ht
  obtain ⟨above, below, hshown, hother⟩ := openFirst_shownGroup (tree.siblingsOf task) task
  refine ⟨above, front, back, below, ?_, hbefore, hafter, ?_, hother⟩
  · unfold Tree.shownSiblings
    rw [hshown, hgroup]
    simp
  · intro s hs
    have hmem : s ∈ shownGroup (tree.siblingsOf task) task := by
      rw [hgroup]
      exact ((List.sublist_cons_self task back).append_left front).subset hs
    exact beq_iff_eq.mp (List.mem_filter.mp hmem).2

theorem nearestBefore_eq_some_iff (ht : task ∈ tree.tasks) : tree.nearestBefore? task = some n ↔
    ∃ front back, tree.ShownNext true task n front back := by
  obtain ⟨above, front, back, below, hcut, hbefore, -, halike, hother⟩ :=
    exists_cut_shownSiblings ht
  rw [hbefore]
  constructor
  · intro hnear
    obtain ⟨rest, rfl⟩ := List.getLast?_eq_some_iff.mp hnear
    refine ⟨above ++ rest, back ++ below, halike n (by simp), ?_⟩
    rw [hcut, Tree.beside_above, List.append_assoc above rest]
  · intro h
    obtain ⟨front', back', hnext⟩ := h
    have hcut' := hnext.shown
    rw [Tree.beside_above] at hcut'
    obtain ⟨hfront, -⟩ := Tree.cut_unique hcut hcut'
    have hlast : front.getLast?.or above.getLast? = some n := by
      rw [← List.getLast?_append, hfront, List.getLast?_concat]
    -- it is none of the tasks of the other state
    rcases Option.or_eq_some_iff.mp hlast with hnear | ⟨-, hn⟩
    · exact hnear
    · exact absurd hnext.alike (hother n (List.mem_append_left _ (List.mem_of_getLast? hn)))

theorem nearestAfter_eq_some_iff (ht : task ∈ tree.tasks) : tree.nearestAfter? task = some n ↔
    ∃ front back, tree.ShownNext false task n front back := by
  obtain ⟨above, front, back, below, hcut, -, hafter, halike, hother⟩ :=
    exists_cut_shownSiblings ht
  rw [hafter]
  constructor
  · intro hnear
    obtain ⟨rest, rfl⟩ := List.head?_eq_some_iff.mp hnear
    refine ⟨above ++ front, rest ++ below, halike n (by simp), ?_⟩
    rw [hcut, Tree.beside_below, List.cons_append]
  · intro h
    obtain ⟨front', back', hnext⟩ := h
    have hcut' := hnext.shown
    rw [Tree.beside_below] at hcut'
    -- the task stands once among its siblings, so the two cuts are one
    obtain ⟨-, hback⟩ := Tree.cut_unique hcut hcut'
    have hhead : back.head?.or below.head? = some n := by
      rw [← List.head?_append, hback, List.head?_cons]
    rcases Option.or_eq_some_iff.mp hhead with hnear | ⟨-, hn⟩
    · exact hnear
    · exact absurd hnext.alike (hother n (List.mem_append_right _ (List.mem_of_head? hn)))

/-- The nearest sibling of the task's state is the one of its state that is shown next to it. -/
theorem nearest_eq_some_iff (ht : task ∈ tree.tasks) :
    (if up then tree.nearestBefore? task else tree.nearestAfter? task) = some n ↔
      ∃ front back, tree.ShownNext up task n front back := by
  cases up with
  | true => exact nearestBefore_eq_some_iff ht
  | false => exact nearestAfter_eq_some_iff ht

/-- A move leaves the task where it is exactly if no sibling of its state is shown next to it
    on that side. -/
theorem unchanged_iff (h : g.Moves up task) (ht : task ∈ tree.tasks) :
    (∃ p, g.plan tree = .ok p ∧ p.changed = false) ↔
      ¬∃ n front back, tree.ShownNext up task n front back := by
  rw [h.plan_eq ht, planMove_eq ht]
  simp only [← nearest_eq_some_iff ht]
  cases hnear : if up then tree.nearestBefore? task else tree.nearestAfter? task with
  | none => simp [unchanged]
  | some n =>
    constructor
    · rintro ⟨p, hplan, hchanged⟩
      obtain ⟨key, -, rfl⟩ := map_eq_ok_iff.mp hplan
      cases hchanged
    · intro hnone
      exact absurd ⟨n, rfl⟩ hnone

/-! ## Section 4: The exchange -/

/-- A changed plan leaves the parent, and its key lies between those of the siblings above the
    spot that it aims at and those of the siblings below it. -/
theorem exists_shownNext_of_changed (h : g.Moves up task) (ht : task ∈ tree.tasks)
    (hplan : g.plan tree = .ok p) (hchanged : p.changed = true) :
    ∃ n front back, tree.ShownNext up task n front back ∧ p.parent = task.parent ∧
      ∀ t ∈ front ++ n :: back,
        ((if up then Spot.justAbove n else .justBelow n).Follows t →
          t.StandsBefore (moved task p)) ∧
        (¬(if up then Spot.justAbove n else .justBelow n).Follows t →
          (moved task p).StandsBefore t) := by
  rw [h.plan_eq ht] at hplan
  rcases planMove_outcome ht up with hnone | ⟨n, hnear, hkey⟩
  · rw [hnone.1 p hplan] at hchanged
    cases hchanged
  · obtain ⟨front, back, hnext⟩ := (nearest_eq_some_iff ht).mp hnear
    obtain ⟨hparent, hsides⟩ := hkey.key_lt_iff (scopeWithout_ascending _ _ _ _) hplan
    refine ⟨n, front, back, hnext, hparent, ?_⟩
    intro t hmem
    obtain ⟨hscope, hid⟩ := hnext.mem_iff.mp hmem
    obtain ⟨hbefore, hafter⟩ :=
      hsides t (mem_scopeWithout.mpr ⟨hscope, fun heq => hid (Option.some.inj heq)⟩)
    -- no other key is the new one, so ids never decide
    exact ⟨fun hfollows => Or.inl (hbefore hfollows), fun hnot => Or.inl (hafter hnot)⟩

/-- A changed move brings the task to the other side of the neighbour that it stood next to. -/
theorem shownNext_carryOut (h : g.Moves up task) (ht : task ∈ tree.tasks)
    (hplan : g.plan tree = .ok p) (hchanged : p.changed = true) :
    ∃ n front back, tree.ShownNext up task n front back ∧
      (carryOut tree task p).ShownNext (!up) (moved task p) n front back := by
  obtain ⟨n, front, back, hnext, hparent, hstands⟩ :=
    exists_shownNext_of_changed h ht hplan hchanged
  have halike : n.isCompleted = (moved task p).isCompleted := hnext.alike
  have hid : (moved task p).id = task.id := rfl
  obtain ⟨hfront, hback⟩ := hnext.sides
  obtain ⟨above, below, hcut, hrest⟩ := hnext.exists_cut
  refine ⟨n, front, back, hnext, halike, ?_⟩
  rw [carryOut_of_changed hchanged]
  -- the neighbour changes sides: now it stands behind the task, or in front of it
  cases up with
  | true =>
    have hbelow : ∀ s ∈ n :: back, (moved task p).ShownBefore s := by
      intro s hs
      have hside := (hstands s (List.mem_append_right _ hs)).2
      rcases List.mem_cons.mp hs with rfl | hs
      · exact (Task.shownBefore_iff_of_eq halike.symm).mpr (hside (Task.not_standsBefore_self s))
      · exact (hback s hs).replace_left halike fun hns => hside hns.asymm
    rw [Bool.not_true, Tree.beside_below]
    refine Tree.shownSiblings_put hid hparent rfl hcut hrest ?_ hbelow
    intro s hs
    exact (hfront s hs).replace_right halike (hstands s (List.mem_append_left _ hs)).1
  | false =>
    have habove : ∀ s ∈ front ++ [n], s.ShownBefore (moved task p) := by
      intro s hs
      rcases List.mem_append.mp hs with hs | hs
      · refine (hfront s hs).replace_right halike fun hsn => ?_
        exact (hstands s (List.mem_append_left _ hs)).1 hsn.asymm
      · obtain rfl := List.mem_singleton.mp hs
        refine (Task.shownBefore_iff_of_eq halike).mpr ((hstands s ?_).1 ?_)
        · exact List.mem_append_right _ List.mem_cons_self
        · exact Task.not_standsBefore_self s
    rw [Bool.not_false, Tree.beside_above]
    refine Tree.shownSiblings_put hid hparent rfl hcut ?_ habove ?_
    · rw [hrest, List.append_cons]
    · intro s hs
      have hmem : s ∈ front ++ n :: back :=
        List.mem_append_right _ (List.mem_cons_of_mem n hs)
      exact (hback s hs).replace_left halike fun hns => (hstands s hmem).2 (not_not.mpr hns)

/-- **A move up or down exchanges the task with the neighbour of its state that is shown next to
    it on that side, and leaves all else as it is shown.  It changes nothing exactly if there is
    no such neighbour.  So a changed move, carried out, and a changed move back restore the order
    that was shown.** -/
theorem moves_exchange (tree : Tree) {task : Task} (ht : task ∈ tree.tasks) :
    (∀ g up, Moves g up task →
      ((∃ p, g.plan tree = .ok p ∧ p.changed = false) ↔
        ¬∃ n front back, tree.ShownNext up task n front back) ∧
      ∀ p, g.plan tree = .ok p → p.changed = true →
        ∃ n front back, tree.ShownNext up task n front back ∧
          (carryOut tree task p).ShownNext (!up) (moved task p) n front back) ∧
    ∀ g g' up p p', Moves g up task → Moves g' (!up) task →
      g.plan tree = .ok p → p.changed = true →
      g'.plan (carryOut tree task p) = .ok p' → p'.changed = true →
      ((carryOut (carryOut tree task p) (moved task p) p').shownSiblings
          (moved (moved task p) p')).map Task.id = (tree.shownSiblings task).map Task.id := by
  refine ⟨?_, ?_⟩
  · intro g up h
    exact ⟨unchanged_iff h ht, fun p hplan hchanged => shownNext_carryOut h ht hplan hchanged⟩
  · intro g g' up p p' h h' hplan hchanged hplan' hchanged'
    obtain ⟨n, front, back, hnext, hthere⟩ := shownNext_carryOut h ht hplan hchanged
    have hmem : moved task p ∈ (carryOut tree task p).tasks := by
      rw [carryOut_of_changed hchanged]
      exact Tree.mem_put.mpr (Or.inl rfl)
    have hback : Moves g' (!up) (moved task p) := ⟨h'.kind, h'.named⟩
    obtain ⟨n', front', back', hthere', hagain⟩ :=
      shownNext_carryOut hback hmem hplan' hchanged'
    -- it steps back over the neighbour that it has stepped over
    obtain ⟨rfl, rfl, rfl⟩ := hthere.unique hthere'
    rw [hagain.shown, hnext.shown, Bool.not_not]
    cases up <;> simp [Tree.beside, moved]

/-- Tasks that are all siblings are ordered as any ordered list of them is. -/
theorem siblingsOf_of_perm {tasks : List Task} (hperm : tasks.Perm tree.tasks)
    (hstrict : tasks.Pairwise Task.StandsBefore)
    (hshares : ∀ t ∈ tree.tasks, Tree.SharesScope task t) : tree.siblingsOf task = tasks := by
  refine (tree.scope_strict task.parent task.project).eq_of_mem_iff hstrict ?_
  intro t
  rw [hperm.mem_iff, Tree.mem_scope]
  exact and_iff_left_of_imp (hshares t)

/-- An open task. -/
def firstOpen : Task := { id := 1, sortKey := ['a', '0'] }

/-- A completed task below it. -/
def completedBetween : Task :=
  { id := 2, sortKey := ['a', '1'], completedAt := some (.moment (Moment.midnight Day.first)) }

/-- Another open task, with the same key as the completed one. -/
def lastOpen : Task := { id := 3, sortKey := ['a', '1'] }

/-- A tree of these three. -/
def openAround : Tree :=
  { tasks := [firstOpen, completedBetween, lastOpen]
    projects := []
    tasks_nodup := by decide
    projects_nodup := List.nodup_nil }

/-- Move the last task up or down. -/
def moveLastOpen (up : Bool) : Gesture :=
  { kind := if up then .moveUp else .moveDown, task := some 3 }

/-- The plan that moves it above the first one. -/
def aboveFirst : Plan := { sortKey := ['Z', 'z'], parent := none }

theorem siblingsOf_lastOpen :
    openAround.siblingsOf lastOpen = [firstOpen, completedBetween, lastOpen] :=
  siblingsOf_of_perm (by decide) (by decide) (by decide)

theorem siblingsOf_aboveFirst :
    (carryOut openAround lastOpen aboveFirst).siblingsOf (moved lastOpen aboveFirst) =
      [moved lastOpen aboveFirst, firstOpen, completedBetween] :=
  siblingsOf_of_perm (by decide) (by decide) (by decide)

/-- It moves up over the first task and down again, and from there not further. -/
theorem moves_exchange_openAround :
    lastOpen ∈ openAround.tasks ∧ (∀ up, Moves (moveLastOpen up) up lastOpen) ∧
    (∃ p, (moveLastOpen false).plan openAround = .ok p ∧ p.changed = false) ∧
    (¬∃ n front back, openAround.ShownNext false lastOpen n front back) ∧
    (openAround.shownSiblings lastOpen).map Task.id = [1, 3, 2] ∧
    ∃ p p', (moveLastOpen true).plan openAround = .ok p ∧ p.changed = true ∧
      (moveLastOpen false).plan (carryOut openAround lastOpen p) = .ok p' ∧ p'.changed = true ∧
      ((carryOut openAround lastOpen p).shownSiblings (moved lastOpen p)).map Task.id =
        [3, 1, 2] ∧
      ((carryOut (carryOut openAround lastOpen p) (moved lastOpen p) p').shownSiblings
        (moved (moved lastOpen p) p')).map Task.id = [1, 3, 2] := by
  have ht : lastOpen ∈ openAround.tasks := by decide
  have hmoves : ∀ up, Moves (moveLastOpen up) up lastOpen := fun up => ⟨rfl, rfl⟩
  have hup : (moveLastOpen true).plan openAround = .ok aboveFirst := by
    rw [(hmoves true).plan_eq ht]
    unfold planMove
    rw [siblingsOf_lastOpen]
    rfl
  have hstays : (moveLastOpen false).plan openAround = .ok (unchanged lastOpen) := by
    rw [(hmoves false).plan_eq ht]
    unfold planMove
    rw [siblingsOf_lastOpen]
    rfl
  have hdown : (moveLastOpen false).plan (carryOut openAround lastOpen aboveFirst) =
      .ok { sortKey := ['a', '0', 'V'], parent := none } := by
    have hagain : Moves (moveLastOpen false) false (moved lastOpen aboveFirst) := ⟨rfl, rfl⟩
    rw [hagain.plan_eq (by decide)]
    unfold planMove
    rw [siblingsOf_aboveFirst]
    rfl
  -- the neighbour above is the first task, though a completed one stands between by key
  have hbefore : openAround.ShownNext true lastOpen firstOpen [] [completedBetween] := by
    refine ⟨rfl, ?_⟩
    unfold Tree.shownSiblings
    rw [siblingsOf_lastOpen]
    rfl
  obtain ⟨hexchange, hback⟩ := moves_exchange openAround ht
  obtain ⟨n, front, back, hnext, hafter⟩ := (hexchange _ true (hmoves true)).2 aboveFirst hup rfl
  obtain ⟨rfl, rfl, rfl⟩ := hbefore.unique hnext
  refine ⟨ht, hmoves, ⟨_, hstays, rfl⟩, ?_, ?_, aboveFirst, _, hup, rfl, hdown, rfl, ?_, ?_⟩
  · exact (hexchange _ false (hmoves false)).1.mp ⟨_, hstays, rfl⟩
  · rw [hbefore.shown]
    rfl
  · rw [hafter.shown]
    rfl
  · rw [hback _ _ true _ _ (hmoves true) (hmoves false) hup rfl hdown rfl, hbefore.shown]
    rfl

end Gesture

end Agenda
