import Agenda.Proofs.Tree.Links
import Agenda.Proofs.Tree.Rearrangement
import Agenda.Tree.Outline
import Mathlib.Data.List.Basic

/-! # Outlines group by group

    An outline is made with a stack and leaves out what it has listed before.  Where the tasks
    that it starts from stand apart from each other and on no circle, nothing is met twice,
    and the outline lists every group in order, each task followed by the list of its own
    children (`exists_lists_outline`).  A list made from fewer tasks, or with completed tasks
    left out, is part of the longer one (`Lists.sublist`). -/

namespace Agenda.Tree

variable {tree : Tree} {showCompleted : Bool}

/-! ## Section 1: The list below some tasks -/

/-- Is the task left out, because it is completed and completed tasks are not shown? -/
def passesOver (showCompleted : Bool) (task : Task) : Bool := task.isCompleted && !showCompleted

/-- A task at a depth as a line of an outline. -/
def line (place : Task × Nat) : OutlineNode :=
  ⟨place.1.id, place.1.parent, place.2, place.1.isCompleted⟩

/-- The tasks of a group are listed one after the other, each followed by the list below it;
    what is left out has no list. -/
inductive Lists (tree : Tree) (showCompleted : Bool) :
    List (Task × Nat) → List (Task × Nat) → Prop where
  | nil : Lists tree showCompleted [] []
  | hidden {task : Task} {depth : Nat} {group places : List (Task × Nat)}
      (passed : passesOver showCompleted task = true)
      (rest : Lists tree showCompleted group places) :
      Lists tree showCompleted ((task, depth) :: group) places
  | shown {task : Task} {depth : Nat} {group below places : List (Task × Nat)}
      (listed : passesOver showCompleted task = false)
      (children : Lists tree showCompleted
        ((tree.shownChildren task.id).map (·, depth + 1)) below)
      (rest : Lists tree showCompleted group places) :
      Lists tree showCompleted ((task, depth) :: group) ((task, depth) :: (below ++ places))

/-- The tasks of a group whose tasks all stand at one depth. -/
@[simp] theorem map_fst_map_depth (tasks : List Task) (depth : Nat) :
    (tasks.map (·, depth)).map Prod.fst = tasks := by
  rw [List.map_map]
  exact List.map_id tasks

theorem openFirst_perm (tasks : List Task) : (openFirst tasks).Perm tasks := by
  have h := List.filter_append_perm (fun t : Task => !t.isCompleted) tasks
  simpa [openFirst] using h

theorem mem_shownChildren {id : TaskId} {t : Task} :
    t ∈ tree.shownChildren id ↔ t ∈ tree.tasks ∧ t.parent = some id := by
  unfold shownChildren
  rw [(openFirst_perm _).mem_iff, mem_children]

theorem linksTo_of_mem_shownChildren {id : TaskId} {t : Task} (h : t ∈ tree.shownChildren id) :
    tree.LinksTo t.id id := by
  obtain ⟨ht, hparent⟩ := mem_shownChildren.mp h
  exact ⟨t, mem_tasks_iff.mp ht, hparent⟩

section lists
variable {group group' places places' : List (Task × Nat)} {place : Task × Nat}

theorem Lists.append (h : Lists tree showCompleted group places)
    (h' : Lists tree showCompleted group' places') :
    Lists tree showCompleted (group ++ group') (places ++ places') := by
  induction h with
  | nil => exact h'
  | hidden passed _ ih => exact Lists.hidden passed ih
  | shown listed children _ _ ih =>
    have hlists := Lists.shown listed children ih
    rwa [← List.append_assoc] at hlists

/-! ### What is listed -/

/-- The tasks of the group that are not left out are listed, in the order of the group. -/
theorem Lists.group_sublist (h : Lists tree showCompleted group places) :
    (group.filter fun x => !passesOver showCompleted x.1).Sublist places := by
  induction h with
  | nil => exact List.Sublist.slnil
  | hidden passed _ ih =>
    rw [List.filter_cons_of_neg (by simp [passed])]
    exact ih
  | @shown _ _ _ below rest listed _ _ _ ih =>
    rw [List.filter_cons_of_pos (by simp [listed])]
    exact (ih.trans (List.sublist_append_right below rest)).cons_cons _

/-- With a task its children are listed, one step deeper and in their order. -/
theorem Lists.children_sublist (h : Lists tree showCompleted group places)
    (hplace : place ∈ places) :
    (((tree.shownChildren place.1.id).map (·, place.2 + 1)).filter
      fun x => !passesOver showCompleted x.1).Sublist places := by
  induction h with
  | nil => cases hplace
  | hidden _ _ ih => exact ih hplace
  | @shown _ _ _ below rest _ children _ ihBelow ihRest =>
    rcases List.mem_cons.mp hplace with rfl | hplace
    · have hbelow := children.group_sublist.trans (List.sublist_append_left below rest)
      exact hbelow.cons _
    · rcases List.mem_append.mp hplace with hplace | hplace
      · exact ((ihBelow hplace).trans (List.sublist_append_left below rest)).cons _
      · exact ((ihRest hplace).trans (List.sublist_append_right below rest)).cons _

theorem Lists.mem_of_group (h : Lists tree showCompleted group places) (hplace : place ∈ group)
    (hshown : passesOver showCompleted place.1 = false) : place ∈ places :=
  h.group_sublist.subset (List.mem_filter.mpr ⟨hplace, by simp [hshown]⟩)

theorem Lists.mem_of_child {t : Task} (h : Lists tree showCompleted group places)
    (hplace : place ∈ places) (ht : t ∈ tree.shownChildren place.1.id)
    (hshown : passesOver showCompleted t = false) : (t, place.2 + 1) ∈ places :=
  (h.children_sublist hplace).subset
    (List.mem_filter.mpr ⟨List.mem_map_of_mem ht, by simp [hshown]⟩)

/-- What is listed is a task of the group or stands below one. -/
theorem Lists.exists_within (h : Lists tree showCompleted group places)
    (hgroup : ∀ x ∈ group, x.1 ∈ tree.tasks) (hplace : place ∈ places) :
    place.1 ∈ tree.tasks ∧ ∃ x ∈ group, tree.Within place.1.id x.1.id := by
  -- on the listing: below a listed task the links lead up to it
  induction h with
  | nil => cases hplace
  | hidden _ _ ih =>
    obtain ⟨htask, x, hx, hwithin⟩ := ih (fun x hx => hgroup x (List.mem_cons_of_mem _ hx)) hplace
    exact ⟨htask, x, List.mem_cons_of_mem _ hx, hwithin⟩
  | @shown task depth _ _ _ _ _ _ ihBelow ihRest =>
    rcases List.mem_cons.mp hplace with rfl | hplace
    · exact ⟨hgroup _ List.mem_cons_self, _, List.mem_cons_self, Relation.ReflTransGen.refl⟩
    rcases List.mem_append.mp hplace with hplace | hplace
    · have hchildren : ∀ x ∈ (tree.shownChildren task.id).map (·, depth + 1),
          x.1 ∈ tree.tasks := by
        intro x hx
        obtain ⟨t, ht, rfl⟩ := List.mem_map.mp hx
        exact (mem_shownChildren.mp ht).1
      obtain ⟨htask, x, hx, hwithin⟩ := ihBelow hchildren hplace
      obtain ⟨t, ht, rfl⟩ := List.mem_map.mp hx
      have hlink := linksTo_of_mem_shownChildren ht
      exact ⟨htask, _, List.mem_cons_self, Relation.ReflTransGen.tail hwithin hlink⟩
    · obtain ⟨htask, x, hx, hwithin⟩ :=
        ihRest (fun x hx => hgroup x (List.mem_cons_of_mem _ hx)) hplace
      exact ⟨htask, x, List.mem_cons_of_mem _ hx, hwithin⟩

/-- What is listed is a task of the group, or its parent is listed before it. -/
theorem Lists.parent_first (h : Lists tree showCompleted group places) (hplace : place ∈ places) :
    place ∈ group ∨ ∃ x, place.1 ∈ tree.shownChildren x.1.id ∧ place.2 = x.2 + 1 ∧
      [x, place].Sublist places := by
  -- a place comes from the group itself, or from below a place that is listed before
  induction h with
  | nil => cases hplace
  | hidden _ _ ih =>
    rcases ih hplace with hgroup | hparent
    · exact Or.inl (List.mem_cons_of_mem _ hgroup)
    · exact Or.inr hparent
  | @shown task depth _ below rest _ _ _ ihBelow ihRest =>
    rcases List.mem_cons.mp hplace with rfl | hplace
    · exact Or.inl List.mem_cons_self
    rcases List.mem_append.mp hplace with hplace | hplace
    · refine Or.inr ?_
      rcases ihBelow hplace with hchild | ⟨x, hx, hdepth, hbefore⟩
      · obtain ⟨t, ht, rfl⟩ := List.mem_map.mp hchild
        refine ⟨(task, depth), ht, rfl, List.Sublist.cons_cons _ ?_⟩
        exact List.singleton_sublist.mpr (List.mem_append_left _ hplace)
      · have hbelow := hbefore.trans (List.sublist_append_left below rest)
        exact ⟨x, hx, hdepth, hbelow.cons _⟩
    · rcases ihRest hplace with hgroup | ⟨x, hx, hdepth, hbefore⟩
      · exact Or.inl (List.mem_cons_of_mem _ hgroup)
      · have hrest := hbefore.trans (List.sublist_append_right below _)
        exact Or.inr ⟨x, hx, hdepth, hrest.cons _⟩

/-- **From fewer tasks, or without completed ones, part of the list is made, in its order.** -/
theorem Lists.sublist {showLess : Bool} (h : Lists tree showCompleted group places)
    (h' : Lists tree showLess group' places') (hgroup : group'.Sublist group)
    (hshow : showLess = true → showCompleted = true) : places'.Sublist places := by
  -- what the longer list leaves out the shorter one leaves out too
  have hpasses {t : Task} (ht : passesOver showCompleted t = true) :
      passesOver showLess t = true := by
    cases showLess <;> simp_all [passesOver]
  induction h generalizing group' places' with
  | nil =>
    obtain rfl := List.sublist_nil.mp hgroup
    cases h'
    exact List.Sublist.slnil
  | hidden passed _ ih =>
    cases hgroup with
    | cons _ hgroup => exact ih h' hgroup
    | cons_cons _ hgroup =>
      cases h' with
      | hidden _ rest => exact ih rest hgroup
      | shown listed _ _ =>
        rw [hpasses passed] at listed
        cases listed
  | @shown _ _ _ below _ _ _ _ ihBelow ihRest =>
    cases hgroup with
    | cons _ hgroup =>
      have hrest := (ihRest h' hgroup).trans (List.sublist_append_right below _)
      exact hrest.cons _
    | cons_cons _ hgroup =>
      cases h' with
      | hidden _ rest =>
        have hrest := (ihRest rest hgroup).trans (List.sublist_append_right below _)
        exact hrest.cons _
      | shown _ children rest =>
        have hbelow := ihBelow children (List.Sublist.refl _)
        exact (hbelow.append (ihRest rest hgroup)).cons_cons _

end lists

/-! ## Section 2: Tasks that stand apart -/

/-- The tasks stand on no circle, and none of them stands below another. -/
structure StandApart (tree : Tree) (tasks : List Task) : Prop where
  present : ∀ t ∈ tasks, t ∈ tree.tasks
  free    : ∀ t ∈ tasks, ¬tree.Below t.id t.id
  apart   : tasks.Pairwise fun s t => ¬tree.Within s.id t.id ∧ ¬tree.Within t.id s.id

section apart
variable {tasks tasks' : List Task} {s t : Task} {id p q : TaskId}

theorem StandApart.perm (h : tree.StandApart tasks) (hperm : tasks.Perm tasks') :
    tree.StandApart tasks' where
  present := fun t ht => h.present t (hperm.mem_iff.mpr ht)
  free := fun t ht => h.free t (hperm.mem_iff.mpr ht)
  apart := h.apart.perm hperm fun hst => ⟨hst.2, hst.1⟩

theorem StandApart.of_cons (h : tree.StandApart (t :: tasks)) : tree.StandApart tasks where
  present := fun s hs => h.present s (List.mem_cons_of_mem _ hs)
  free := fun s hs => h.free s (List.mem_cons_of_mem _ hs)
  apart := (List.pairwise_cons.mp h.apart).2

/-- Of two ids above a task one stands within the subtree of the other. -/
theorem within_or_within (hp : tree.Within id p) (hq : tree.Within id q) :
    tree.Within p q ∨ tree.Within q p :=
  Relation.ReflTransGen.total_of_right_unique (fun _ _ _ => LinksTo.unique) hp hq

/-- Below a task on no circle there is none on a circle. -/
theorem not_below_self_of_linksTo (hfree : ¬tree.Below p p) (hlink : tree.LinksTo id p) :
    ¬tree.Below id id := by
  intro hcircle
  obtain ⟨p', hlink', hwithin⟩ := below_iff.mp hcircle
  obtain rfl := hlink.unique hlink'
  exact hfree (Relation.TransGen.tail' hwithin hlink)

/-- The children of a task on no circle stand apart. -/
theorem standApart_shownChildren (hfree : ¬tree.Below id id) :
    tree.StandApart (tree.shownChildren id) := by
  have hfree' : ∀ t ∈ tree.shownChildren id, ¬tree.Below t.id t.id := by
    intro t ht
    exact not_below_self_of_linksTo hfree (linksTo_of_mem_shownChildren ht)
  -- the way up from a child to another leads through the parent of both
  have hne {s t : Task} (hs : s ∈ tree.shownChildren id) (ht : t ∈ tree.shownChildren id)
      (hids : s.id ≠ t.id) : ¬tree.Within s.id t.id := by
    intro hwithin
    obtain ⟨p, hlink, hup⟩ := below_iff.mp ((within_iff.mp hwithin).resolve_left hids)
    obtain rfl := (linksTo_of_mem_shownChildren hs).unique hlink
    exact hfree (Relation.TransGen.tail' hup (linksTo_of_mem_shownChildren ht))
  have hnodup : (tree.shownChildren id).Nodup :=
    (openFirst_perm _).nodup_iff.mpr (tree.children_nodup (some id))
  refine ⟨fun t ht => (mem_shownChildren.mp ht).1, hfree', ?_⟩
  refine List.Nodup.pairwise_of_forall_ne hnodup ?_
  intro s hs t ht hst
  have hids : s.id ≠ t.id := by
    intro hids
    exact hst (eq_of_id_eq (mem_shownChildren.mp hs).1 (mem_shownChildren.mp ht).1 hids)
  exact ⟨hne hs ht hids, hne ht hs hids.symm⟩

/-- Tasks at the top stand apart. -/
theorem standApart_of_isTop (hnodup : (tasks.map Task.id).Nodup)
    (hpresent : ∀ t ∈ tasks, t ∈ tree.tasks) (htop : ∀ t ∈ tasks, tree.isTop t = true) :
    tree.StandApart tasks := by
  have hbelow {s t : Task} (hs : s ∈ tasks) (ht : t ∈ tasks) : ¬tree.Below s.id t.id :=
    not_below_of_isTop (mem_tasks_iff.mp (hpresent s hs)) (htop s hs)
      ⟨t, mem_tasks_iff.mp (hpresent t ht)⟩
  refine ⟨hpresent, fun t ht => hbelow ht ht, ?_⟩
  refine (List.pairwise_map.mp hnodup).imp_of_mem ?_
  intro s t hs ht hids
  rw [within_iff, within_iff]
  exact ⟨fun h => h.elim hids (hbelow hs ht), fun h => h.elim (Ne.symm hids) (hbelow ht hs)⟩

/-! ### The list below tasks that stand apart -/

/-- `a` is a task below `b` that does not stand below itself. -/
def FreeBelow (tree : Tree) (a b : { t // t ∈ tree.tasks }) : Prop :=
  tree.Below a.1.id b.1.id ∧ ¬tree.Below a.1.id a.1.id

/-- Going down among finitely many tasks comes to an end where no task is met again. -/
theorem freeBelow_wellFounded (tree : Tree) : WellFounded tree.FreeBelow := by
  apply wellFounded_of_finite
  intro a b c hab hbc
  exact Relation.TransGen.trans hab hbc

theorem exists_lists_of_forall {group : List (Task × Nat)}
    (h : ∀ x ∈ group, ∃ places, Lists tree showCompleted [x] places) :
    ∃ places, Lists tree showCompleted group places := by
  induction group with
  | nil => exact ⟨[], Lists.nil⟩
  | cons x group ih =>
    obtain ⟨first, hfirst⟩ := h x List.mem_cons_self
    obtain ⟨rest, hrest⟩ := ih fun y hy => h y (List.mem_cons_of_mem _ hy)
    exact ⟨first ++ rest, hfirst.append hrest⟩

theorem exists_lists_of_free (showCompleted : Bool) (a : { t // t ∈ tree.tasks }) (depth : Nat)
    (hfree : ¬tree.Below a.1.id a.1.id) :
    ∃ places, Lists tree showCompleted [(a.1, depth)] places := by
  induction a using (freeBelow_wellFounded tree).induction generalizing depth with
  | h a ih =>
    cases hpassed : passesOver showCompleted a.1 with
    | true => exact ⟨[], Lists.hidden hpassed Lists.nil⟩
    | false =>
      have hchildren : ∀ x ∈ (tree.shownChildren a.1.id).map (·, depth + 1),
          ∃ places, Lists tree showCompleted [x] places := by
        intro x hx
        obtain ⟨t, ht, rfl⟩ := List.mem_map.mp hx
        have hlink := linksTo_of_mem_shownChildren ht
        have hfree' := not_below_self_of_linksTo hfree hlink
        exact ih ⟨t, (mem_shownChildren.mp ht).1⟩ ⟨Relation.TransGen.single hlink, hfree'⟩
          (depth + 1) hfree'
      obtain ⟨below, hbelow⟩ := exists_lists_of_forall hchildren
      exact ⟨_, Lists.shown hpassed hbelow Lists.nil⟩

theorem StandApart.exists_lists {group : List (Task × Nat)}
    (h : tree.StandApart (group.map Prod.fst)) (showCompleted : Bool) :
    ∃ places, Lists tree showCompleted group places := by
  apply exists_lists_of_forall
  intro x hx
  have hmem : x.1 ∈ group.map Prod.fst := List.mem_map_of_mem hx
  exact exists_lists_of_free showCompleted ⟨x.1, h.present _ hmem⟩ x.2 (h.free _ hmem)

/-- Below tasks that stand apart no task is listed twice. -/
theorem Lists.nodup {group places : List (Task × Nat)}
    (h : Lists tree showCompleted group places) (hapart : tree.StandApart (group.map Prod.fst)) :
    (places.map Prod.fst).Nodup := by
  induction h with
  | nil => exact List.nodup_nil
  | hidden _ _ ih => exact ih hapart.of_cons
  | @shown task depth group below places _ children rest ihBelow ihRest =>
    have hfree : ¬tree.Below task.id task.id := hapart.free task List.mem_cons_self
    have hchildren : tree.StandApart
        (((tree.shownChildren task.id).map (·, depth + 1)).map Prod.fst) := by
      rw [map_fst_map_depth]
      exact standApart_shownChildren hfree
    -- what is listed below the task stands below it, what comes later within other subtrees
    have hbelow : ∀ x ∈ below, tree.Below x.1.id task.id := by
      intro x hx
      have hpresent := hchildren.present
      obtain ⟨-, y, hy, hwithin⟩ :=
        children.exists_within (fun y hy => hpresent y.1 (List.mem_map_of_mem hy)) hx
      obtain ⟨t, ht, rfl⟩ := List.mem_map.mp hy
      exact Relation.TransGen.tail' hwithin (linksTo_of_mem_shownChildren ht)
    have hrest : ∀ x ∈ places, ¬tree.Within x.1.id task.id := by
      intro x hx hwithin
      have hpresent := hapart.of_cons.present
      obtain ⟨-, y, hy, hwithin'⟩ :=
        rest.exists_within (fun y hy => hpresent y.1 (List.mem_map_of_mem hy)) hx
      have hy' := (List.pairwise_cons.mp hapart.apart).1 y.1 (List.mem_map_of_mem hy)
      exact (within_or_within hwithin hwithin').elim hy'.1 hy'.2
    rw [List.map_cons, List.map_append, List.nodup_cons, List.nodup_append]
    refine ⟨?_, ihBelow hchildren, ihRest hapart.of_cons, ?_⟩
    · intro hmem
      rcases List.mem_append.mp hmem with hmem | hmem
      · obtain ⟨x, hx, heq⟩ := List.mem_map.mp hmem
        have h := hbelow x hx
        rw [heq] at h
        exact hfree h
      · obtain ⟨x, hx, heq⟩ := List.mem_map.mp hmem
        have h := hrest x hx
        rw [heq] at h
        exact h Relation.ReflTransGen.refl
    · intro a ha b hb heq
      obtain ⟨x, hx, rfl⟩ := List.mem_map.mp ha
      obtain ⟨y, hy, rfl⟩ := List.mem_map.mp hb
      have h := hbelow x hx
      rw [heq] at h
      exact hrest y hy h.to_reflTransGen

end apart

/-! ## Section 3: Outlines -/

/-! ### The roots -/

/-- Selecting tasks and putting them into order may change places. -/
theorem sort_filter (tree : Tree) (p : Task → Bool) :
    Task.sort (tree.tasks.filter p) = (Task.sort tree.tasks).filter p := by
  have hperm : (tree.tasks.filter p).Perm ((Task.sort tree.tasks).filter p) :=
    (Task.sort_perm tree.tasks).symm.filter p
  have hids : ∀ s ∈ tree.tasks.filter p, ∀ t ∈ tree.tasks.filter p, s.id = t.id → s = t := by
    intro s hs t ht hid
    exact eq_of_id_eq (List.mem_of_mem_filter hs) (List.mem_of_mem_filter ht) hid
  rw [sort_perm_eq hids hperm]
  exact Task.sort_eq_self ((Task.sort_pairwise tree.tasks).filter p)

theorem filterMap_get?_map_id {tasks : List Task} (h : tasks ⊆ tree.tasks) :
    (tasks.map Task.id).filterMap tree.get? = tasks := by
  rw [List.filterMap_map]
  have hget : ∀ t ∈ tasks, (tree.get? ∘ Task.id) t = some t := by
    intro t ht
    exact mem_tasks_iff.mp (h ht)
  rw [List.filterMap_congr hget, List.filterMap_some]

/-- Selected tasks of the tree as the first group of an outline. -/
theorem shownRoots_filter (tree : Tree) (p : Task → Bool) :
    tree.shownRoots ((tree.tasks.filter p).map Task.id) =
      openFirst ((Task.sort tree.tasks).filter p) := by
  unfold shownRoots
  rw [filterMap_get?_map_id (List.filter_subset_self _), sort_filter]

theorem mem_shownRoots_filter {p : Task → Bool} {t : Task} :
    t ∈ tree.shownRoots ((tree.tasks.filter p).map Task.id) ↔ t ∈ tree.tasks ∧ p t = true := by
  rw [shownRoots_filter, (openFirst_perm _).mem_iff, List.mem_filter, Task.mem_sort]

theorem shownRoots_sublist {p q : Task → Bool} (h : ∀ t, p t = true → q t = true) :
    (tree.shownRoots ((tree.tasks.filter p).map Task.id)).Sublist
      (tree.shownRoots ((tree.tasks.filter q).map Task.id)) := by
  have hsorted : ((Task.sort tree.tasks).filter p).Sublist ((Task.sort tree.tasks).filter q) :=
    List.monotone_filter_right _ h
  rw [shownRoots_filter, shownRoots_filter]
  exact (hsorted.filter _).append (hsorted.filter _)

/-- Selected tasks at the top stand apart as roots. -/
theorem standApart_shownRoots {p : Task → Bool} (h : ∀ t, p t = true → tree.isTop t = true) :
    tree.StandApart (tree.shownRoots ((tree.tasks.filter p).map Task.id)) := by
  have hselected : tree.StandApart ((Task.sort tree.tasks).filter p) := by
    apply standApart_of_isTop
    · have hnodup : ((Task.sort tree.tasks).map Task.id).Nodup :=
        ((Task.sort_perm tree.tasks).map Task.id).nodup_iff.mpr tree.tasks_nodup
      exact hnodup.sublist (List.filter_sublist.map Task.id)
    · intro t ht
      exact Task.mem_sort.mp (List.mem_of_mem_filter ht)
    · intro t ht
      exact h t (List.mem_filter.mp ht).2
  rw [shownRoots_filter]
  exact hselected.perm (openFirst_perm _).symm

/-! ### Working off the stack -/

theorem outlineFrom_cons (left : List Task) (task : Task) (depth : Nat)
    (stack : List (Task × Nat)) :
    tree.outlineFrom showCompleted left ((task, depth) :: stack) =
      if task ∈ left ∧ passesOver showCompleted task = false then
        line (task, depth) :: tree.outlineFrom showCompleted (left.erase task)
          ((tree.shownChildren task.id).map (·, depth + 1) ++ stack)
      else tree.outlineFrom showCompleted left stack := by
  rw [outlineFrom]
  by_cases hleft : task ∈ left
  · rw [dif_pos hleft]
    cases hpassed : passesOver showCompleted task with
    | true => exact (if_pos hpassed).trans (if_neg (by simp)).symm
    | false => exact (if_neg (Bool.eq_false_iff.mp hpassed)).trans (if_pos ⟨hleft, rfl⟩).symm
  · rw [dif_neg hleft, if_neg (fun h => hleft h.1)]

/-- Where nothing is met twice the stack is worked off group by group. -/
theorem outlineFrom_append_of_lists {group places stack : List (Task × Nat)} {left : List Task}
    (h : Lists tree showCompleted group places) (hnodup : (places.map Prod.fst).Nodup)
    (hleft : places.map Prod.fst ⊆ left) :
    tree.outlineFrom showCompleted left (group ++ stack) = places.map line ++
      tree.outlineFrom showCompleted (left.diff (places.map Prod.fst)) stack := by
  induction h generalizing left stack with
  | nil => rfl
  | hidden passed _ ih =>
    rw [List.cons_append, outlineFrom_cons, if_neg (by simp [passed])]
    exact ih hnodup hleft
  | @shown task depth group below places listed _ _ ihBelow ihRest =>
    rw [List.map_cons, List.map_append] at hnodup hleft
    obtain ⟨htask, hnodup⟩ := List.nodup_cons.mp hnodup
    obtain ⟨hbelow, hrest, hdisjoint⟩ := List.nodup_append.mp hnodup
    obtain ⟨hmem, hleft⟩ := List.cons_subset.mp hleft
    -- the tasks still to be listed are left when the task, and then those below it, are not
    have hleft' : ∀ t ∈ below.map Prod.fst ++ places.map Prod.fst, t ∈ left.erase task := by
      intro t ht
      have hne : t ≠ task := fun heq => htask (heq ▸ ht)
      exact (List.mem_erase_of_ne hne).mpr (hleft ht)
    have hleftBelow : below.map Prod.fst ⊆ left.erase task :=
      fun t ht => hleft' t (List.mem_append_left _ ht)
    have hleftRest : places.map Prod.fst ⊆ (left.erase task).diff (below.map Prod.fst) := by
      intro t ht
      refine List.mem_diff_of_mem (hleft' t (List.mem_append_right _ ht)) ?_
      intro hbelow
      exact hdisjoint t hbelow t ht rfl
    rw [List.cons_append, outlineFrom_cons, if_pos ⟨hmem, listed⟩, ihBelow hbelow hleftBelow,
      ihRest hrest hleftRest, List.map_cons, List.map_cons, List.map_append, List.map_append,
      List.diff_cons, List.diff_append, List.cons_append, List.append_assoc]

/-- **From roots that stand apart the outline lists group by group, and no task twice.** -/
theorem exists_lists_outline {roots : List TaskId} (h : tree.StandApart (tree.shownRoots roots))
    (showCompleted : Bool) :
    ∃ places, Lists tree showCompleted ((tree.shownRoots roots).map (·, 0)) places ∧
      (places.map Prod.fst).Nodup ∧ tree.outline roots showCompleted = places.map line := by
  have hapart : tree.StandApart (((tree.shownRoots roots).map (·, 0)).map Prod.fst) := by
    rw [map_fst_map_depth]
    exact h
  obtain ⟨places, hlists⟩ := hapart.exists_lists showCompleted
  have hnodup := hlists.nodup hapart
  have hleft : places.map Prod.fst ⊆ tree.tasks := by
    intro t ht
    obtain ⟨x, hx, rfl⟩ := List.mem_map.mp ht
    have hpresent := hapart.present
    exact (hlists.exists_within (fun y hy => hpresent y.1 (List.mem_map_of_mem hy)) hx).1
  refine ⟨places, hlists, hnodup, ?_⟩
  have houtline : tree.outlineFrom showCompleted tree.tasks
      ((tree.shownRoots roots).map (·, 0) ++ []) = _ :=
    outlineFrom_append_of_lists hlists hnodup hleft
  rw [List.append_nil, outlineFrom, List.append_nil] at houtline
  exact houtline

end Agenda.Tree
