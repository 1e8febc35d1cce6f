import Agenda.Page
import Agenda.Proofs.Tree.Listing

/-! # What list pages show

    A page lists some tasks at the top of the tree group by group with what is below them
    (`exists_lists_of_timed`).  The page of all tasks loses none and shows none twice, whatever
    the links of the tree: it leaves out those only that lie on a circle or below one
    (`visible_everything`).  Every toggle narrows a page: what is left stays in its order
    (`visible_toggles`). -/

namespace Agenda.Page

open Agenda.Tree (Lists line)

variable {tree : Tree} {page narrow wide : Page}

/-! ## Section 1: The tasks that a page starts from -/

/-- The page is shown at a moment, and so are the starts of all tasks if it is a page of the
    day: no whole day stands where a time of day is needed. -/
structure Timed (page : Page) (tree : Tree) : Prop where
  now    : ∃ m, page.now = .moment m
  starts : page.scope = .today → ∀ t ∈ tree.tasks, ∀ start ∈ t.startAt, ∃ m, start = .moment m

/-- Is the task one that the page starts from? -/
def startsFrom (page : Page) (tree : Tree) (task : Task) : Bool :=
  comesTrue (clock page.now >>= fun now => inScope page.scope now task) && page.admits tree task

theorem isTop_of_startsFrom {t : Task} (h : page.startsFrom tree t = true) :
    tree.isTop t = true := by
  unfold startsFrom admits at h
  simp only [Bool.and_eq_true] at h
  exact h.2.1.1

theorem reading_dropOffset (m : Moment) : m.dropOffset.reading = m.reading := by
  unfold Moment.reading Moment.dropOffset
  rfl

theorem inScope_today_of_none {t : Task} {now : Moment} (h : t.startAt = none) :
    inScope .today now t = .ok false := by
  unfold inScope
  rw [h]

theorem inScope_today_of_moment {t : Task} {now m : Moment} (h : t.startAt = some (.moment m)) :
    inScope .today now t = .ok (decide (m.reading ≤ now.reading)) := by
  unfold inScope
  rw [h]
  refine bind_eq_ok_iff.mpr ⟨m.dropOffset, rfl, ?_⟩
  rw [reading_dropOffset]
  rfl

/-- A page of the day starts from the tasks that have started. -/
theorem comesTrue_inScope_today {t : Task} {now : Moment} :
    comesTrue (inScope .today now t) = true ↔
      ∃ m, t.startAt = some (.moment m) ∧ m.reading ≤ now.reading := by
  constructor
  · intro h
    cases hstart : t.startAt with
    | none =>
      rw [inScope_today_of_none hstart] at h
      cases h
    | some start =>
      cases start with
      -- the two are not compared, and the question fails
      | day d =>
        unfold inScope at h
        rw [hstart] at h
        cases h
      | moment m =>
        rw [inScope_today_of_moment hstart, comesTrue_ok, decide_eq_true_iff] at h
        exact ⟨m, rfl, h⟩
  · intro h
    obtain ⟨m, hstart, hle⟩ := h
    rw [inScope_today_of_moment hstart, comesTrue_ok, decide_eq_true_iff]
    exact hle

theorem Timed.inScope_isOk (h : page.Timed tree) (now : Moment) {t : Task}
    (ht : t ∈ tree.tasks) : ∃ b, inScope page.scope now t = .ok b := by
  cases hscope : page.scope with
  | all => exact ⟨_, rfl⟩
  | inbox => exact ⟨_, rfl⟩
  | someday => exact ⟨_, rfl⟩
  | today =>
    cases hstart : t.startAt with
    | none => exact ⟨false, inScope_today_of_none hstart⟩
    | some start =>
      obtain ⟨m, rfl⟩ := h.starts hscope t ht start hstart
      exact ⟨_, inScope_today_of_moment hstart⟩

theorem startsFrom_of_clock {now : Moment} (h : clock page.now = .ok now) (t : Task) :
    page.startsFrom tree t =
      (comesTrue (inScope page.scope now t) && page.admits tree t) := by
  unfold startsFrom
  rw [h]
  rfl

theorem startsFrom_of_moment {m : Moment} (h : page.now = .moment m) (t : Task) :
    page.startsFrom tree t =
      (comesTrue (inScope page.scope m.dropOffset t) && page.admits tree t) := by
  apply startsFrom_of_clock
  rw [h]
  rfl

/-- A page has a start where the clock shows a time and every admitted task can be compared
    with it. -/
theorem roots_eq_ok_iff {ids : List TaskId} : page.roots tree = .ok ids ↔
    (∃ now, clock page.now = .ok now ∧
      ∀ t ∈ tree.tasks.filter (page.admits tree), ∃ b, inScope page.scope now t = .ok b) ∧
      ids = (tree.tasks.filter (page.startsFrom tree)).map Task.id := by
  have hstarts {now : Moment} (hclock : clock page.now = .ok now) :
      tree.tasks.filter (page.startsFrom tree) =
        (tree.tasks.filter (page.admits tree)).filter
          fun t => comesTrue (inScope page.scope now t) := by
    rw [List.filter_filter]
    apply List.filter_congr
    intro t _
    exact startsFrom_of_clock hclock t
  unfold roots
  rw [bind_eq_ok_iff]
  constructor
  · intro h
    obtain ⟨now, hclock, h⟩ := h
    obtain ⟨tasks, htasks, h⟩ := bind_eq_ok_iff.mp h
    obtain ⟨hall, rfl⟩ := filterM_eq_ok_iff.mp htasks
    refine ⟨⟨now, hclock, hall⟩, ?_⟩
    rw [hstarts hclock]
    exact (Except.ok.inj h).symm
  · intro h
    obtain ⟨⟨now, hclock, hall⟩, rfl⟩ := h
    rw [hstarts hclock]
    exact ⟨now, hclock, bind_eq_ok_iff.mpr ⟨_, filterM_eq_ok_iff.mpr ⟨hall, rfl⟩, rfl⟩⟩

theorem Timed.roots_eq (h : page.Timed tree) :
    page.roots tree = .ok ((tree.tasks.filter (page.startsFrom tree)).map Task.id) := by
  obtain ⟨m, hnow⟩ := h.now
  refine roots_eq_ok_iff.mpr ⟨⟨m.dropOffset, ?_, ?_⟩, rfl⟩
  · rw [hnow]
    rfl
  · intro t ht
    exact h.inScope_isOk m.dropOffset (List.mem_of_mem_filter ht)

/-- The tasks that a page starts from, as the first group of its outline. -/
def firstGroup (page : Page) (tree : Tree) : List (Task × Nat) :=
  (tree.shownRoots ((tree.tasks.filter (page.startsFrom tree)).map Task.id)).map (·, 0)

theorem exists_lists_of_roots
    (h : page.roots tree = .ok ((tree.tasks.filter (page.startsFrom tree)).map Task.id)) :
    ∃ places, Lists tree page.showCompleted (page.firstGroup tree) places ∧
      (places.map Prod.fst).Nodup ∧ page.outline tree = .ok (places.map line) := by
  have hapart : tree.StandApart
      (tree.shownRoots ((tree.tasks.filter (page.startsFrom tree)).map Task.id)) :=
    Tree.standApart_shownRoots fun _ => isTop_of_startsFrom
  obtain ⟨places, hlists, hnodup, houtline⟩ :=
    Tree.exists_lists_outline hapart page.showCompleted
  refine ⟨places, hlists, hnodup, ?_⟩
  unfold outline
  rw [h, ← houtline]
  rfl

theorem exists_lists_of_outline {nodes : List Tree.OutlineNode}
    (h : page.outline tree = .ok nodes) :
    ∃ places, Lists tree page.showCompleted (page.firstGroup tree) places ∧
      (places.map Prod.fst).Nodup ∧ nodes = places.map line := by
  obtain ⟨ids, hroots, -⟩ := bind_eq_ok_iff.mp h
  obtain ⟨-, rfl⟩ := roots_eq_ok_iff.mp hroots
  obtain ⟨places, hlists, hnodup, houtline⟩ := exists_lists_of_roots hroots
  rw [h] at houtline
  exact ⟨places, hlists, hnodup, Except.ok.inj houtline⟩

/-- **A page lists the tasks that it starts from group by group, and none twice.** -/
theorem exists_lists_of_timed (h : page.Timed tree) :
    ∃ places, Lists tree page.showCompleted (page.firstGroup tree) places ∧
      (places.map Prod.fst).Nodup ∧ page.outline tree = .ok (places.map line) :=
  exists_lists_of_roots h.roots_eq

theorem visible_eq_map (page : Page) (tree : Tree) :
    page.visible tree = (page.outline tree).map fun nodes =>
      if page.hideNonActionable then keepShown (page.showsNode tree) [] nodes
      else nodes.map Tree.OutlineNode.id := by
  unfold visible
  cases page.outline tree with
  | error e => rfl
  | ok nodes => cases page.hideNonActionable <;> rfl

theorem visible_of_outline {nodes : List Tree.OutlineNode} (h : page.outline tree = .ok nodes) :
    page.visible tree = .ok (if page.hideNonActionable then
      keepShown (page.showsNode tree) [] nodes else nodes.map Tree.OutlineNode.id) := by
  rw [visible_eq_map, h]
  rfl

/-- Of tasks of the tree none of which is listed twice no id is. -/
theorem ids_nodup {places : List (Task × Nat)} (hpresent : ∀ x ∈ places, x.1 ∈ tree.tasks)
    (hnodup : (places.map Prod.fst).Nodup) : (places.map (·.1.id)).Nodup := by
  have hids : ((places.map Prod.fst).map Task.id).Nodup := by
    refine List.Nodup.map_on ?_ hnodup
    intro s hs t ht hid
    obtain ⟨x, hx, rfl⟩ := List.mem_map.mp hs
    obtain ⟨y, hy, rfl⟩ := List.mem_map.mp ht
    exact Tree.eq_of_id_eq (hpresent x hx) (hpresent y hy) hid
  rwa [List.map_map] at hids

/-- A timed page can be shown. -/
theorem Timed.visible_isOk (h : page.Timed tree) : ∃ shown, page.visible tree = .ok shown := by
  obtain ⟨places, -, -, houtline⟩ := exists_lists_of_timed h
  exact ⟨_, visible_of_outline houtline⟩

theorem mem_firstGroup {place : Task × Nat} : place ∈ page.firstGroup tree ↔
    (place.1 ∈ tree.tasks ∧ page.startsFrom tree place.1 = true) ∧ place.2 = 0 := by
  unfold firstGroup
  rw [List.mem_map, ← Tree.mem_shownRoots_filter]
  constructor
  · intro h
    obtain ⟨t, ht, rfl⟩ := h
    exact ⟨ht, rfl⟩
  · intro h
    obtain ⟨ht, hdepth⟩ := h
    exact ⟨place.1, ht, Prod.ext rfl hdepth.symm⟩

/-! ## Section 2: The page of all tasks -/

/-- The page without any restriction. -/
def everything (now : Moment) : Page :=
  { showCompleted := true, includeArchived := true, now := .moment now }

theorem timed_everything (tree : Tree) (now : Moment) : (everything now).Timed tree where
  now := ⟨now, rfl⟩
  starts := by
    intro h
    cases h

theorem startsFrom_everything (now : Moment) (t : Task) :
    (everything now).startsFrom tree t = tree.isTop t := by
  rw [startsFrom_of_moment rfl]
  show (true && (tree.isTop t && true && true)) = tree.isTop t
  simp

section everything
variable {now : Moment} {places : List (Task × Nat)} {id p : TaskId}
  (h : Lists tree true ((everything now).firstGroup tree) places)
include h

theorem rooted_of_listed {place : Task × Nat} (hplace : place ∈ places) :
    tree.Rooted place.1.id := by
  obtain ⟨-, x, hx, hwithin⟩ :=
    h.exists_within (fun x hx => (mem_firstGroup.mp hx).1.1) hplace
  obtain ⟨⟨hmem, hstart⟩, -⟩ := mem_firstGroup.mp hx
  have htop : tree.Rooted x.1.id := by
    rw [startsFrom_everything] at hstart
    exact Tree.Rooted.top (Tree.mem_tasks_iff.mp hmem) hstart
  exact htop.within hwithin

/-- From the top every task is reached over the tasks on its way up. -/
theorem listed_of_rooted (hrooted : tree.Rooted id) : ∃ place ∈ places, place.1.id = id := by
  have hshown (t : Task) : Tree.passesOver true t = false := Bool.and_false _
  -- from the top down along the way up
  induction hrooted with
  | @top id t present ends =>
    have hmem := Tree.mem_of_get? present
    have hstart : (everything now).startsFrom tree t = true := by
      rw [startsFrom_everything]
      exact ends
    have hgroup : (t, 0) ∈ (everything now).firstGroup tree :=
      mem_firstGroup.mpr ⟨⟨hmem, hstart⟩, rfl⟩
    exact ⟨(t, 0), h.mem_of_group hgroup (hshown t), Tree.id_of_get? present⟩
  | @link id p parent _ ih =>
    obtain ⟨place, hplace, rfl⟩ := ih
    obtain ⟨t, hget, hparent⟩ := parent
    have hchild : t ∈ tree.shownChildren place.1.id :=
      Tree.mem_shownChildren.mpr ⟨Tree.mem_of_get? hget, hparent⟩
    exact ⟨_, h.mem_of_child hplace hchild (hshown t), Tree.id_of_get? hget⟩

/-- A task is listed after its parent, if the tree has it. -/
theorem parent_listed_before (hid : id ∈ places.map (·.1.id)) (hlink : tree.LinksTo id p)
    (hp : (tree.get? p).isSome = true) : [p, id].Sublist (places.map (·.1.id)) := by
  obtain ⟨place, hplace, rfl⟩ := List.mem_map.mp hid
  rcases h.parent_first hplace with hgroup | ⟨x, hx, -, hbefore⟩
  · -- a task of the first group is at the top, so its parent is missing
    obtain ⟨⟨hmem, hstart⟩, -⟩ := mem_firstGroup.mp hgroup
    have hparent := (Tree.linksTo_of_get? (Tree.mem_tasks_iff.mp hmem)).mp hlink
    rw [startsFrom_everything, Tree.isTop_iff_of_parent hparent] at hstart
    rw [hstart] at hp
    cases hp
  · obtain rfl := hlink.unique (Tree.linksTo_of_mem_shownChildren hx)
    exact hbefore.map fun place => place.1.id

end everything

/-- **The page without any restriction shows every task once whose way up comes to an end, each
    after its parent, and none that lies on a circle or below one.** -/
theorem visible_everything (tree : Tree) (now : Moment) :
    ∃ ids, (everything now).visible tree = .ok ids ∧ ids.Nodup ∧
      (∀ id, id ∈ ids ↔ tree.Rooted id) ∧
      (∀ id p, id ∈ ids → tree.LinksTo id p → (tree.get? p).isSome = true →
        [p, id].Sublist ids) ∧
      ∀ id q, tree.Within id q → tree.Below q q → id ∉ ids := by
  obtain ⟨places, hlists, hnodup, houtline⟩ := exists_lists_of_timed (timed_everything tree now)
  have hvisible : (everything now).visible tree = .ok (places.map (·.1.id)) := by
    rw [visible_of_outline houtline, List.map_map]
    rfl
  have hmem : ∀ id, id ∈ places.map (·.1.id) ↔ tree.Rooted id := by
    intro id
    constructor
    · intro hid
      obtain ⟨place, hplace, rfl⟩ := List.mem_map.mp hid
      exact rooted_of_listed hlists hplace
    · intro hrooted
      exact List.mem_map.mpr (listed_of_rooted hlists hrooted)
  have hpresent : ∀ x ∈ places, x.1 ∈ tree.tasks := by
    intro x hx
    exact (hlists.exists_within (fun y hy => (mem_firstGroup.mp hy).1.1) hx).1
  refine ⟨places.map (·.1.id), hvisible, ids_nodup hpresent hnodup, hmem, ?_, ?_⟩
  · intro id p hid hlink hp
    exact parent_listed_before hlists hid hlink hp
  · intro id q hwithin hcircle hid
    -- a task above its own circle has no way to the top
    have hrooted := (hmem id).mp hid
    exact (hrooted.of_within hwithin hcircle.exists_get?).not_below_self hcircle

/-! ## Section 3: Toggles -/

/-- Both pages have a list, and that of the narrow page is part of the other, in its order. -/
def Narrows (narrow wide : Page) (tree : Tree) : Prop :=
  ∃ part whole, narrow.visible tree = .ok part ∧ wide.visible tree = .ok whole ∧
    part.Sublist whole

section kept
variable {shown shown' : Tree.OutlineNode → Bool} {kept kept' : List TaskId}
  {nodes nodes' : List Tree.OutlineNode}

theorem keepShown_cons (shown : Tree.OutlineNode → Bool) (kept : List TaskId)
    (node : Tree.OutlineNode) (rest : List Tree.OutlineNode) :
    keepShown shown kept (node :: rest) =
      if (node.depth = 0 ∨ ∃ p ∈ node.parent, p ∈ kept) ∧ shown node = true then
        node.id :: keepShown shown (node.id :: kept) rest
      else keepShown shown kept rest := by
  rw [keepShown]
  cases node.parent <;> simp

theorem keepShown_sublist (shown : Tree.OutlineNode → Bool) (kept : List TaskId)
    (nodes : List Tree.OutlineNode) :
    (keepShown shown kept nodes).Sublist (nodes.map Tree.OutlineNode.id) := by
  induction nodes generalizing kept with
  | nil => exact List.Sublist.slnil
  | cons node rest ih =>
    rw [keepShown_cons, List.map_cons]
    split
    · exact (ih _).cons_cons _
    · exact (ih _).cons _

/-- Of fewer lines, with a stricter test, part of the ids is kept. -/
theorem keepShown_mono (hnodes : nodes'.Sublist nodes)
    (hshown : ∀ node, shown' node = true → shown node = true) (hkept : kept' ⊆ kept) :
    (keepShown shown' kept' nodes').Sublist (keepShown shown kept nodes) := by
  induction hnodes generalizing kept kept' with
  | slnil => exact List.Sublist.slnil
  | @cons _ _ node _ ih =>
    rw [keepShown_cons shown]
    split
    · -- to keep one more line in the wide list lets more of its children pass
      have hkept' : kept' ⊆ node.id :: kept := List.subset_cons_of_subset _ hkept
      exact (ih hkept').cons _
    · exact ih hkept
  | @cons_cons _ _ node _ ih =>
    rw [keepShown_cons shown, keepShown_cons shown']
    have hkept' : kept' ⊆ node.id :: kept := List.subset_cons_of_subset _ hkept
    by_cases hnode : (node.depth = 0 ∨ ∃ p ∈ node.parent, p ∈ kept') ∧ shown' node = true
    · -- the parent that the narrow list has kept the wide one has kept too
      have hwide : (node.depth = 0 ∨ ∃ p ∈ node.parent, p ∈ kept) ∧ shown node = true := by
        refine ⟨hnode.1.imp_right ?_, hshown node hnode.2⟩
        intro hparent
        obtain ⟨p, hp, hmem⟩ := hparent
        exact ⟨p, hp, hkept hmem⟩
      rw [if_pos hnode, if_pos hwide]
      exact (ih (List.cons_subset_cons _ hkept)).cons_cons _
    · rw [if_neg hnode]
      split
      · exact (ih hkept').cons _
      · exact ih hkept

end kept

/-- A page that starts from fewer tasks, and leaves out more of what is below them, narrows
    the other. -/
theorem narrows_of_forall (hnarrow : narrow.Timed tree) (hwide : wide.Timed tree)
    (hstarts : ∀ t, narrow.startsFrom tree t = true → wide.startsFrom tree t = true)
    (hcompleted : narrow.showCompleted = true → wide.showCompleted = true)
    (hhide : wide.hideNonActionable = true → narrow.hideNonActionable = true) :
    narrow.Narrows wide tree := by
  obtain ⟨places', hlists', -, houtline'⟩ := exists_lists_of_timed hnarrow
  obtain ⟨places, hlists, -, houtline⟩ := exists_lists_of_timed hwide
  have hgroup : (narrow.firstGroup tree).Sublist (wide.firstGroup tree) :=
    (Tree.shownRoots_sublist hstarts).map _
  have hnodes : (places'.map line).Sublist (places.map line) :=
    (hlists.sublist hlists' hgroup hcompleted).map _
  have hshown : ∀ node, narrow.showsNode tree node = true → wide.showsNode tree node = true := by
    intro node hnode
    unfold showsNode at hnode ⊢
    rw [Bool.or_eq_true, Bool.and_eq_true] at hnode ⊢
    exact hnode.imp_right fun h => ⟨hcompleted h.1, h.2⟩
  refine ⟨_, _, visible_of_outline houtline', visible_of_outline houtline, ?_⟩
  -- the narrow page hides whenever the wide one does, and to hide leaves lines out
  by_cases hwideHides : wide.hideNonActionable = true
  · rw [if_pos hwideHides, if_pos (hhide hwideHides)]
    exact keepShown_mono hnodes hshown (List.Subset.refl _)
  · rw [if_neg hwideHides]
    split
    · exact (keepShown_sublist _ _ _).trans (hnodes.map _)
    · exact hnodes.map _

/-! ### Each toggle -/

theorem narrows_hide (h : page.Timed tree) :
    Narrows { page with hideNonActionable := true } { page with hideNonActionable := false }
      tree := by
  refine narrows_of_forall ⟨h.now, h.starts⟩ ⟨h.now, h.starts⟩ ?_ ?_ ?_
  · intro t ht
    exact ht
  · exact id
  · intro _
    rfl

theorem narrows_completed (h : page.Timed tree) :
    Narrows { page with showCompleted := false } { page with showCompleted := true } tree := by
  refine narrows_of_forall ⟨h.now, h.starts⟩ ⟨h.now, h.starts⟩ ?_ ?_ ?_
  · intro t ht
    exact ht
  · intro _
    rfl
  · exact id

/-- A restriction of the tasks at the top, by archive or by project, narrows a page. -/
theorem narrows_of_admits (hnarrow : narrow.Timed tree) (hwide : wide.Timed tree)
    (hnow : narrow.now = wide.now) (hscope : narrow.scope = wide.scope)
    (hcompleted : narrow.showCompleted = wide.showCompleted)
    (hhide : narrow.hideNonActionable = wide.hideNonActionable)
    (hadmits : ∀ t, narrow.admits tree t = true → wide.admits tree t = true) :
    narrow.Narrows wide tree := by
  refine narrows_of_forall hnarrow hwide ?_ hcompleted.le hhide.ge
  intro t ht
  unfold startsFrom at ht ⊢
  rw [Bool.and_eq_true, hnow, hscope] at ht
  rw [Bool.and_eq_true]
  exact ⟨ht.1, hadmits t ht.2⟩

theorem narrows_archived (h : page.Timed tree) :
    Narrows { page with includeArchived := false } { page with includeArchived := true }
      tree := by
  refine narrows_of_admits ⟨h.now, h.starts⟩ ⟨h.now, h.starts⟩ rfl rfl rfl rfl ?_
  intro t ht
  unfold admits at ht ⊢
  rw [Bool.and_eq_true] at ht ⊢
  exact ⟨ht.1, rfl⟩

theorem narrows_project (h : page.Timed tree) (project : ProjectId) :
    Narrows { page with project := some project } { page with project := none } tree := by
  refine narrows_of_admits ⟨h.now, h.starts⟩ ⟨h.now, h.starts⟩ rfl rfl rfl rfl ?_
  intro t ht
  unfold admits at ht ⊢
  simp only [Bool.and_eq_true] at ht ⊢
  exact ⟨⟨ht.1.1, rfl⟩, ht.2⟩

theorem narrows_scope {scope : PageScope} (h : ({ page with scope := scope } : Page).Timed tree) :
    Narrows { page with scope := scope } { page with scope := .all } tree := by
  obtain ⟨m, hnow⟩ := h.now
  have hall : ({ page with scope := .all } : Page).Timed tree := by
    refine ⟨⟨m, hnow⟩, ?_⟩
    intro hscope
    cases hscope
  refine narrows_of_forall h hall ?_ id id
  intro t ht
  have hnow' : ({ page with scope := .all } : Page).now = .moment m := hnow
  rw [startsFrom_of_moment hnow, Bool.and_eq_true] at ht
  rw [startsFrom_of_moment hnow', Bool.and_eq_true]
  exact ⟨rfl, ht.2⟩

/-- The tasks that had started at a time have started at every later one. -/
theorem narrows_earlier {earlier later : Moment}
    (h : ({ page with scope := .today } : Page).Timed tree)
    (hle : earlier.reading ≤ later.reading) :
    Narrows { page with scope := .today, now := .moment earlier }
      { page with scope := .today, now := .moment later } tree := by
  refine narrows_of_forall ⟨⟨earlier, rfl⟩, h.starts⟩ ⟨⟨later, rfl⟩, h.starts⟩ ?_ id id
  intro t ht
  rw [startsFrom_of_moment rfl, Bool.and_eq_true] at ht ⊢
  obtain ⟨m, hstart, hstarted⟩ := comesTrue_inScope_today.mp ht.1
  have hlater : m.reading ≤ later.dropOffset.reading := hstarted.trans hle
  exact ⟨comesTrue_inScope_today.mpr ⟨m, hstart, hlater⟩, ht.2⟩

/-- **Every toggle narrows a page**: to hide what cannot be worked on, not to show completed
    tasks, not to include archived projects, to keep to a project or to a scope.  A page of the
    day at an earlier time narrows the one at a later time, by what the clocks show. -/
theorem visible_toggles (h : page.Timed tree) :
    Narrows { page with hideNonActionable := true } { page with hideNonActionable := false }
        tree ∧
      Narrows { page with showCompleted := false } { page with showCompleted := true } tree ∧
      Narrows { page with includeArchived := false } { page with includeArchived := true }
        tree ∧
      (∀ project,
        Narrows { page with project := some project } { page with project := none } tree) ∧
      (∀ scope, ({ page with scope := scope } : Page).Timed tree →
        Narrows { page with scope := scope } { page with scope := .all } tree) ∧
      ∀ earlier later : Moment, earlier.reading ≤ later.reading →
        ({ page with scope := .today } : Page).Timed tree →
          Narrows { page with scope := .today, now := .moment earlier }
            { page with scope := .today, now := .moment later } tree := by
  refine ⟨narrows_hide h, narrows_completed h, narrows_archived h, narrows_project h, ?_, ?_⟩
  · intro scope htimed
    exact narrows_scope htimed
  · intro earlier later hle htimed
    exact narrows_earlier htimed hle

/-- Two tasks that start at the first and the last moment of a day, a completed child of one
    of them, and two that are each other's parents. -/
def twoStarts : Tree where
  tasks :=
    [{ id := 1, startAt := some (.moment (Moment.midnight Day.first)) },
     { id := 2, startAt := some (.moment { day := Day.first, micros := 86399999999 }) },
     { id := 3, parent := some 1, completedAt := some (.moment (Moment.midnight Day.first)) },
     { id := 4, parent := some 5 }, { id := 5, parent := some 4 }]
  projects := []
  tasks_nodup := by decide
  projects_nodup := List.nodup_nil

/-- The page of a day at its first moment. -/
def dayPage : Page := { scope := .today, now := .moment (Moment.midnight Day.first) }

theorem timed_dayPage : dayPage.Timed twoStarts where
  now := ⟨_, rfl⟩
  starts := by
    intro _ t ht start hstart
    unfold twoStarts at ht
    simp only [List.mem_cons, List.not_mem_nil, or_false] at ht
    rcases ht with rfl | rfl | rfl | rfl | rfl
    · exact ⟨_, (Option.some.inj hstart).symm⟩
    · exact ⟨_, (Option.some.inj hstart).symm⟩
    all_goals cases hstart

theorem visible_toggles_twoStarts : dayPage.Timed twoStarts ∧
    Narrows { dayPage with showCompleted := false } { dayPage with showCompleted := true }
      twoStarts ∧
    Narrows { dayPage with scope := .someday } { dayPage with scope := .all } twoStarts ∧
    ∀ later : Moment, (Moment.midnight Day.first).reading ≤ later.reading →
      Narrows dayPage { dayPage with now := .moment later } twoStarts := by
  obtain ⟨-, hcompleted, -, -, hscope, hday⟩ := visible_toggles timed_dayPage
  have hsomeday : ({ dayPage with scope := .someday } : Page).Timed twoStarts := by
    refine ⟨⟨_, rfl⟩, ?_⟩
    intro h
    cases h
  refine ⟨timed_dayPage, hcompleted, hscope .someday hsomeday, ?_⟩
  intro later hle
  exact hday _ later hle timed_dayPage

end Agenda.Page
