import Agenda.Proofs.Page

/-! # Pages that hide what cannot be worked on

    A page that hides what cannot be worked on keeps a line only if it keeps the line of the
    parent.  So it shows a task exactly if every task on the path from the top of the page down
    to it can be worked on, or is completed and shown as such (`visible_hide`).  Under a parent
    with a limit the open children that it shows are the first eligible ones. -/

namespace Agenda

/-! ## Section 1: Paths -/

namespace Tree

variable {tree : Tree} {t p : Task} {id q : TaskId}

/-- The task with this id and the tasks above it. -/
def path (tree : Tree) (id : TaskId) : List Task := (id :: tree.ancestors id).filterMap tree.get?

theorem mem_path_iff : t ∈ tree.path id ↔ t ∈ tree.tasks ∧ tree.Within id t.id := by
  unfold path
  rw [List.mem_filterMap]
  have hids : ∀ q, q ∈ id :: tree.ancestors id ↔ tree.Within id q := by
    intro q
    rw [List.mem_cons, mem_ancestors_iff, within_iff]
    by_cases hq : q = id
    · simp [hq]
    · simp [hq, Ne.symm hq]
  constructor
  · intro h
    obtain ⟨q, hq, hget⟩ := h
    obtain rfl := id_of_get? hget
    exact ⟨mem_of_get? hget, (hids _).mp hq⟩
  · intro h
    exact ⟨t.id, (hids _).mpr h.2, mem_tasks_iff.mp h.1⟩

/-- Is this the id of a child of `p` that is not completed? -/
def isOpenChild (tree : Tree) (p id : TaskId) : Bool :=
  (tree.get? id).any fun t => t.parent == some p && !t.isCompleted

/-- The children of `p` that are not completed, in manual order. -/
def openChildren (tree : Tree) (p : TaskId) : List Task :=
  (tree.children (some p)).filter (!·.isCompleted)

theorem isOpenChild_iff {p : TaskId} :
    tree.isOpenChild p id = true ↔ id ∈ (tree.openChildren p).map Task.id := by
  unfold isOpenChild openChildren
  rw [Option.any_eq_true, List.mem_map]
  constructor
  · intro h
    obtain ⟨t, hget, h⟩ := h
    rw [Bool.and_eq_true, beq_iff_eq] at h
    have hchild := mem_children.mpr ⟨mem_of_get? hget, h.1⟩
    exact ⟨t, List.mem_filter.mpr ⟨hchild, h.2⟩, id_of_get? hget⟩
  · intro h
    obtain ⟨t, ht, rfl⟩ := h
    obtain ⟨hchild, hopen⟩ := List.mem_filter.mp ht
    obtain ⟨ht, hparent⟩ := mem_children.mp hchild
    exact ⟨t, mem_tasks_iff.mp ht, by simp [hparent, hopen]⟩

end Tree

namespace Page

open Agenda.Tree (Lists line)

variable {tree : Tree} {page : Page} {t p : Task} {id : TaskId}

/-- Can the task be worked on, or is it completed and the page shows completed tasks? -/
def showsTask (page : Page) (tree : Tree) (t : Task) : Bool :=
  tree.isActionableId t.id || (page.showCompleted && t.isCompleted)

/-- Does this hold of every task on the path from the top down to the task with this id? -/
def showsPath (page : Page) (tree : Tree) (id : TaskId) : Bool :=
  (tree.path id).all (page.showsTask tree)

theorem showsPath_iff : page.showsPath tree id = true ↔
    ∀ t ∈ tree.tasks, tree.Within id t.id → page.showsTask tree t = true := by
  unfold showsPath
  simp only [List.all_eq_true, Tree.mem_path_iff, and_imp]

/-- The path to a task at the top is the task. -/
theorem showsPath_of_isTop (ht : t ∈ tree.tasks) (htop : tree.isTop t = true) :
    page.showsPath tree t.id = page.showsTask tree t := by
  rw [Bool.eq_iff_iff, showsPath_iff]
  constructor
  · intro h
    exact h t ht Relation.ReflTransGen.refl
  · intro h s hs hwithin
    rcases Tree.within_iff.mp hwithin with hid | hbelow
    · rwa [← Tree.eq_of_id_eq ht hs hid]
    · have hget := Tree.mem_tasks_iff.mp ht
      exact absurd hbelow (Tree.not_below_of_isTop hget htop ⟨s, Tree.mem_tasks_iff.mp hs⟩)

/-- The path to a child is the path to its parent and the child. -/
theorem showsPath_of_parent (ht : t ∈ tree.tasks) (hp : t.parent = some p.id) :
    page.showsPath tree t.id = (page.showsTask tree t && page.showsPath tree p.id) := by
  rw [Bool.eq_iff_iff, Bool.and_eq_true, showsPath_iff, showsPath_iff]
  have hlink : tree.LinksTo t.id p.id := ⟨t, Tree.mem_tasks_iff.mp ht, hp⟩
  constructor
  · intro h
    refine ⟨h t ht Relation.ReflTransGen.refl, ?_⟩
    intro s hs hwithin
    exact h s hs (Relation.ReflTransGen.head hlink hwithin)
  · intro h s hs hwithin
    rcases Tree.within_iff.mp hwithin with hid | hbelow
    · rw [← Tree.eq_of_id_eq ht hs hid]
      exact h.1
    · obtain ⟨q, hq, hup⟩ := Tree.below_iff.mp hbelow
      obtain rfl := hlink.unique hq
      exact h.2 s hs hup

/-! ## Section 2: Lines that are kept with their parents -/

section kept
variable {shown : Tree.OutlineNode → Bool} {q : TaskId → Bool} {nodes : List Tree.OutlineNode}
  {front kept : List TaskId} {node : Tree.OutlineNode}

/-- `q` holds of the line if the line is shown and, unless it is at the top, `q` holds of its
    parent, which is among the ids in `front`. -/
def Inherits (shown : Tree.OutlineNode → Bool) (q : TaskId → Bool) (front : List TaskId)
    (node : Tree.OutlineNode) : Prop :=
  node.depth = 0 ∧ q node.id = shown node ∨
    node.depth ≠ 0 ∧ ∃ p, node.parent = some p ∧ p ∈ front ∧ q node.id = (shown node && q p)

/-- Where those of the ids in `front` are kept of which `q` holds, the line is if it does. -/
theorem Inherits.kept_iff (h : Inherits shown q front node)
    (hkept : ∀ id, id ∈ kept ↔ id ∈ front ∧ q id = true) :
    (node.depth = 0 ∨ ∃ p ∈ node.parent, p ∈ kept) ∧ shown node = true ↔ q node.id = true := by
  rcases h with ⟨hdepth, hq⟩ | ⟨hdepth, p, hparent, hp, hq⟩
  · simp [hdepth, hq]
  · simp [hdepth, hparent, hkept, hp, hq, and_comm]

/-- What each line inherits from lines before it decides which lines are kept.  `front` are the
    ids listed so far. -/
theorem keepShown_eq_filter (hkept : ∀ id, id ∈ kept ↔ id ∈ front ∧ q id = true)
    (hnodes : ∀ before node after, nodes = before ++ node :: after →
      Inherits shown q (front ++ before.map Tree.OutlineNode.id) node) :
    keepShown shown kept nodes = (nodes.map Tree.OutlineNode.id).filter q := by
  induction nodes generalizing front kept with
  | nil => rfl
  | cons node rest ih =>
    have hnode : Inherits shown q front node := by
      have h := hnodes [] node rest rfl
      rwa [List.map_nil, List.append_nil] at h
    have hrest : ∀ before next after, rest = before ++ next :: after →
        Inherits shown q ((front ++ [node.id]) ++ before.map Tree.OutlineNode.id) next := by
      intro before next after hsplit
      have h := hnodes (node :: before) next after (congrArg (node :: ·) hsplit)
      rwa [List.map_cons, List.append_cons] at h
    have hfront : ∀ id, id ∈ front ++ [node.id] ∧ q id = true ↔
        id ∈ kept ∨ id = node.id ∧ q node.id = true := by
      intro id
      rw [hkept, List.mem_append, List.mem_singleton, or_and_right]
      exact or_congr_right (and_congr_right fun hid => by rw [hid])
    rw [keepShown_cons, List.map_cons]
    -- the ids kept stay those of the ids listed so far of which `q` holds
    by_cases hq : q node.id = true
    · have hkept' : ∀ id, id ∈ node.id :: kept ↔ id ∈ front ++ [node.id] ∧ q id = true := by
        intro id
        rw [hfront, List.mem_cons, or_comm, and_iff_left hq]
      rw [if_pos ((hnode.kept_iff hkept).mpr hq), List.filter_cons_of_pos hq, ih hkept' hrest]
    · have hkept' : ∀ id, id ∈ kept ↔ id ∈ front ++ [node.id] ∧ q id = true := by
        intro id
        rw [hfront]
        exact (or_iff_left fun h => hq h.2).symm
      rw [if_neg (mt (hnode.kept_iff hkept).mp hq), List.filter_cons_of_neg hq, ih hkept' hrest]

end kept

/-! ## Section 3: What is listed -/

section listed
variable {places front back : List (Task × Nat)} {place : Task × Nat}
  (h : Lists tree page.showCompleted (page.firstGroup tree) places)
include h

theorem mem_tasks_of_listed (hplace : place ∈ places) : place.1 ∈ tree.tasks :=
  (h.exists_within (fun _ hx => (mem_firstGroup.mp hx).1.1) hplace).1

/-- What is listed stands at the top, or its parent is listed before it. -/
theorem listed_cases (hnodup : (places.map Prod.fst).Nodup)
    (hsplit : places = front ++ place :: back) :
    place.2 = 0 ∧ tree.isTop place.1 = true ∨
      place.2 ≠ 0 ∧ ∃ x ∈ front, place.1.parent = some x.1.id := by
  have hplace : place ∈ places := by
    rw [hsplit]
    exact List.mem_append_right _ List.mem_cons_self
  rcases h.parent_first hplace with hgroup | ⟨x, hx, hdepth, hbefore⟩
  · obtain ⟨⟨-, hstart⟩, hdepth⟩ := mem_firstGroup.mp hgroup
    exact Or.inl ⟨hdepth, isTop_of_startsFrom hstart⟩
  · have hfront : x ∈ front := by
      rw [hsplit] at hbefore hnodup
      exact mem_of_pair_sublist (List.Nodup.of_map _ hnodup) hbefore
    exact Or.inr ⟨by omega, x, hfront, (Tree.mem_shownChildren.mp hx).2⟩

/-- A listed task is shown with its path if it is and, unless it is at the top, its parent is
    shown with its path. -/
theorem inherits_listed (hnodup : (places.map Prod.fst).Nodup)
    (hsplit : places = front ++ place :: back) :
    Inherits (page.showsNode tree) (page.showsPath tree) (front.map (·.1.id)) (line place) := by
  have hplace : place.1 ∈ tree.tasks := by
    apply mem_tasks_of_listed h
    rw [hsplit]
    exact List.mem_append_right _ List.mem_cons_self
  rcases listed_cases h hnodup hsplit with ⟨hdepth, htop⟩ | ⟨hdepth, x, hx, hparent⟩
  · exact Or.inl ⟨hdepth, showsPath_of_isTop hplace htop⟩
  · exact Or.inr ⟨hdepth, x.1.id, hparent, List.mem_map_of_mem hx,
      showsPath_of_parent hplace hparent⟩

theorem keepShown_listed (hnodup : (places.map Prod.fst).Nodup) :
    keepShown (page.showsNode tree) [] (places.map line) =
      (places.map (·.1.id)).filter (page.showsPath tree) := by
  have hnone : ∀ id, id ∈ ([] : List TaskId) ↔ id ∈ ([] : List TaskId) ∧
      page.showsPath tree id = true := by
    intro id
    simp
  have hlines : ∀ before node after, places.map line = before ++ node :: after →
      Inherits (page.showsNode tree) (page.showsPath tree)
        ([] ++ before.map Tree.OutlineNode.id) node := by
    intro before node after hsplit
    -- the lines before one are those of the tasks before its task
    obtain ⟨front, rest, hplaces, rfl, hrest⟩ := List.map_eq_append_iff.mp hsplit
    obtain ⟨place, back, rfl, rfl, -⟩ := List.map_eq_cons_iff.mp hrest
    rw [List.nil_append, List.map_map]
    exact inherits_listed h hnodup hplaces
  rw [keepShown_eq_filter hnone hlines, List.map_map]
  rfl

/-- With a task its open children are listed in manual order. -/
theorem openChildren_sublist (hplace : place ∈ places) :
    ((tree.openChildren place.1.id).map Task.id).Sublist (places.map (·.1.id)) := by
  have hopen : ((tree.openChildren place.1.id).map (·, place.2 + 1)).Sublist
      (((tree.shownChildren place.1.id).map (·, place.2 + 1)).filter
        fun x => !Tree.passesOver page.showCompleted x.1) := by
    -- of the children the open ones come first, and none of them is left out
    have hself : ((tree.openChildren place.1.id).map (·, place.2 + 1)).filter
        (fun x => !Tree.passesOver page.showCompleted x.1) =
          (tree.openChildren place.1.id).map (·, place.2 + 1) := by
      rw [List.filter_eq_self]
      intro x hx
      obtain ⟨t, ht, rfl⟩ := List.mem_map.mp hx
      have hopen := (List.mem_filter.mp ht).2
      simp only [Bool.not_eq_true'] at hopen
      simp [Tree.passesOver, hopen]
    rw [← hself]
    have hfirst : (tree.openChildren place.1.id).Sublist (tree.shownChildren place.1.id) :=
      List.sublist_append_left _ _
    exact (hfirst.map _).filter _
  have hlisted := (hopen.trans (h.children_sublist hplace)).map (·.1.id)
  rwa [List.map_map] at hlisted

/-- Of the open children of a listed task that can be worked on, and all of whose path is
    shown, the page shows the first eligible ones, as many as the limit allows. -/
theorem filter_isOpenChild_listed (hnodup : (places.map Prod.fst).Nodup)
    (hlisted : p.id ∈ places.map (·.1.id)) (hpath : page.showsPath tree p.id = true)
    (hable : tree.Actionable p) (hlimit : 0 < p.sequentialLimit) :
    ((places.map (·.1.id)).filter (page.showsPath tree)).filter (tree.isOpenChild p.id) =
      ((tree.eligibleChildren p).take p.sequentialLimit).map Task.id := by
  obtain ⟨place, hplace, hid⟩ := List.mem_map.mp hlisted
  have hopen : (places.map (·.1.id)).filter (tree.isOpenChild p.id) =
      (tree.openChildren p.id).map Task.id := by
    have hids := ids_nodup (fun _ hx => mem_tasks_of_listed h hx) hnodup
    have hsublist := openChildren_sublist h hplace
    rw [hid] at hsublist
    exact filter_mem_of_sublist hids hsublist fun _ => Tree.isOpenChild_iff
  -- an open child is shown if it can be worked on
  have hshown : ∀ t ∈ tree.openChildren p.id,
      page.showsPath tree t.id = tree.isActionableId t.id := by
    intro t ht
    obtain ⟨hchild, hopen⟩ := List.mem_filter.mp ht
    obtain ⟨ht, hparent⟩ := Tree.mem_children.mp hchild
    have hcompleted : t.isCompleted = false := by simpa using hopen
    rw [showsPath_of_parent ht hparent, hpath, Bool.and_true]
    unfold showsTask
    rw [hcompleted, Bool.and_false, Bool.or_false]
  -- and what can be worked on is open
  have hchildren : (tree.openChildren p.id).filter (fun t => tree.isActionableId t.id) =
      (tree.children (some p.id)).filter (fun t => tree.isActionableId t.id) := by
    unfold Tree.openChildren
    rw [List.filter_filter]
    apply List.filter_congr
    intro t ht
    rw [Bool.and_eq_left_iff_imp]
    intro hverdict
    have heligible := ((Tree.isActionableId_iff (Tree.mem_children.mp ht).1).mp hverdict).eligible
    unfold Task.isEligible at heligible
    exact (Bool.and_eq_true_iff.mp heligible).1
  calc ((places.map (·.1.id)).filter (page.showsPath tree)).filter (tree.isOpenChild p.id)
      = ((places.map (·.1.id)).filter (tree.isOpenChild p.id)).filter (page.showsPath tree) := by
        rw [List.filter_filter, List.filter_filter]
        congr 1
        funext id
        exact Bool.and_comm _ _
    _ = ((tree.openChildren p.id).filter fun t => page.showsPath tree t.id).map Task.id := by
        rw [hopen, List.filter_map]
        rfl
    _ = ((tree.openChildren p.id).filter fun t => tree.isActionableId t.id).map Task.id := by
        rw [List.filter_congr hshown]
    _ = ((tree.eligibleChildren p).take p.sequentialLimit).map Task.id := by
        rw [hchildren, Tree.filter_isActionableId_children hable hlimit]

end listed

/-! ## Section 4: The toggle -/

/-- What a page that lists these tasks shows with the toggle on and off. -/
theorem visible_of_lists {places : List (Task × Nat)}
    (h : Lists tree page.showCompleted (page.firstGroup tree) places)
    (hnodup : (places.map Prod.fst).Nodup) (houtline : page.outline tree = .ok (places.map line)) :
    ({ page with hideNonActionable := true } : Page).visible tree =
        .ok ((places.map (·.1.id)).filter (page.showsPath tree)) ∧
      ({ page with hideNonActionable := false } : Page).visible tree =
        .ok (places.map (·.1.id)) := by
  constructor
  · rw [← keepShown_listed h hnodup]
    exact visible_of_outline houtline
  · have hids : (places.map line).map Tree.OutlineNode.id = places.map (·.1.id) := by
      rw [List.map_map]
      rfl
    rw [← hids]
    exact visible_of_outline houtline

/-- **Of what a page shows with the toggle off it shows with the toggle on exactly the tasks on
    whose path from the top every task can be worked on, or is completed and shown as such.**
    So it shows no task whose parent it hides, and of the open children of a task with a limit
    that can be worked on the first eligible ones, in manual order. -/
theorem visible_hide (page : Page) (tree : Tree) :
    ({ page with hideNonActionable := true } : Page).visible tree =
        (({ page with hideNonActionable := false } : Page).visible tree).map
          (List.filter (page.showsPath tree)) ∧
      ∀ shown whole, ({ page with hideNonActionable := true } : Page).visible tree = .ok shown →
        ({ page with hideNonActionable := false } : Page).visible tree = .ok whole →
          (∀ id p, id ∈ shown → tree.LinksTo id p → p ∈ whole → p ∈ shown) ∧
          ∀ p ∈ tree.tasks, p.id ∈ shown → tree.isActionableId p.id = true →
            0 < p.sequentialLimit → shown.filter (tree.isOpenChild p.id) =
              ((tree.eligibleChildren p).take p.sequentialLimit).map Task.id := by
  cases houtline : page.outline tree with
  | error e =>
    -- then there is no page, with the toggle on or off
    have hvisible (hide : Bool) :
        ({ page with hideNonActionable := hide } : Page).visible tree = .error e := by
      rw [visible_eq_map]
      have hnone : ({ page with hideNonActionable := hide } : Page).outline tree = .error e :=
        houtline
      rw [hnone]
      rfl
    rw [hvisible, hvisible]
    refine ⟨rfl, ?_⟩
    intro shown whole hshown
    cases hshown
  | ok nodes =>
    obtain ⟨places, hlists, hnodup, rfl⟩ := exists_lists_of_outline houtline
    obtain ⟨htrue, hfalse⟩ := visible_of_lists hlists hnodup houtline
    rw [htrue, hfalse]
    refine ⟨rfl, ?_⟩
    intro shown whole hshown hwhole
    obtain rfl := Except.ok.inj hshown
    obtain rfl := Except.ok.inj hwhole
    constructor
    · intro id p hid hlink hp
      obtain ⟨hid, hpath⟩ := List.mem_filter.mp hid
      obtain ⟨t, hget, hparent⟩ := hlink
      obtain rfl := Tree.id_of_get? hget
      obtain ⟨place, hplace, rfl⟩ := List.mem_map.mp hp
      rw [showsPath_of_parent (Tree.mem_of_get? hget) hparent, Bool.and_eq_true] at hpath
      exact List.mem_filter.mpr ⟨hp, hpath.2⟩
    · intro p hmem hp hverdict hlimit
      obtain ⟨hlisted, hpath⟩ := List.mem_filter.mp hp
      have hable := (Tree.isActionableId_iff hmem).mp hverdict
      exact filter_isOpenChild_listed hlists hnodup hlisted hpath hable hlimit

end Page

end Agenda
