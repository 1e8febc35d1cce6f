import Agenda.Proofs.Gesture.Aims

/-! # Where a gesture lands

    The new key of a plan differs from the keys of the scope that the gesture works on.  The
    task lands in the scope of its new parent and, at the top, of its own project.  Where the
    two are one scope, carrying the plan out leaves the keys of every scope distinct.  At the
    top a gesture may work on another project than the task's own; then its key is distinct
    only if it happens to be (`carryOut_keepsDistinct_iff`). -/

namespace Agenda.Gesture

/-! ## Section 1: The keys that a new key is made between -/

/-- The project of the scope that a gesture works on: that of the anchor, the one asked for,
    that of the parent, or the task's own. -/
def boundingProject (g : Gesture) (tree : Tree) (task : Task) : Option ProjectId :=
  match g.kind with
  | .insertAbove | .insertBelow => (g.anchor.bind tree.get?).bind Task.project
  | .append => g.project
  | .unindent => (tree.parent? task).bind Task.project
  | .moveUp | .moveDown | .indent | .reparent => task.project

/-- The task that a gesture places: the one of the tree that it names, or a new task in the
    project of the anchor or the one asked for. -/
inductive Places (g : Gesture) (tree : Tree) (task : Task) : Prop where
  | moved (named : g.task = some task.id) (present : tree.get? task.id = some task)
  | new (named : ∀ id ∈ g.task, id = task.id) (absent : tree.get? task.id = none)
      (project : task.project = g.boundingProject tree task)

section bounds
variable {g : Gesture} {tree : Tree} {task : Task} {p : Plan}

theorem Places.eq_of_id_mem (h : g.Places tree task) : ∀ id ∈ g.task, id = task.id := by
  cases h with
  | moved named _ =>
    intro id hid
    rw [named] at hid
    exact (Option.some.inj hid).symm
  | new named _ _ => exact named

/-- The moved task, where the tree has it, is the task that is placed. -/
theorem Places.eq_of_get? (h : g.Places tree task) {t : Task}
    (ht : g.task.bind tree.get? = some t) : t = task := by
  obtain ⟨id, hnamed, hget⟩ := Option.bind_eq_some_iff.mp ht
  rw [h.eq_of_id_mem id hnamed] at hget
  cases h with
  | moved _ present => exact Option.some.inj (hget.symm.trans present)
  -- a new task is none of the tree
  | new _ absent _ =>
    rw [absent] at hget
    cases hget

/-- Where the parent and the project of an aim come from: the anchor, the task itself, its
    neighbour, its parent, or what is asked for. -/
inductive AimsFrom (g : Gesture) (tree : Tree) (task : Task) (aim : Aim) : Prop where
  | anchor {anchor : Task} (hkind : g.kind = .insertAbove ∨ g.kind = .insertBelow)
      (hanchor : g.anchor.bind tree.get? = some anchor) (hparent : aim.parent = anchor.parent)
      (hproject : aim.project = anchor.project)
  | self (hkind : g.kind = .moveUp ∨ g.kind = .moveDown) (hparent : aim.parent = task.parent)
      (hproject : aim.project = task.project)
  | neighbour {neighbour : Task} (hkind : g.kind = .indent)
      (hparent : aim.parent = some neighbour.id)
  | parent {parent : Task} (hkind : g.kind = .unindent) (hget : tree.parent? task = some parent)
      (hparent : aim.parent = parent.parent) (hproject : aim.project = parent.project)
  | asked (hkind : g.kind = .reparent) (hparent : aim.parent = g.parent)
      (hproject : aim.project = task.project)
  | append (hkind : g.kind = .append) (hparent : aim.parent = g.parent)
      (hproject : aim.project = g.project)

theorem Places.aimsFrom (h : g.Places tree task) {aim : Aim} (haim : g.aim? tree = some aim) :
    g.AimsFrom tree task aim := by
  unfold aim? at haim
  cases hkind : g.kind with
  | insertAbove =>
    rw [hkind] at haim
    obtain ⟨anchor, hanchor, rfl⟩ := Option.map_eq_some_iff.mp haim
    exact .anchor (Or.inl hkind) hanchor rfl rfl
  | insertBelow =>
    rw [hkind] at haim
    obtain ⟨anchor, hanchor, rfl⟩ := Option.map_eq_some_iff.mp haim
    exact .anchor (Or.inr hkind) hanchor rfl rfl
  | moveUp =>
    rw [hkind] at haim
    obtain ⟨t, ht, haim⟩ := Option.bind_eq_some_iff.mp haim
    obtain ⟨_, -, rfl⟩ := Option.map_eq_some_iff.mp haim
    obtain rfl := h.eq_of_get? ht
    exact .self (Or.inl hkind) rfl rfl
  | moveDown =>
    rw [hkind] at haim
    obtain ⟨t, ht, haim⟩ := Option.bind_eq_some_iff.mp haim
    obtain ⟨_, -, rfl⟩ := Option.map_eq_some_iff.mp haim
    obtain rfl := h.eq_of_get? ht
    exact .self (Or.inr hkind) rfl rfl
  | indent =>
    rw [hkind] at haim
    obtain ⟨t, -, haim⟩ := Option.bind_eq_some_iff.mp haim
    obtain ⟨neighbour, -, rfl⟩ := Option.map_eq_some_iff.mp haim
    exact .neighbour hkind rfl
  | unindent =>
    rw [hkind] at haim
    obtain ⟨t, ht, haim⟩ := Option.bind_eq_some_iff.mp haim
    obtain ⟨parent, hparent, rfl⟩ := Option.map_eq_some_iff.mp haim
    obtain rfl := h.eq_of_get? ht
    exact .parent hkind hparent rfl rfl
  | reparent =>
    rw [hkind] at haim
    obtain ⟨t, ht, rfl⟩ := Option.map_eq_some_iff.mp haim
    obtain rfl := h.eq_of_get? ht
    exact .asked hkind rfl rfl
  | append =>
    rw [hkind] at haim
    obtain rfl := Option.some.inj haim
    exact .append hkind rfl rfl

/-- At the top the project of the aim is the one that the gesture works on. -/
theorem aim_project (hplaces : g.Places tree task) {aim : Aim} (haim : g.aim? tree = some aim)
    (htop : aim.parent = none) : aim.project = g.boundingProject tree task := by
  unfold boundingProject
  cases hplaces.aimsFrom haim with
  | anchor hkind hanchor _ hproject =>
    rcases hkind with hkind | hkind <;> simp [hkind, hanchor, hproject]
  | self hkind _ hproject =>
    rcases hkind with hkind | hkind <;> simp [hkind, hproject]
  | neighbour _ hparent =>
    -- an indent never aims at the top
    rw [htop] at hparent
    cases hparent
  | parent hkind hget _ hproject => simp [hkind, hget, hproject]
  | asked hkind _ hproject => simp [hkind, hproject]
  | append hkind _ hproject => simp [hkind, hproject]

/-- **The key of a plan is none of the keys of the scope that the gesture works on**, the moved
    task left out. -/
theorem plan_ne_of_bounding (hplaces : g.Places tree task) (hplan : g.plan tree = .ok p)
    (hchanged : p.changed = true) :
    ∀ other ∈ tree.scope p.parent (g.boundingProject tree task),
      other.id ≠ task.id → other.sortKey ≠ p.sortKey := by
  intro other hother hid
  obtain ⟨aim, haim, hparent, hkeys⟩ := exists_aim_of_changed hplan hchanged
  have hmoved : some other.id ≠ g.task := fun heq => hid (hplaces.eq_of_id_mem other.id heq.symm)
  obtain ⟨htree, hunder, hproject⟩ := Tree.mem_scope.mp hother
  have hscope : other ∈ tree.scope aim.parent aim.project := by
    rw [hparent] at hunder hproject
    refine Tree.mem_scope.mpr ⟨htree, hunder, ?_⟩
    intro htop
    rw [aim_project hplaces haim htop]
    exact hproject htop
  exact (hkeys other (mem_scopeWithout.mpr ⟨hscope, hmoved⟩)).1

end bounds

/-! ## Section 2: Carrying a plan out -/

/-- The scope that the task lands in is the one that the gesture works on.  Under a parent it
    always is; at the top the projects have to agree. -/
def LandsInBounds (g : Gesture) (tree : Tree) (task : Task) (p : Plan) : Prop :=
  p.parent = none → g.boundingProject tree task = task.project

section landing
variable {g : Gesture} {tree : Tree} {task : Task} {p : Plan}

theorem LandsInBounds.hasOwnKey (h : g.LandsInBounds tree task p)
    (hplaces : g.Places tree task) (hplan : g.plan tree = .ok p) (hchanged : p.changed = true) :
    tree.HasOwnKey (moved task p) := by
  intro other hother hid
  refine plan_ne_of_bounding hplaces hplan hchanged other ?_ hid
  -- the two scopes are one
  obtain ⟨htree, hparent, hproject⟩ := Tree.mem_scope.mp hother
  refine Tree.mem_scope.mpr ⟨htree, hparent, ?_⟩
  intro hnone
  rw [h hnone]
  exact hproject hnone

theorem carryOut_of_changed (hchanged : p.changed = true) :
    carryOut tree task p = tree.put (moved task p) := by
  rw [carryOut, if_pos hchanged]

/-- The task gets a key of its own exactly if it lands where the gesture works, or, at the top of
    another project, no other task there has the new key. -/
theorem hasOwnKey_iff (hplaces : g.Places tree task) (hplan : g.plan tree = .ok p)
    (hchanged : p.changed = true) :
    tree.HasOwnKey (moved task p) ↔ g.LandsInBounds tree task p ∨
      ∀ other ∈ tree.scope none task.project, other.id ≠ task.id → other.sortKey ≠ p.sortKey := by
  by_cases hparent : p.parent = none
  · have hscope : tree.siblingsOf (moved task p) = tree.scope none task.project := by
      show tree.scope p.parent task.project = _
      rw [hparent]
    constructor
    · intro hown
      unfold Tree.HasOwnKey at hown
      rw [hscope] at hown
      exact Or.inr hown
    · intro h
      rcases h with hlands | hother
      · exact hlands.hasOwnKey hplaces hplan hchanged
      · unfold Tree.HasOwnKey
        rw [hscope]
        exact hother
  · -- under a parent there is one scope only
    have hlands : g.LandsInBounds tree task p := fun h => absurd h hparent
    constructor
    · intro _
      exact Or.inl hlands
    · intro _
      exact hlands.hasOwnKey hplaces hplan hchanged

/-- **Carrying out a plan leaves the keys distinct exactly when the task lands in the scope that
    the gesture works on**, or no other task at the top of the task's own project has the new
    key. -/
theorem carryOut_keepsDistinct_iff (hdistinct : tree.HasDistinctKeys)
    (hplaces : g.Places tree task) (hplan : g.plan tree = .ok p) (hchanged : p.changed = true) :
    ((carryOut tree task p).HasOwnKey (moved task p) ∧
        (carryOut tree task p).HasDistinctKeys) ↔
      g.LandsInBounds tree task p ∨ ∀ other ∈ tree.scope none task.project,
        other.id ≠ task.id → other.sortKey ≠ p.sortKey := by
  rw [carryOut_of_changed hchanged, Tree.hasOwnKey_put_self,
    Tree.hasDistinctKeys_put_iff hdistinct, and_self]
  exact hasOwnKey_iff hplaces hplan hchanged

end landing

/-- Two projects, with the only task of one below those of the other. -/
def twoProjects : Tree :=
  { tasks := [{ id := 2, sortKey := ['Z', 'z'], project := some 2 },
              { id := 1, sortKey := ['a', '0'], project := some 1 },
              { id := 3, sortKey := ['a', '5'], project := some 1 }]
    projects := [{ id := 1, title := "Home".toList }, { id := 2, title := "Work".toList }] }

/-- The task of `twoProjects` that is moved. -/
def thirdTask : Task := { id := 3, sortKey := ['a', '5'], project := some 1 }

/-- Move it below the task of the same project. -/
def belowFirst : Gesture := { kind := .insertBelow, task := some 3, anchor := some 1 }

/-- Move it below the task of the other project. -/
def belowSecond : Gesture := { kind := .insertBelow, task := some 3, anchor := some 2 }

theorem twoProjects_hasDistinctKeys : twoProjects.HasDistinctKeys := by
  rw [Tree.hasDistinctKeys_iff]
  decide

theorem twoProjects_scope (project : Option ProjectId) : twoProjects.scope none project =
    twoProjects.tasks.filter (·.project == project) := by
  show (Task.sort twoProjects.tasks).filter _ = _
  rw [Task.sort_eq_self (by decide)]

/-- Within its project the task lands where the gesture works. -/
theorem carryOut_keepsDistinct_belowFirst : ∃ p, belowFirst.plan twoProjects = .ok p ∧
    (carryOut twoProjects thirdTask p).HasOwnKey (moved thirdTask p) ∧
      (carryOut twoProjects thirdTask p).HasDistinctKeys := by
  have hplan : belowFirst.plan twoProjects = .ok { sortKey := ['a', '1'], parent := none } := by
    show (keyBelow ((twoProjects.scope none (some 1)).filter _) _ >>= _) = _
    rw [twoProjects_scope]
    rfl
  have hplaces : belowFirst.Places twoProjects thirdTask := Places.moved rfl rfl
  have hlands : belowFirst.LandsInBounds twoProjects thirdTask
      { sortKey := ['a', '1'], parent := none } := fun _ => rfl
  exact ⟨_, hplan, (carryOut_keepsDistinct_iff twoProjects_hasDistinctKeys hplaces hplan rfl).mpr
    (Or.inl hlands)⟩

/-- Below the task of another project the key is made for that project, but the task stays in
    its own, where another task has this key. -/
theorem not_carryOut_keepsDistinct_belowSecond : twoProjects.HasDistinctKeys ∧
    (∀ t ∈ twoProjects.tasks, SortKey.isValid t.sortKey = true) ∧
    belowSecond.Places twoProjects thirdTask ∧
    ∃ p, belowSecond.plan twoProjects = .ok p ∧ p.changed = true ∧
      ¬(carryOut twoProjects thirdTask p).HasOwnKey (moved thirdTask p) ∧
      ¬(carryOut twoProjects thirdTask p).HasDistinctKeys := by
  have hplan : belowSecond.plan twoProjects = .ok { sortKey := ['a', '0'], parent := none } := by
    show (keyBelow ((twoProjects.scope none (some 2)).filter _) _ >>= _) = _
    rw [twoProjects_scope]
    rfl
  have hown : ¬twoProjects.HasOwnKey
      (moved thirdTask { sortKey := ['a', '0'], parent := none }) := by
    intro h
    have hother : ({ id := 1, sortKey := ['a', '0'], project := some 1 } : Task) ∈
        twoProjects.siblingsOf (moved thirdTask { sortKey := ['a', '0'], parent := none }) :=
      Tree.mem_scope.mpr (by decide)
    exact h _ hother (by decide) rfl
  refine ⟨twoProjects_hasDistinctKeys, by decide, Places.moved rfl rfl, _, hplan, rfl, ?_, ?_⟩
  · rw [carryOut_of_changed rfl, Tree.hasOwnKey_put_self]
    exact hown
  · rw [carryOut_of_changed rfl, Tree.hasDistinctKeys_put_iff twoProjects_hasDistinctKeys]
    exact hown

/-! ## Section 3: Runs of gestures -/

/-- A gesture together with the new task that it places, if it places one. -/
structure Move where
  gesture : Gesture
  new     : Option Task := none

namespace Move

/-- The task that is placed. -/
def task? (m : Move) (tree : Tree) : Option Task := m.new.or (m.gesture.task.bind tree.get?)

/-- The tree after a move.  Without a task or without a plan nothing happens. -/
def apply (m : Move) (tree : Tree) : Tree :=
  match m.task? tree, m.gesture.plan tree with
  | some task, .ok p => carryOut tree task p
  | _, _ => tree

/-- The gesture places its task, in the scope that it works on. -/
def Fits (m : Move) (tree : Tree) : Prop :=
  ∀ task ∈ m.task? tree, m.gesture.Places tree task ∧
    ∀ p, m.gesture.plan tree = .ok p → p.changed = true → m.gesture.LandsInBounds tree task p

/-- One move leaves the keys distinct. -/
theorem apply_hasDistinctKeys {m : Move} {tree : Tree} (h : tree.HasDistinctKeys)
    (hfits : m.Fits tree) : (m.apply tree).HasDistinctKeys := by
  unfold apply
  cases htask : m.task? tree with
  | none => exact h
  | some task =>
    obtain ⟨hplaces, hlands⟩ := hfits task htask
    cases hplan : m.gesture.plan tree with
    | error e => exact h
    | ok p =>
      by_cases hchanged : p.changed = true
      · show (carryOut tree task p).HasDistinctKeys
        rw [carryOut_of_changed hchanged, Tree.hasDistinctKeys_put_iff h]
        exact (hlands p hplan hchanged).hasOwnKey hplaces hplan hchanged
      · show (carryOut tree task p).HasDistinctKeys
        rw [carryOut, if_neg hchanged]
        exact h

end Move

/-- Every move of a run fits the tree that it meets. -/
def FitsAlong : Tree → List Move → Prop
  | _, [] => True
  | tree, m :: rest => m.Fits tree ∧ FitsAlong (m.apply tree) rest

/-- **Runs of moves that land where they work leave the keys of every scope distinct.** -/
theorem run_hasDistinctKeys {tree : Tree} {moves : List Move} (h : tree.HasDistinctKeys)
    (hfits : FitsAlong tree moves) :
    (moves.foldl (fun tree m => m.apply tree) tree).HasDistinctKeys := by
  induction moves generalizing tree with
  | nil => exact h
  | cons m rest ih => exact ih (Move.apply_hasDistinctKeys h hfits.1) hfits.2

end Agenda.Gesture
