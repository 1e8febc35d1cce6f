import Agenda.Proofs.Gesture.Landing
import Agenda.Proofs.Tree.Links

/-! # Gestures and circles of parents

    A gesture that is carried out closes a circle of parents exactly if its plan puts the task
    under itself or under a task below it.  Moves, indents, unindents and reparents never do;
    an insertion does when the anchor stands below the moved task, and an appended task when
    the parent asked for stands within its own subtree (`plan_within_iff`).  Of a run of
    gestures every tree has all its tasks rooted exactly if no gesture on the way does this
    (`run_allRooted_iff`). -/

namespace Agenda.Gesture

/-! ## Section 1: The parent that a plan gives -/

/-- The gesture asks for a place within the subtree of the task that it moves: next to a task
    below it, or at the end of its own subtree. -/
def PutsBelowItself (g : Gesture) (tree : Tree) (task : Task) : Prop :=
  match g.kind with
  | .insertAbove | .insertBelow => ∃ anchor ∈ g.anchor, tree.Below anchor task.id
  | .append => ∃ parent ∈ g.parent, tree.Within parent task.id
  | .moveUp | .moveDown | .indent | .unindent | .reparent => False

/-- The plan gives the task a parent of its own subtree. -/
def ParentWithin (tree : Tree) (task : Task) (p : Plan) : Prop :=
  ∃ q ∈ p.parent, tree.Within q task.id

section parents
variable {g : Gesture} {tree : Tree} {task : Task} {p : Plan}

/-- Next to a task below it the moved task comes to stand below itself. -/
theorem parentWithin_of_anchor {anchor : Task} (hanchor : g.anchor.bind tree.get? = some anchor)
    (hparent : p.parent = anchor.parent) :
    ParentWithin tree task p ↔ ∃ id ∈ g.anchor, tree.Below id task.id := by
  obtain ⟨id, hid, hget⟩ := Option.bind_eq_some_iff.mp hanchor
  unfold ParentWithin
  rw [hparent, ← Tree.below_iff_of_get? hget, hid]
  constructor
  · intro hbelow
    exact ⟨id, rfl, hbelow⟩
  · intro h
    obtain ⟨id', hid', hbelow⟩ := h
    obtain rfl := Option.some.inj hid'
    exact hbelow

/-! ### Parents that have been checked -/

/-- A parent that passed the check stands outside of the subtree. -/
theorem not_within_of_accepted (h : tree.checkParent task.id p.parent = .ok ()) :
    ¬ParentWithin tree task p := by
  intro hwithin
  obtain ⟨q, hq, hwithin⟩ := hwithin
  exact (Tree.checkParent_eq_ok_iff.mp h q hq).2 hwithin

theorem require_eq_ok_iff {id : Option TaskId} {role : GestureRole} :
    require tree id role = .ok task ↔ id.bind tree.get? = some task := by
  unfold require
  cases id.bind tree.get? <;> simp

theorem planIndent_not_within (h : planIndent tree task = .ok p) (hchanged : p.changed = true) :
    ¬ParentWithin tree task p := by
  apply not_within_of_accepted
  unfold planIndent at h
  obtain ⟨i, -, h⟩ := bind_eq_ok_iff.mp h
  split at h
  · -- at the beginning of its group a task stays where it is
    obtain rfl := Except.ok.inj h
    cases hchanged
  · obtain ⟨_, hcheck, h⟩ := bind_eq_ok_iff.mp h
    obtain ⟨key, -, h⟩ := bind_eq_ok_iff.mp h
    obtain rfl := Except.ok.inj h
    exact mapError_eq_ok_iff.mp hcheck

/-- A new parent that does not pass the check of parents is refused with its error. -/
theorem planReparent_of_refused {parent : Option TaskId} {e : Tree.ParentError}
    (h : tree.checkParent task.id parent = .error e) :
    planReparent tree task parent = .error (.parent e) := by
  unfold planReparent checkParent
  rw [h]
  rfl

theorem planReparent_not_within (h : planReparent tree task g.parent = .ok p)
    (hparent : p.parent = g.parent) : ¬ParentWithin tree task p := by
  apply not_within_of_accepted
  rw [hparent]
  cases hcheck : tree.checkParent task.id g.parent with
  | ok _ => rfl
  | error e =>
    rw [planReparent_of_refused hcheck] at h
    cases h

/-! ### Parents that the tree has already -/

section acyclic
variable (hacyclic : tree.Acyclic) (hget : tree.get? task.id = some task)
include hacyclic hget

/-- The parent of a task stands outside of its subtree, as the tree has no circle. -/
theorem not_within_of_parent_eq (hparent : p.parent = task.parent) :
    ¬ParentWithin tree task p := by
  intro hwithin
  obtain ⟨q, hq, hwithin⟩ := hwithin
  rw [hparent] at hq
  exact hacyclic.not_within_parent ⟨task, hget, hq⟩ hwithin

/-- The parent of the parent stands above the task. -/
theorem not_within_of_grandparent {parent : Task} (hgetParent : tree.parent? task = some parent)
    (hparent : p.parent = parent.parent) : ¬ParentWithin tree task p := by
  intro hwithin
  obtain ⟨q, hq, hwithin⟩ := hwithin
  rw [hparent] at hq
  obtain ⟨id, hid, hgetId⟩ := Option.bind_eq_some_iff.mp hgetParent
  have hlink : tree.LinksTo task.id id := ⟨task, hget, hid⟩
  have hup : tree.LinksTo id q := ⟨parent, hgetId, hq⟩
  exact hacyclic.not_within_parent hlink (Relation.ReflTransGen.head hup hwithin)

/-- **The new parent stands within the subtree of the moved task exactly if an insertion is
    made next to a task below it, or an append under itself or a task below it.** -/
theorem plan_within_iff (hnamed : g.task = some task.id) (hplan : g.plan tree = .ok p)
    (hchanged : p.changed = true) :
    ParentWithin tree task p ↔ g.PutsBelowItself tree task := by
  have hplaces : g.Places tree task := Places.moved hnamed hget
  -- the parent is that of the aim
  obtain ⟨aim, haim, hparent, -⟩ := exists_aim_of_changed hplan hchanged
  unfold PutsBelowItself
  cases hplaces.aimsFrom haim with
  | anchor hkind hanchor haimParent _ =>
    rw [haimParent] at hparent
    rcases hkind with hkind | hkind <;> rw [hkind] <;>
      exact parentWithin_of_anchor hanchor hparent
  | append hkind haimParent _ =>
    rw [hkind, ParentWithin, hparent, haimParent]
  | self hkind haimParent _ =>
    rw [haimParent] at hparent
    rcases hkind with hkind | hkind <;> rw [hkind] <;>
      exact iff_false_intro (not_within_of_parent_eq hacyclic hget hparent)
  | parent hkind hgetParent haimParent _ =>
    rw [haimParent] at hparent
    rw [hkind]
    exact iff_false_intro (not_within_of_grandparent hacyclic hget hgetParent hparent)
  -- the other two have their parent checked before they make a key
  | neighbour hkind _ =>
    rw [hkind]
    unfold plan at hplan
    rw [hkind] at hplan
    obtain ⟨t, ht, hindent⟩ := bind_eq_ok_iff.mp hplan
    obtain rfl := hplaces.eq_of_get? (require_eq_ok_iff.mp ht)
    exact iff_false_intro (planIndent_not_within hindent hchanged)
  | asked hkind haimParent _ =>
    rw [haimParent] at hparent
    rw [hkind]
    unfold plan at hplan
    rw [hkind] at hplan
    obtain ⟨t, ht, hreparent⟩ := bind_eq_ok_iff.mp hplan
    obtain rfl := hplaces.eq_of_get? (require_eq_ok_iff.mp ht)
    exact iff_false_intro (planReparent_not_within hreparent hparent)

end acyclic

end parents

/-! ## Section 2: Carrying a plan out -/

section step
variable {g : Gesture} {tree : Tree} {task : Task} {p : Plan}

/-- **A gesture that is carried out leaves the tree without circles exactly if it does not put
    the task below itself.** -/
theorem acyclic_carryOut_iff (hacyclic : tree.Acyclic) (hnamed : g.task = some task.id)
    (hget : tree.get? task.id = some task) (hplan : g.plan tree = .ok p)
    (hchanged : p.changed = true) :
    (carryOut tree task p).Acyclic ↔ ¬g.PutsBelowItself tree task := by
  rw [carryOut_of_changed hchanged, Tree.acyclic_put_iff hacyclic,
    ← plan_within_iff hacyclic hget hnamed hplan hchanged]
  constructor
  · intro h hwithin
    obtain ⟨q, hq, hwithin⟩ := hwithin
    exact h q hq hwithin
  · intro h q hq hwithin
    exact h ⟨q, hq, hwithin⟩

/-- **A reparent under the task itself or a task below it is refused.** -/
theorem plan_reparent_of_within {q : TaskId} (hkind : g.kind = .reparent)
    (hnamed : g.task = some task.id) (hget : tree.get? task.id = some task)
    (hq : g.parent = some q) (hwithin : tree.Within q task.id) :
    ∃ fault, g.plan tree = .error (.parent ⟨task.id, fault⟩) ∧
      (q = task.id ∧ fault = .self ∨ q ≠ task.id ∧ ∃ path, fault = .cycle path) := by
  obtain ⟨fault, hcheck, hfault⟩ := Tree.checkParent_of_within hwithin
  have hrequire : require tree g.task .moved = .ok task := by
    rw [require_eq_ok_iff, hnamed]
    exact hget
  refine ⟨fault, ?_, hfault⟩
  unfold plan
  rw [hkind]
  show (require tree g.task .moved >>= fun t => planReparent tree t g.parent) = _
  rw [hrequire, hq]
  exact planReparent_of_refused hcheck

end step

/-! ## Section 3: Runs of gestures -/

/-- The tree after a gesture on one of its tasks: without a plan nothing happens. -/
def after (g : Gesture) (tree : Tree) : Tree := Move.apply { gesture := g } tree

/-- The tree after some gestures, one after the other. -/
def afterAll (tree : Tree) (gestures : List Gesture) : Tree :=
  gestures.foldl (fun tree g => g.after tree) tree

/-- The gesture does not put its task below itself, if it changes anything at all. -/
def StaysClear (g : Gesture) (tree : Tree) : Prop :=
  ∀ task ∈ g.task.bind tree.get?, ∀ p, g.plan tree = .ok p → p.changed = true →
    ¬g.PutsBelowItself tree task

/-- Every gesture of a run stays clear in the tree that it meets. -/
def StayClear : Tree → List Gesture → Prop
  | _, [] => True
  | tree, g :: rest => g.StaysClear tree ∧ StayClear (g.after tree) rest

section runs
variable {g : Gesture} {tree : Tree}

/-- One gesture leaves the tree without circles exactly if it stays clear. -/
theorem acyclic_after_iff (h : tree.Acyclic) : (g.after tree).Acyclic ↔ g.StaysClear tree := by
  unfold after Move.apply Move.task? StaysClear
  rw [Option.none_or]
  cases htask : g.task.bind tree.get? with
  | none => simp [h]
  | some task =>
    obtain ⟨id, hnamed, hget⟩ := Option.bind_eq_some_iff.mp htask
    obtain rfl := Tree.id_of_get? hget
    cases hplan : g.plan tree with
    | error e => simp [h]
    | ok p =>
      show (carryOut tree task p).Acyclic ↔ _
      by_cases hchanged : p.changed = true
      · rw [acyclic_carryOut_iff h hnamed hget hplan hchanged]
        simp [hchanged]
      · rw [carryOut, if_neg hchanged]
        simp [h, hchanged]

/-- **Every tree of a run has all its tasks rooted exactly if every gesture stays clear.** -/
theorem run_allRooted_iff (h : tree.Acyclic) (gestures : List Gesture) :
    (∀ n, ∀ t ∈ (afterAll tree (gestures.take n)).tasks,
      (afterAll tree (gestures.take n)).Rooted t.id) ↔ StayClear tree gestures := by
  simp only [← Tree.acyclic_iff_rooted]
  induction gestures generalizing tree with
  | nil => simp [afterAll, StayClear, h]
  | cons g rest ih =>
    constructor
    · intro hall
      have hfirst : (g.after tree).Acyclic := hall 1
      refine ⟨(acyclic_after_iff h).mp hfirst, (ih hfirst).mp ?_⟩
      intro n
      exact hall (n + 1)
    · intro hclear n
      obtain ⟨hfirst, hrest⟩ := hclear
      cases n with
      | zero => exact h
      | succ n => exact (ih ((acyclic_after_iff h).mpr hfirst)).mpr hrest n

end runs

/-- **Where a tree has no circles, a gesture on one of its tasks closes one exactly if it puts
    the task below itself, which a reparent is refused to do; and a run leaves every task
    rooted exactly if none of its gestures does.** -/
theorem gestures_keepAcyclic_iff {tree : Tree} (hacyclic : tree.Acyclic) :
    (∀ (g : Gesture) (task : Task), g.task = some task.id → tree.get? task.id = some task →
      (∀ p, g.plan tree = .ok p → p.changed = true →
        ((carryOut tree task p).Acyclic ↔ ¬g.PutsBelowItself tree task)) ∧
      (g.kind = .reparent → ∀ q ∈ g.parent, tree.Within q task.id →
        ∃ fault, g.plan tree = .error (.parent ⟨task.id, fault⟩) ∧
          (q = task.id ∧ fault = .self ∨ q ≠ task.id ∧ ∃ path, fault = .cycle path))) ∧
    ∀ gestures : List Gesture,
      (∀ n, ∀ t ∈ (afterAll tree (gestures.take n)).tasks,
        (afterAll tree (gestures.take n)).Rooted t.id) ↔ StayClear tree gestures := by
  refine ⟨?_, run_allRooted_iff hacyclic⟩
  intro g task hnamed hget
  refine ⟨?_, ?_⟩
  · intro p hplan hchanged
    exact acyclic_carryOut_iff hacyclic hnamed hget hplan hchanged
  · intro hkind q hq hwithin
    exact plan_reparent_of_within hkind hnamed hget hq hwithin

/-! ## Section 4: Next to a task below -/

/-- A task with a child, and a task beside it. -/
def nested : Tree :=
  { tasks := [{ id := 1, sortKey := ['a', '0'] },
              { id := 2, sortKey := ['a', '0'], parent := some 1 },
              { id := 3, sortKey := ['a', '1'] }]
    projects := []
    tasks_nodup := by decide
    projects_nodup := List.nodup_nil }

/-- Move a task below the only child of the first one. -/
def belowChild (task : TaskId) : Gesture :=
  { kind := .insertBelow, task := some task, anchor := some 2 }

theorem nested_acyclic : nested.Acyclic := by
  rw [Tree.acyclic_iff_rooted]
  intro t ht
  have hfirst : nested.Rooted 1 := Tree.Rooted.top rfl rfl
  have hchild : nested.LinksTo 2 1 := ⟨_, rfl, rfl⟩
  simp only [nested, List.mem_cons, List.not_mem_nil, or_false] at ht
  rcases ht with rfl | rfl | rfl
  · exact hfirst
  · exact Tree.Rooted.link hchild hfirst
  · exact Tree.Rooted.top rfl rfl

theorem nested_below_two {q : TaskId} : nested.Below 2 q ↔ q = 1 := by
  have hone : ¬nested.Below 1 q := by
    rw [Tree.below_iff_of_get? rfl]
    simp
  rw [Tree.below_iff_of_get? rfl]
  constructor
  · intro h
    obtain ⟨p, hp, hwithin⟩ := h
    obtain rfl := Option.some.inj hp
    exact ((Tree.within_iff.mp hwithin).resolve_right hone).symm
  · intro h
    exact ⟨1, rfl, Tree.within_iff.mpr (Or.inl h.symm)⟩

theorem nested_plan (task : TaskId) (h : task ≠ 2) :
    (belowChild task).plan nested = .ok { sortKey := ['a', '1'], parent := some 1 } := by
  have hchildren : nested.children (some 1) =
      [{ id := 2, sortKey := ['a', '0'], parent := some 1 }] := Task.sort_eq_self (by decide)
  have hscope : scopeWithout nested (some 1) none (some task) = nested.children (some 1) := by
    show (nested.children (some 1)).filter _ = _
    rw [hchildren]
    simp [Ne.symm h]
  show (if some 2 = some task then _ else _) = _
  rw [if_neg (by simp [Ne.symm h])]
  show (keyBelow (scopeWithout nested (some 1) none (some task)) _ >>= _) = _
  rw [hscope, hchildren]
  rfl

/-- The task beside can be moved there, and the first task cannot be put under its own child
    by a reparent. -/
theorem gestures_keepAcyclic_nested : nested.Acyclic ∧
    (∃ p, (belowChild 3).plan nested = .ok p ∧ p.changed = true ∧
      (carryOut nested { id := 3, sortKey := ['a', '1'] } p).Acyclic) ∧
    (∃ fault, ({ kind := .reparent, task := some 1, parent := some 2 } : Gesture).plan nested =
      .error (.parent ⟨1, fault⟩)) ∧
    (∀ n, ∀ t ∈ (afterAll nested ([belowChild 3].take n)).tasks,
      (afterAll nested ([belowChild 3].take n)).Rooted t.id) := by
  have hall := gestures_keepAcyclic_iff nested_acyclic
  -- the anchor of the gesture is task 2, and task 3 does not stand above it
  have hclear (task : Task) (h : task.id = 3) : ¬(belowChild 3).PutsBelowItself nested task := by
    intro hputs
    obtain ⟨anchor, hanchor, hbelow⟩ := hputs
    obtain rfl := Option.some.inj hanchor
    rw [h, nested_below_two] at hbelow
    cases hbelow
  refine ⟨nested_acyclic, ⟨_, nested_plan 3 (by decide), rfl, ?_⟩, ?_, (hall.2 _).mpr ?_⟩
  · have hstep := (hall.1 (belowChild 3) { id := 3, sortKey := ['a', '1'] } rfl rfl).1
    exact (hstep _ (nested_plan 3 (by decide)) rfl).mpr (hclear _ rfl)
  · have hwithin : nested.Within 2 1 := Tree.within_iff.mpr (Or.inr (nested_below_two.mpr rfl))
    have hreparent := (hall.1 { kind := .reparent, task := some 1, parent := some 2 }
      { id := 1, sortKey := ['a', '0'] } rfl rfl).2
    obtain ⟨fault, hrefused, -⟩ := hreparent rfl 2 rfl hwithin
    exact ⟨fault, hrefused⟩
  · refine ⟨?_, trivial⟩
    intro task htask p _ _
    exact hclear task (Tree.id_of_get? htask)

/-- Moved below its own child, a task becomes its own parent, and no way up from it ends. -/
theorem not_gestures_keepAcyclic_belowOwnChild : nested.Acyclic ∧
    nested.get? 1 = some { id := 1, sortKey := ['a', '0'] } ∧
    ∃ p, (belowChild 1).plan nested = .ok p ∧ p.changed = true ∧
      ¬(carryOut nested { id := 1, sortKey := ['a', '0'] } p).Acyclic ∧
      ¬(carryOut nested { id := 1, sortKey := ['a', '0'] } p).Rooted 1 := by
  refine ⟨nested_acyclic, rfl, _, nested_plan 1 (by decide), rfl, ?_⟩
  rw [carryOut_of_changed rfl]
  have hself : (nested.put (moved { id := 1, sortKey := ['a', '0'] }
      { sortKey := ['a', '1'], parent := some 1 })).Below 1 1 :=
    Relation.TransGen.single (Tree.linksTo_put_self.mpr rfl)
  refine ⟨?_, ?_⟩
  · intro hacyclic
    exact hacyclic 1 hself
  · intro hrooted
    exact hrooted.not_below_self hself

end Agenda.Gesture
