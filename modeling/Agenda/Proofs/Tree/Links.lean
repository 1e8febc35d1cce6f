import Agenda.Proofs.Tree.Scopes
import Agenda.Tree.Ancestry
import Mathlib.Data.Fintype.EquivFin
import Mathlib.Data.Fintype.Sets
import Mathlib.Logic.Relation

/-! # Parent links of a tree

    A task stands below the ids that its parent links lead to.  A task whose way up meets no
    circle comes to a task at the top (`rooted_iff`), so in a tree without circles every task
    does.  A task that is put into such a tree closes a circle exactly if its parent stands
    within the subtree of the task (`acyclic_put_iff`), and this is what the check of a new
    parent finds out (`checkParent_eq_ok_iff`). -/

namespace Agenda.Tree

variable {tree : Tree} {task : Task} {id p q : TaskId}

/-! ## Section 1: Standing below a task -/

/-- The task `id` of the tree has the parent `p`, which may be missing. -/
def LinksTo (tree : Tree) (id p : TaskId) : Prop :=
  ∃ t, tree.get? id = some t ∧ t.parent = some p

/-- One or more parent links lead from `id` up to `top`. -/
def Below (tree : Tree) (id top : TaskId) : Prop := Relation.TransGen tree.LinksTo id top

/-- `id` is `top` or stands below it. -/
def Within (tree : Tree) (id top : TaskId) : Prop := Relation.ReflTransGen tree.LinksTo id top

/-- No task stands below itself. -/
def Acyclic (tree : Tree) : Prop := ∀ id, ¬tree.Below id id

theorem LinksTo.unique (hp : tree.LinksTo id p) (hq : tree.LinksTo id q) : p = q := by
  obtain ⟨t, ht, htp⟩ := hp
  obtain ⟨t', ht', htq⟩ := hq
  obtain rfl := Option.some.inj (ht.symm.trans ht')
  exact Option.some.inj (htp.symm.trans htq)

theorem linksTo_of_get? {t : Task} (hget : tree.get? id = some t) :
    tree.LinksTo id p ↔ t.parent = some p := by
  constructor
  · intro h
    obtain ⟨t', ht', hp⟩ := h
    obtain rfl := Option.some.inj (hget.symm.trans ht')
    exact hp
  · intro hp
    exact ⟨t, hget, hp⟩

/-- A task stands below `q` exactly if its parent stands within the subtree of `q`. -/
theorem below_iff : tree.Below id q ↔ ∃ p, tree.LinksTo id p ∧ tree.Within p q :=
  Relation.TransGen.head'_iff

theorem below_iff_of_get? {t : Task} (hget : tree.get? id = some t) :
    tree.Below id q ↔ ∃ p ∈ t.parent, tree.Within p q := by
  rw [below_iff]
  constructor
  · intro h
    obtain ⟨p, hlink, hwithin⟩ := h
    exact ⟨p, (linksTo_of_get? hget).mp hlink, hwithin⟩
  · intro h
    obtain ⟨p, hp, hwithin⟩ := h
    exact ⟨p, (linksTo_of_get? hget).mpr hp, hwithin⟩

theorem within_iff : tree.Within id q ↔ id = q ∨ tree.Below id q := by
  unfold Within Below
  rw [Relation.reflTransGen_iff_eq_or_transGen, eq_comm]

/-- What stands below something is a task of the tree. -/
theorem Below.exists_get? (h : tree.Below id q) : ∃ t, tree.get? id = some t := by
  obtain ⟨p, ⟨t, hget, -⟩, -⟩ := below_iff.mp h
  exact ⟨t, hget⟩

/-- In a tree without circles the parent of a task stands outside of its subtree. -/
theorem Acyclic.not_within_parent (h : tree.Acyclic) (hlink : tree.LinksTo id p) :
    ¬tree.Within p id := by
  intro hwithin
  exact h id (below_iff.mpr ⟨p, hlink, hwithin⟩)

/-! ## Section 2: Ways up that come to an end -/

/-- The parent links lead from `id` up to a task of the tree that stands at the top. -/
inductive Rooted (tree : Tree) : TaskId → Prop where
  | top {id : TaskId} {t : Task} (present : tree.get? id = some t) (ends : tree.isTop t = true) :
      Rooted tree id
  | link {id p : TaskId} (parent : tree.LinksTo id p) (up : Rooted tree p) : Rooted tree id

theorem isTop_iff_of_parent {t : Task} (hp : t.parent = some p) :
    tree.isTop t = true ↔ tree.get? p = none := by
  unfold isTop parent?
  rw [hp, Option.bind_some, Option.isNone_iff_eq_none]

/-- No task stands above one at the top. -/
theorem not_below_of_isTop {t : Task} (hget : tree.get? id = some t) (htop : tree.isTop t = true)
    (hq : ∃ u, tree.get? q = some u) : ¬tree.Below id q := by
  intro hbelow
  obtain ⟨p, hp, hwithin⟩ := (below_iff_of_get? hget).mp hbelow
  -- the missing parent is no task and leads nowhere else
  have hparent : ∃ u, tree.get? p = some u := by
    rcases within_iff.mp hwithin with rfl | habove
    · exact hq
    · exact habove.exists_get?
  obtain ⟨u, hu⟩ := hparent
  rw [(isTop_iff_of_parent hp).mp htop] at hu
  cases hu

/-- A way up that comes to an end passes no id twice. -/
theorem Rooted.not_below_self (h : tree.Rooted id) : ¬tree.Below id id := by
  induction h with
  | @top id t present ends => exact not_below_of_isTop present ends ⟨t, present⟩
  | @link id p parent _ ih =>
    intro hbelow
    obtain ⟨p', hlink, hwithin⟩ := below_iff.mp hbelow
    obtain rfl := parent.unique hlink
    exact ih (Relation.TransGen.tail' hwithin parent)

/-- What stands within the subtree of a task with an end to its way up has one too. -/
theorem Rooted.within (h : tree.Rooted q) (hwithin : tree.Within id q) : tree.Rooted id := by
  induction hwithin using Relation.ReflTransGen.head_induction_on with
  | refl => exact h
  | head hlink _ ih => exact Rooted.link hlink ih

theorem Rooted.of_within (h : tree.Rooted id) (hwithin : tree.Within id q)
    (hq : ∃ t, tree.get? q = some t) : tree.Rooted q := by
  induction hwithin using Relation.ReflTransGen.head_induction_on with
  | refl => exact h
  | @head id p hlink hwithin ih =>
    apply ih
    cases h with
    | top present ends =>
      have hbelow : tree.Below id q := below_iff.mpr ⟨p, hlink, hwithin⟩
      exact absurd hbelow (not_below_of_isTop present ends hq)
    | link parent up =>
      obtain rfl := parent.unique hlink
      exact up

/-- Among finitely many items a transitive relation comes to an end where no item that it
    leads to stands in it to itself. -/
theorem wellFounded_of_finite {α : Type} [Finite α] {r : α → α → Prop}
    (h : ∀ a b c, r a b → r b c → r a c) : WellFounded fun a b => r a b ∧ ¬r a a := by
  have htrans : IsTrans α fun a b => r a b ∧ ¬r a a :=
    ⟨fun a b c hab hbc => ⟨h a b c hab.1 hbc.1, hab.2⟩⟩
  have hirrefl : Std.Irrefl fun a b : α => r a b ∧ ¬r a a := ⟨fun a ha => ha.2 ha.1⟩
  exact Finite.wellFounded_of_trans_of_irrefl _

/-- `a` is a task above `b` that does not stand below itself. -/
def FreeAbove (tree : Tree) (a b : { t // t ∈ tree.tasks }) : Prop :=
  tree.Below b.1.id a.1.id ∧ ¬tree.Below a.1.id a.1.id

/-- Going up among finitely many tasks comes to an end where no task is met again. -/
theorem freeAbove_wellFounded (tree : Tree) : WellFounded tree.FreeAbove := by
  apply wellFounded_of_finite
  intro a b c hab hbc
  exact Relation.TransGen.trans hbc hab

theorem rooted_of_free (a : { t // t ∈ tree.tasks })
    (hfree : ∀ q, tree.Within a.1.id q → ¬tree.Below q q) : tree.Rooted a.1.id := by
  induction a using (freeAbove_wellFounded tree).induction with
  | h a ih =>
    have ha := mem_tasks_iff.mp a.2
    by_cases htop : tree.isTop a.1 = true
    · exact Rooted.top ha htop
    · unfold isTop at htop
      obtain ⟨b, hb⟩ := Option.ne_none_iff_exists'.mp (mt Option.isNone_iff_eq_none.mpr htop)
      obtain ⟨p, hp, hget⟩ := Option.bind_eq_some_iff.mp hb
      obtain rfl := id_of_get? hget
      have hlink : tree.LinksTo a.1.id b.id := ⟨a.1, ha, hp⟩
      have habove : ∀ q, tree.Within b.id q → ¬tree.Below q q := by
        intro q hq
        exact hfree q (Relation.ReflTransGen.head hlink hq)
      refine Rooted.link hlink (ih ⟨b, mem_of_get? hget⟩ ?_ habove)
      exact ⟨Relation.TransGen.single hlink, habove b.id Relation.ReflTransGen.refl⟩

/-- **The way up from a task comes to the top exactly if no id on it stands below itself.** -/
theorem rooted_iff {t : Task} (hget : tree.get? id = some t) :
    tree.Rooted id ↔ ∀ q, tree.Within id q → ¬tree.Below q q := by
  constructor
  · intro h q hwithin hcircle
    exact (h.of_within hwithin hcircle.exists_get?).not_below_self hcircle
  · intro h
    obtain rfl := id_of_get? hget
    exact rooted_of_free ⟨t, mem_of_get? hget⟩ h

/-- **A tree has no circles exactly if from every task the way up comes to the top.** -/
theorem acyclic_iff_rooted : tree.Acyclic ↔ ∀ t ∈ tree.tasks, tree.Rooted t.id := by
  constructor
  · intro h t ht
    exact (rooted_iff (mem_tasks_iff.mp ht)).mpr fun q _ => h q
  · intro h id hbelow
    obtain ⟨t, hget⟩ := hbelow.exists_get?
    obtain rfl := id_of_get? hget
    exact (h t (mem_of_get? hget)).not_below_self hbelow

/-! ## Section 3: Putting a task into a tree -/

theorem linksTo_put_self : (tree.put task).LinksTo task.id p ↔ task.parent = some p := by
  apply linksTo_of_get?
  rw [get?_put, if_pos rfl]

theorem linksTo_put_of_ne (h : id ≠ task.id) :
    (tree.put task).LinksTo id p ↔ tree.LinksTo id p := by
  unfold LinksTo
  rw [get?_put, if_neg (Ne.symm h)]

/-- The links of a task are not used on a way that ends at it. -/
theorem within_put_self : (tree.put task).Within id task.id ↔ tree.Within id task.id := by
  constructor
  · intro h
    induction h using Relation.ReflTransGen.head_induction_on with
    | refl => exact Relation.ReflTransGen.refl
    | @head id p hlink _ ih =>
      by_cases hid : id = task.id
      · rw [hid]
        exact Relation.ReflTransGen.refl
      · exact Relation.ReflTransGen.head ((linksTo_put_of_ne hid).mp hlink) ih
  · intro h
    induction h using Relation.ReflTransGen.head_induction_on with
    | refl => exact Relation.ReflTransGen.refl
    | @head id p hlink _ ih =>
      by_cases hid : id = task.id
      · rw [hid]
        exact Relation.ReflTransGen.refl
      · exact Relation.ReflTransGen.head ((linksTo_put_of_ne hid).mpr hlink) ih

/-- A way up that is new leads through the task that was put into the tree. -/
theorem below_put_cases (h : (tree.put task).Below id q) :
    tree.Below id q ∨ (tree.put task).Within id task.id ∧
      ∃ p ∈ task.parent, (tree.put task).Within p q := by
  induction h using Relation.TransGen.head_induction_on with
  | @single id hlink =>
    by_cases hid : id = task.id
    · subst hid
      exact Or.inr ⟨Relation.ReflTransGen.refl, q, linksTo_put_self.mp hlink,
        Relation.ReflTransGen.refl⟩
    · exact Or.inl (Relation.TransGen.single ((linksTo_put_of_ne hid).mp hlink))
  | @head id p hlink hbelow ih =>
    by_cases hid : id = task.id
    · subst hid
      exact Or.inr ⟨Relation.ReflTransGen.refl, p, linksTo_put_self.mp hlink,
        hbelow.to_reflTransGen⟩
    · rcases ih with hold | ⟨hwithin, hparent⟩
      · exact Or.inl (Relation.TransGen.head ((linksTo_put_of_ne hid).mp hlink) hold)
      · exact Or.inr ⟨Relation.ReflTransGen.head hlink hwithin, hparent⟩

/-- **A task that is put into a tree without circles closes one exactly if its parent stands
    within its own subtree.** -/
theorem acyclic_put_iff (h : tree.Acyclic) :
    (tree.put task).Acyclic ↔ ∀ p ∈ task.parent, ¬tree.Within p task.id := by
  constructor
  · intro hput p hp hwithin
    exact hput.not_within_parent (linksTo_put_self.mpr hp) (within_put_self.mpr hwithin)
  · intro hparent id hbelow
    rcases below_put_cases hbelow with hold | ⟨hwithin, p, hp, hback⟩
    · exact h id hold
    · exact hparent p hp (within_put_self.mp (Relation.ReflTransGen.trans hback hwithin))

/-! ## Section 4: The check of a new parent -/

/-- The passed ids link to passed ids only, but for the one that was passed last. -/
def ClosedBut (tree : Tree) (seen : List TaskId) (front : TaskId) : Prop :=
  ∀ s ∈ seen, s ≠ front → ∀ q, tree.LinksTo s q → q ∈ seen

theorem closedBut_singleton (tree : Tree) (id : TaskId) : tree.ClosedBut [id] id := by
  intro s hs hne
  exact absurd (List.mem_singleton.mp hs) hne

/-- Going up one link leaves the passed ids closed. -/
theorem ClosedBut.cons {seen : List TaskId} (h : tree.ClosedBut seen id)
    (hlink : tree.LinksTo id p) : tree.ClosedBut (p :: seen) p := by
  intro s hs hne q hq
  have hs' := (List.mem_cons.mp hs).resolve_left hne
  by_cases heq : s = id
  · subst heq
    obtain rfl := hlink.unique hq
    exact List.mem_cons_self
  · exact List.mem_cons_of_mem _ (h s hs' heq q hq)

/-- Where the link of the last id leads back to a passed one, all above was passed. -/
theorem ClosedBut.mem_of_within {seen : List TaskId} {s : TaskId} (h : tree.ClosedBut seen id)
    (hlink : tree.LinksTo id p) (hp : p ∈ seen) (hs : s ∈ seen) (hwithin : tree.Within s q) :
    q ∈ seen := by
  induction hwithin using Relation.ReflTransGen.head_induction_on with
  | refl => exact hs
  | @head s r hr _ ih =>
    apply ih
    by_cases heq : s = id
    · subst heq
      obtain rfl := hlink.unique hr
      exact hp
    · exact h s hs heq r hr

/-- The ids on the way up are those that the task stands below, as far as they have not been
    passed. -/
theorem mem_ancestorsFrom_iff {seen : List TaskId} {t : Task} (hget : tree.get? t.id = some t)
    (hclosed : tree.ClosedBut seen t.id) :
    p ∈ tree.ancestorsFrom seen t ↔ p ∉ seen ∧ tree.Below t.id p := by
  fun_induction ancestorsFrom tree seen t with
  | case1 seen t hparent => simp [below_iff_of_get? hget, hparent]
  | case2 seen t q hparent hq =>
    have hlink : tree.LinksTo t.id q := ⟨t, hget, hparent⟩
    constructor
    · intro h
      cases h
    · intro h
      obtain ⟨hp, hbelow⟩ := h
      obtain ⟨q', hlink', hwithin⟩ := below_iff.mp hbelow
      obtain rfl := hlink.unique hlink'
      exact absurd (hclosed.mem_of_within hlink hq hq hwithin) hp
  | case3 seen t q hparent hq hmissing =>
    have hlink : tree.LinksTo t.id q := ⟨t, hget, hparent⟩
    constructor
    · intro h
      obtain rfl := List.mem_singleton.mp h
      exact ⟨hq, Relation.TransGen.single hlink⟩
    · intro h
      obtain ⟨-, hbelow⟩ := h
      obtain ⟨q', hlink', hwithin⟩ := below_iff.mp hbelow
      obtain rfl := hlink.unique hlink'
      -- a missing parent links to nothing
      rcases within_iff.mp hwithin with rfl | habove
      · exact List.mem_singleton.mpr rfl
      · obtain ⟨u, hu⟩ := habove.exists_get?
        rw [hmissing] at hu
        cases hu
  | case4 seen t q hparent hq parent hgetq ih =>
    obtain rfl := id_of_get? hgetq
    have hlink : tree.LinksTo t.id parent.id := ⟨t, hget, hparent⟩
    rw [List.mem_cons, ih hgetq (hclosed.cons hlink), List.mem_cons, not_or]
    constructor
    · intro h
      rcases h with rfl | ⟨⟨-, hp⟩, hbelow⟩
      · exact ⟨hq, Relation.TransGen.single hlink⟩
      · exact ⟨hp, Relation.TransGen.head hlink hbelow⟩
    · intro h
      obtain ⟨hp, hbelow⟩ := h
      obtain ⟨q', hlink', hwithin⟩ := below_iff.mp hbelow
      obtain rfl := hlink.unique hlink'
      by_cases heq : p = parent.id
      · exact Or.inl heq
      · exact Or.inr ⟨⟨heq, hp⟩, (within_iff.mp hwithin).resolve_left (Ne.symm heq)⟩

/-- **The ids on the way up from a task are those that it stands below, itself left out.** -/
theorem mem_ancestors_iff : p ∈ tree.ancestors id ↔ p ≠ id ∧ tree.Below id p := by
  unfold ancestors
  cases hget : tree.get? id with
  | none =>
    constructor
    · intro h
      cases h
    · intro h
      obtain ⟨t, ht⟩ := h.2.exists_get?
      rw [hget] at ht
      cases ht
  | some t =>
    obtain rfl := id_of_get? hget
    show p ∈ tree.ancestorsFrom [t.id] t ↔ _
    rw [mem_ancestorsFrom_iff hget (tree.closedBut_singleton t.id), List.mem_singleton]

/-- A circle is found exactly if the new parent stands within the subtree of the task. -/
theorem cycle?_eq_none_iff : tree.cycle? id (some p) = none ↔ ¬tree.Within p id := by
  unfold cycle?
  rw [within_iff]
  by_cases hself : p = id
  · simp [hself]
  · have hup : id ∈ tree.ancestors p ↔ tree.Below p id := by
      rw [mem_ancestors_iff]
      exact and_iff_right (Ne.symm hself)
    simp [hself, hup]

/-- **A new parent is accepted exactly if the tree has it and it stands outside of the subtree
    of the task.** -/
theorem checkParent_eq_ok_iff {parent : Option TaskId} : tree.checkParent id parent = .ok () ↔
    ∀ p ∈ parent, tree.contains p = true ∧ ¬tree.Within p id := by
  cases parent with
  | none => simp [checkParent]
  | some p =>
    have hcycle : tree.cycle? id (some p) = none ↔ ¬tree.Within p id := cycle?_eq_none_iff
    unfold checkParent
    by_cases hself : p = id
    · simp [hself, within_iff]
    · cases hc : tree.cycle? id (some p) with
      | none =>
        have hwithin := hcycle.mp hc
        by_cases hcontains : tree.contains p = true
        · simp [hself, hcontains, hc, hwithin]
        · simp [hself, hcontains]
      | some path =>
        have hwithin : tree.Within p id := by
          by_contra hnot
          rw [hcycle.mpr hnot] at hc
          cases hc
        by_cases hcontains : tree.contains p = true
        · simp [hself, hcontains, hc, hwithin]
        · simp [hself, hcontains]

/-- A parent within the subtree of the task is refused as the task itself or as a circle. -/
theorem checkParent_of_within (h : tree.Within p id) : ∃ fault,
    tree.checkParent id (some p) = .error ⟨id, fault⟩ ∧
      (p = id ∧ fault = .self ∨ p ≠ id ∧ ∃ path, fault = .cycle path) := by
  unfold checkParent
  by_cases hself : p = id
  · exact ⟨.self, if_pos hself, Or.inl ⟨hself, rfl⟩⟩
  · have hbelow := (within_iff.mp h).resolve_left hself
    obtain ⟨t, ht⟩ := hbelow.exists_get?
    have hcontains : tree.contains p = true :=
      List.any_eq_true.mpr ⟨t, mem_of_get? ht, by simp [id_of_get? ht]⟩
    have hcycle : tree.cycle? id (some p) ≠ none := fun hnone => cycle?_eq_none_iff.mp hnone h
    obtain ⟨path, hpath⟩ := Option.ne_none_iff_exists'.mp hcycle
    refine ⟨.cycle path, ?_, Or.inr ⟨hself, path, rfl⟩⟩
    simp [hself, hcontains, hpath]

end Agenda.Tree
