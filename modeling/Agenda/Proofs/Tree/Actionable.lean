import Agenda.Proofs.Tree.Links
import Agenda.Proofs.Tree.Order
import Agenda.Tree.Actionable

/-! # The rule for what can be worked on

    The rule is a recursion on parents: a task can be worked on if it is eligible and either at
    the top of the tree or within the limit of a parent that can be worked on (`Actionable`).
    The tasks are judged with a stack, from the top down.  A task stands on the stack only when
    its own verdict is the last one, so its children are judged by the rule, and a task that is
    never reached does not satisfy it (`on_actionability_iff`).

    Nothing is asked of the links: on a circle and below one no task satisfies the rule. -/

namespace Agenda.Tree

variable {tree : Tree} {s t p task : Task} {id : TaskId}

/-! ## Section 1: The rule -/

/-- How many eligible tasks with the same parent stand before the task. -/
def rank (tree : Tree) (t : Task) : Nat :=
  tree.tasks.countP fun s => s.parent == t.parent && s.isEligible && decide (s.StandsBefore t)

/-- The children of a task that are eligible, in manual order. -/
def eligibleChildren (tree : Tree) (parent : Task) : List Task :=
  (tree.children (some parent.id)).filter Task.isEligible

/-- The limit of `parent` leaves room for the task. -/
def WithinLimit (tree : Tree) (parent t : Task) : Prop :=
  parent.sequentialLimit = 0 ∨ tree.rank t < parent.sequentialLimit

/-- The task can be worked on. -/
inductive Actionable (tree : Tree) : Task → Prop where
  | top {t : Task} (present : t ∈ tree.tasks) (eligible : t.isEligible = true)
      (atTop : tree.isTop t = true) : Actionable tree t
  | child {t parent : Task} (present : t ∈ tree.tasks) (eligible : t.isEligible = true)
      (link : tree.parent? t = some parent) (able : Actionable tree parent)
      (within : tree.WithinLimit parent t) : Actionable tree t

theorem parent?_eq_some_iff : tree.parent? t = some p ↔ t.parent = some p.id ∧ p ∈ tree.tasks := by
  unfold parent?
  rw [Option.bind_eq_some_iff]
  constructor
  · intro h
    obtain ⟨id, hid, hget⟩ := h
    obtain rfl := id_of_get? hget
    exact ⟨hid, mem_of_get? hget⟩
  · intro h
    exact ⟨p.id, h.1, mem_tasks_iff.mp h.2⟩

theorem isTop_eq_true_iff : tree.isTop t = true ↔ tree.parent? t = none := Option.isNone_iff_eq_none

theorem Actionable.present (h : tree.Actionable t) : t ∈ tree.tasks := by
  cases h with
  | top present _ _ => exact present
  | child present _ _ _ _ => exact present

theorem Actionable.eligible (h : tree.Actionable t) : t.isEligible = true := by
  cases h with
  | top _ eligible _ => exact eligible
  | child _ eligible _ _ _ => exact eligible

theorem actionable_iff_of_isTop (ht : t ∈ tree.tasks) (htop : tree.isTop t = true) :
    tree.Actionable t ↔ t.isEligible = true := by
  constructor
  · intro h
    exact h.eligible
  · intro h
    exact Actionable.top ht h htop

theorem actionable_iff_of_parent (ht : t ∈ tree.tasks) (hp : tree.parent? t = some p) :
    tree.Actionable t ↔ t.isEligible = true ∧ tree.Actionable p ∧ tree.WithinLimit p t := by
  constructor
  · intro h
    cases h with
    | top _ _ atTop =>
      rw [isTop_eq_true_iff.mp atTop] at hp
      cases hp
    | child _ eligible link able within =>
      obtain rfl := Option.some.inj (link.symm.trans hp)
      exact ⟨eligible, able, within⟩
  · intro h
    exact Actionable.child ht h.1 hp h.2.1 h.2.2

/-- The way up from a task that can be worked on comes to the top. -/
theorem Actionable.rooted (h : tree.Actionable t) : tree.Rooted t.id := by
  induction h with
  | top present _ atTop => exact Rooted.top (mem_tasks_iff.mp present) atTop
  | child present _ link _ _ ih =>
    have hlink := (parent?_eq_some_iff.mp link).1
    exact Rooted.link ⟨_, mem_tasks_iff.mp present, hlink⟩ ih

/-- With a task all tasks above it can be worked on. -/
theorem Actionable.of_within (h : tree.Actionable t) (hs : s ∈ tree.tasks)
    (hwithin : tree.Within t.id s.id) : tree.Actionable s := by
  induction h with
  | top present eligible atTop =>
    rcases within_iff.mp hwithin with hid | hbelow
    · rw [← eq_of_id_eq present hs hid]
      exact Actionable.top present eligible atTop
    · have htop := not_below_of_isTop (mem_tasks_iff.mp present) atTop ⟨s, mem_tasks_iff.mp hs⟩
      exact absurd hbelow htop
  | child present eligible link able within ih =>
    rcases within_iff.mp hwithin with hid | hbelow
    · rw [← eq_of_id_eq present hs hid]
      exact Actionable.child present eligible link able within
    · obtain ⟨q, hq, hup⟩ := (below_iff_of_get? (mem_tasks_iff.mp present)).mp hbelow
      obtain rfl := Option.some.inj ((parent?_eq_some_iff.mp link).1.symm.trans hq)
      exact ih hup

/-! ## Section 2: Verdicts -/

section verdicts
variable {verdicts new : Verdicts} {b : Bool}

theorem map_key_putBy_of_mem {α κ : Type} [DecidableEq κ] {key : α → κ} {a : α} {l : List α}
    (h : key a ∈ l.map key) : (putBy key a l).map key = l.map key := by
  induction l with
  | nil => cases h
  | cons b rest ih =>
    unfold putBy
    by_cases hb : key b = key a
    · rw [if_pos hb, List.map_cons, List.map_cons, hb]
    · have hrest : key a ∈ rest.map key := by
        rcases List.mem_cons.mp h with heq | hrest
        · exact absurd heq.symm hb
        · exact hrest
      rw [if_neg hb, List.map_cons, List.map_cons, ih hrest]

theorem Verdicts.on_putBy (verdicts : Verdicts) (verdict : TaskId × Bool) (id : TaskId) :
    Verdicts.on (putBy Prod.fst verdict verdicts) id =
      if verdict.1 = id then verdict.2 else verdicts.on id := by
  unfold Verdicts.on
  rw [find?_putBy]
  split <;> rfl

theorem Verdicts.on_note_of_notMem (h : id ∉ new.map Prod.fst) :
    (verdicts.note new).on id = verdicts.on id := by
  induction new generalizing verdicts with
  | nil => rfl
  | cons verdict rest ih =>
    rw [List.map_cons, List.mem_cons, not_or] at h
    show (Verdicts.note (putBy Prod.fst verdict verdicts) rest).on id = verdicts.on id
    rw [ih h.2, Verdicts.on_putBy, if_neg (Ne.symm h.1)]

theorem Verdicts.on_note_of_mem (hnodup : (new.map Prod.fst).Nodup) (h : (id, b) ∈ new) :
    (verdicts.note new).on id = b := by
  -- no later one of the new verdicts is on the same task
  induction new generalizing verdicts with
  | nil => cases h
  | cons verdict rest ih =>
    obtain ⟨hfresh, hnodup⟩ := List.nodup_cons.mp hnodup
    show (Verdicts.note (putBy Prod.fst verdict verdicts) rest).on id = b
    rcases List.mem_cons.mp h with rfl | h
    · rw [Verdicts.on_note_of_notMem hfresh, Verdicts.on_putBy, if_pos rfl]
    · exact ih hnodup h

/-- No task is added by a verdict on a task that has one. -/
theorem Verdicts.ids_note (h : new.map Prod.fst ⊆ verdicts.map Prod.fst) :
    (verdicts.note new).map Prod.fst = verdicts.map Prod.fst := by
  induction new generalizing verdicts with
  | nil => rfl
  | cons verdict rest ih =>
    obtain ⟨hfirst, hrest⟩ := List.cons_subset.mp h
    have hids := map_key_putBy_of_mem hfirst
    show (Verdicts.note (putBy Prod.fst verdict verdicts) rest).map Prod.fst = _
    rw [ih (hids ▸ hrest), hids]

/-- Where each task has one verdict, it is the one that is found. -/
theorem Verdicts.on_of_mem (hnodup : (verdicts.map Prod.fst).Nodup) (h : (id, b) ∈ verdicts) :
    verdicts.on id = b := by
  unfold Verdicts.on
  rw [(find?_key_eq_some_iff hnodup).mpr ⟨h, rfl⟩]
  rfl

theorem Verdicts.mem_of_on (h : verdicts.on id = true) : (id, true) ∈ verdicts := by
  unfold Verdicts.on at h
  cases hfind : verdicts.find? (·.1 == id) with
  | none =>
    rw [hfind] at h
    cases h
  | some verdict =>
    rw [hfind] at h
    have hid : verdict.1 = id := by simpa using List.find?_some hfind
    have hverdict : verdict.2 = true := h
    have heq : (id, true) = verdict := Prod.ext hid.symm hverdict.symm
    rw [heq]
    exact List.mem_of_find?_eq_some hfind

theorem childVerdicts_ids (able : Bool) (limit rank : Nat) (children : List Task) :
    (childVerdicts able limit rank children).map Prod.fst = children.map Task.id := by
  induction children generalizing rank with
  | nil => rfl
  | cons child rest ih =>
    unfold childVerdicts
    split
    · rw [List.map_cons, List.map_cons, ih]
    · rw [List.map_cons, List.map_cons, ih]

/-- A child is judged by the number of eligible ones before it. -/
theorem mem_childVerdicts (able : Bool) (limit rank : Nat) (front back : List Task) :
    (t.id, t.isEligible && (able &&
        (limit == 0 || decide (rank + front.countP Task.isEligible < limit)))) ∈
      childVerdicts able limit rank (front ++ t :: back) := by
  induction front generalizing rank with
  | nil =>
    rw [List.nil_append, childVerdicts, List.countP_nil, Nat.add_zero]
    by_cases ht : t.isEligible = true
    · rw [if_pos ht, ht, Bool.true_and]
      exact List.mem_cons_self
    · rw [if_neg ht, Bool.eq_false_iff.mpr ht, Bool.false_and]
      exact List.mem_cons_self
  | cons child front ih =>
    rw [List.cons_append, childVerdicts]
    by_cases hchild : child.isEligible = true
    · -- an eligible child takes one place of the limit
      have hcount : rank + (child :: front).countP Task.isEligible =
          rank + 1 + front.countP Task.isEligible := by
        rw [List.countP_cons_of_pos hchild]
        omega
      rw [if_pos hchild, hcount]
      exact List.mem_cons_of_mem _ (ih (rank + 1))
    · rw [if_neg hchild, List.countP_cons_of_neg hchild]
      exact List.mem_cons_of_mem _ (ih rank)

end verdicts

/-! ## Section 3: Children in manual order -/

theorem mem_children_iff (hp : p ∈ tree.tasks) :
    t ∈ tree.children (some p.id) ↔ t ∈ tree.tasks ∧ tree.parent? t = some p := by
  rw [mem_children, parent?_eq_some_iff]
  exact and_congr_right fun _ => (and_iff_left hp).symm

/-- The rank of a child is the number of eligible children listed before it. -/
theorem rank_eq_countP {front back : List Task} (h : tree.children (some id) = front ++ t :: back) :
    tree.rank t = front.countP Task.isEligible := by
  have hmem : t ∈ tree.children (some id) := by
    rw [h]
    exact List.mem_append_right _ List.mem_cons_self
  have hparent : t.parent = some id := (mem_children.mp hmem).2
  have hperm : (tree.children (some id)).Perm (tree.tasks.filter (·.parent == some id)) := by
    rw [children_eq_sort]
    exact Task.sort_perm _
  have hstrict := tree.children_strict (some id)
  rw [h] at hstrict
  -- the rank counts over the whole tree, in whatever order; only the siblings in front count
  calc tree.rank t
      = (tree.tasks.filter (·.parent == some id)).countP
          (fun s => s.isEligible && decide (s.StandsBefore t)) := by
        unfold rank
        rw [List.countP_filter, hparent]
        congr 1
        funext s
        rw [Bool.and_assoc, Bool.and_comm]
    _ = (tree.children (some id)).countP (fun s => s.isEligible && decide (s.StandsBefore t)) :=
        (hperm.countP_eq _).symm
    _ = ((front ++ t :: back).filter fun s => decide (s.StandsBefore t)).countP Task.isEligible := by
        rw [h, List.countP_filter]
    _ = front.countP Task.isEligible := by rw [Task.filter_before hstrict]

theorem eligibleChildren_strict (tree : Tree) (parent : Task) :
    (tree.eligibleChildren parent).Pairwise Task.StandsBefore :=
  (tree.children_strict (some parent.id)).sublist List.filter_sublist

/-- Among the eligible children each stands in the place that its rank says. -/
theorem getElem?_rank (h : t ∈ tree.children (some p.id)) (heligible : t.isEligible = true) :
    (tree.eligibleChildren p)[tree.rank t]? = some t := by
  obtain ⟨front, back, hsplit⟩ := List.append_of_mem h
  have hlength : tree.rank t = (front.filter Task.isEligible).length := by
    rw [rank_eq_countP hsplit, List.countP_eq_length_filter]
  unfold eligibleChildren
  rw [hsplit, List.filter_append, List.filter_cons_of_pos heligible, hlength,
    List.getElem?_append_right (Nat.le_refl _), Nat.sub_self]
  rfl

/-- The verdict on a child, in the words of the rule. -/
theorem on_childVerdicts {verdicts : Verdicts} (hchild : t ∈ tree.children (some p.id))
    (able : Bool) :
    (verdicts.note (childVerdicts able p.sequentialLimit 0 (tree.children (some p.id)))).on t.id =
      true ↔ t.isEligible = true ∧ able = true ∧ tree.WithinLimit p t := by
  obtain ⟨front, back, hsplit⟩ := List.append_of_mem hchild
  have hnodup : ((childVerdicts able p.sequentialLimit 0
      (tree.children (some p.id))).map Prod.fst).Nodup := by
    rw [childVerdicts_ids, children_eq_sort]
    exact ((Task.sort_perm _).map Task.id).nodup_iff.mpr
      (tree.tasks_nodup.sublist (List.filter_sublist.map Task.id))
  have hmem := mem_childVerdicts (t := t) able p.sequentialLimit 0 front back
  rw [← hsplit] at hmem
  rw [Verdicts.on_note_of_mem hnodup hmem, ← rank_eq_countP hsplit]
  simp [WithinLimit]

/-! ## Section 4: From the top down -/

/-- What holds whenever a task is taken from the stack.  A task has been reached when it stands
    on the stack or its children have been judged; its verdict is then the last one. -/
structure Judged (tree : Tree) (left stack : List Task) (verdicts : Verdicts) : Prop where
  nodup    : left.Nodup
  ids      : verdicts.map Prod.fst = tree.tasks.map Task.id
  present  : ∀ t ∈ stack, t ∈ tree.tasks
  /-- No task is judged too well at any time. -/
  sound    : ∀ t ∈ tree.tasks, verdicts.on t.id = true → tree.Actionable t
  complete : ∀ t, tree.Actionable t → (t ∈ left → t ∈ stack) → verdicts.on t.id = true
  tops     : ∀ t ∈ tree.tasks, tree.isTop t = true → t ∈ left → t ∈ stack
  children : ∀ t ∈ tree.tasks, ∀ p, tree.parent? t = some p → p ∉ left → t ∈ left → t ∈ stack

section judging
variable {left stack : List Task} {verdicts : Verdicts}

/-- A task that comes up again changes nothing. -/
theorem Judged.pass (h : tree.Judged left (task :: stack) verdicts) (htask : task ∉ left) :
    tree.Judged left stack verdicts := by
  have hreached {t : Task} (ht : t ∈ left → t ∈ task :: stack) : t ∈ left → t ∈ stack := by
    intro hleft
    rcases List.mem_cons.mp (ht hleft) with rfl | hstack
    · exact absurd hleft htask
    · exact hstack
  refine ⟨h.nodup, h.ids, ?_, h.sound, ?_, ?_, ?_⟩
  · intro t ht
    exact h.present t (List.mem_cons_of_mem _ ht)
  · intro t ht ht'
    exact h.complete t ht fun hleft => List.mem_cons_of_mem _ (ht' hleft)
  · intro t ht htop
    exact hreached (h.tops t ht htop)
  · intro t ht p hp hp'
    exact hreached (h.children t ht p hp hp')

/-- The verdicts on the children of a task from the stack are the last ones on them. -/
theorem Judged.visit (h : tree.Judged left (task :: stack) verdicts) :
    tree.Judged (left.erase task) ((tree.children (some task.id)).reverse ++ stack)
      (verdicts.note (childVerdicts (verdicts.on task.id) task.sequentialLimit 0
        (tree.children (some task.id)))) := by
  have hpresent : task ∈ tree.tasks := h.present task List.mem_cons_self
  -- the task stands on the stack, so its own verdict agrees with the rule
  have hable : verdicts.on task.id = true ↔ tree.Actionable task :=
    ⟨h.sound task hpresent, fun ht => h.complete task ht fun _ => List.mem_cons_self⟩
  have hchild {t : Task} (ht : t ∈ tree.children (some task.id)) :
      (verdicts.note (childVerdicts (verdicts.on task.id) task.sequentialLimit 0
        (tree.children (some task.id)))).on t.id = true ↔ tree.Actionable t := by
    obtain ⟨htree, hlink⟩ := (mem_children_iff hpresent).mp ht
    rw [on_childVerdicts ht, actionable_iff_of_parent htree hlink, hable]
  have hother {t : Task} (htree : t ∈ tree.tasks) (ht : t ∉ tree.children (some task.id)) :
      (verdicts.note (childVerdicts (verdicts.on task.id) task.sequentialLimit 0
        (tree.children (some task.id)))).on t.id = verdicts.on t.id := by
    apply Verdicts.on_note_of_notMem
    rw [childVerdicts_ids]
    intro hid
    obtain ⟨c, hc, hid⟩ := List.mem_map.mp hid
    rw [eq_of_id_eq (mem_children.mp hc).1 htree hid] at hc
    exact ht hc
  -- but for the children, what has been reached now had been reached before
  have hreached {t : Task} (ht : t ∈ left → t ∈ task :: stack) :
      t ∈ left.erase task → t ∈ (tree.children (some task.id)).reverse ++ stack := by
    intro hleft
    obtain ⟨hne, hleft⟩ := h.nodup.mem_erase_iff.mp hleft
    exact List.mem_append_right _ (List.mem_of_ne_of_mem hne (ht hleft))
  refine ⟨h.nodup.erase task, ?_, ?_, ?_, ?_, ?_, ?_⟩
  · rw [Verdicts.ids_note, h.ids]
    rw [childVerdicts_ids, h.ids]
    intro id hid
    obtain ⟨c, hc, rfl⟩ := List.mem_map.mp hid
    exact List.mem_map_of_mem (mem_children.mp hc).1
  · intro t ht
    rcases List.mem_append.mp ht with ht | ht
    · exact (mem_children.mp (List.mem_reverse.mp ht)).1
    · exact h.present t (List.mem_cons_of_mem _ ht)
  · intro t htree hon
    by_cases ht : t ∈ tree.children (some task.id)
    · exact (hchild ht).mp hon
    · rw [hother htree ht] at hon
      exact h.sound t htree hon
  · intro t hable ht'
    by_cases ht : t ∈ tree.children (some task.id)
    · exact (hchild ht).mpr hable
    · rw [hother hable.present ht]
      refine h.complete t hable ?_
      intro hleft
      by_cases heq : t = task
      · rw [heq]
        exact List.mem_cons_self
      · have herase : t ∈ left.erase task := (List.mem_erase_of_ne heq).mpr hleft
        rcases List.mem_append.mp (ht' herase) with hmem | hmem
        · exact absurd (List.mem_reverse.mp hmem) ht
        · exact List.mem_cons_of_mem _ hmem
  · intro t ht htop
    exact hreached (h.tops t ht htop)
  · intro t ht p hp hp'
    by_cases heq : p = task
    · -- all children of the task stand on the stack now
      intro _
      rw [heq] at hp
      have hmem := (mem_children_iff hpresent).mpr ⟨ht, hp⟩
      exact List.mem_append_left _ (List.mem_reverse.mpr hmem)
    · exact hreached (h.children t ht p hp fun hleft => hp' ((List.mem_erase_of_ne heq).mpr hleft))

/-- When the stack is empty every task that can be worked on has been reached. -/
theorem Judged.notMem_left (h : tree.Judged left [] verdicts) (ht : tree.Actionable t) :
    t ∉ left := by
  induction ht with
  | top present _ atTop => exact fun hleft => List.not_mem_nil (h.tops _ present atTop hleft)
  | child present _ link _ _ ih =>
    exact fun hleft => List.not_mem_nil (h.children _ present _ link ih hleft)

theorem Judged.judgeFrom (h : tree.Judged left stack verdicts) :
    (tree.judgeFrom left stack verdicts).map Prod.fst = tree.tasks.map Task.id ∧
      ∀ t ∈ tree.tasks,
        (tree.judgeFrom left stack verdicts).on t.id = true ↔ tree.Actionable t := by
  -- along the run; what it has not reached at its end does not satisfy the rule
  fun_induction Tree.judgeFrom tree left stack verdicts with
  | case1 left verdicts =>
    refine ⟨h.ids, ?_⟩
    intro t ht
    exact ⟨h.sound t ht, fun hable => h.complete t hable fun hleft =>
      absurd hleft (h.notMem_left hable)⟩
  | case2 left verdicts task stack _ children ih => exact ih h.visit
  | case3 left verdicts task stack htask ih => exact ih (h.pass htask)

end judging

theorem map_fst_verdicts (f : Task → Bool) (l : List Task) :
    (l.map fun t => (t.id, f t)).map Prod.fst = l.map Task.id := by
  rw [List.map_map]
  rfl

theorem on_unreached (l : List Task) (id : TaskId) :
    Verdicts.on (l.map fun t => (t.id, false)) id = false := by
  unfold Verdicts.on
  rw [List.find?_map]
  cases l.find? _ <;> rfl

/-- The first verdicts: a task at the top is judged by itself, any other as if it were never
    reached. -/
theorem on_first (ht : t ∈ tree.tasks) :
    (Verdicts.note (tree.tasks.map fun t => (t.id, false))
      ((tree.tasks.filter tree.isTop).map fun t => (t.id, t.isEligible))).on t.id =
        (tree.isTop t && t.isEligible) := by
  cases hat : tree.isTop t with
  | true =>
    rw [Bool.true_and]
    apply Verdicts.on_note_of_mem
    · rw [map_fst_verdicts]
      exact tree.tasks_nodup.sublist (List.filter_sublist.map Task.id)
    · exact List.mem_map.mpr ⟨t, List.mem_filter.mpr ⟨ht, hat⟩, rfl⟩
  | false =>
    rw [Bool.false_and, Verdicts.on_note_of_notMem, on_unreached]
    rw [map_fst_verdicts]
    intro hid
    obtain ⟨s, hs, hid⟩ := List.mem_map.mp hid
    obtain ⟨hs, hat'⟩ := List.mem_filter.mp hs
    rw [eq_of_id_eq hs ht hid, hat] at hat'
    cases hat'

/-- The run starts with nothing judged but the tasks at the top, which all stand on the stack. -/
theorem judged_first (tree : Tree) :
    tree.Judged tree.tasks (tree.tasks.filter tree.isTop).reverse
      (Verdicts.note (tree.tasks.map fun t => (t.id, false))
        ((tree.tasks.filter tree.isTop).map fun t => (t.id, t.isEligible))) := by
  have hstack {t : Task} (ht : t ∈ tree.tasks) :
      t ∈ (tree.tasks.filter tree.isTop).reverse ↔ tree.isTop t = true := by
    rw [List.mem_reverse, List.mem_filter]
    exact and_iff_right ht
  refine ⟨List.Nodup.of_map Task.id tree.tasks_nodup, ?_, ?_, ?_, ?_, ?_, ?_⟩
  · rw [Verdicts.ids_note, map_fst_verdicts]
    rw [map_fst_verdicts, map_fst_verdicts]
    exact (List.filter_sublist.map Task.id).subset
  · intro t ht
    exact List.mem_of_mem_filter (List.mem_reverse.mp ht)
  · intro t ht hon
    rw [on_first ht, Bool.and_eq_true] at hon
    exact Actionable.top ht hon.2 hon.1
  · intro t hable hreached
    have hat := (hstack hable.present).mp (hreached hable.present)
    rw [on_first hable.present, hat, hable.eligible]
    rfl
  · intro t ht hat _
    exact (hstack ht).mpr hat
  · -- every task is left, so none has had its children judged
    intro t _ p hp hleft
    exact absurd (parent?_eq_some_iff.mp hp).2 hleft

/-! ## Section 5: The verdicts by the rule -/

theorem actionability_ids (tree : Tree) :
    tree.actionability.map Prod.fst = tree.tasks.map Task.id :=
  tree.judged_first.judgeFrom.1

/-- The verdict on a task is what the rule says. -/
theorem isActionableId_iff (ht : t ∈ tree.tasks) :
    tree.isActionableId t.id = true ↔ tree.Actionable t :=
  tree.judged_first.judgeFrom.2 t ht

theorem isActionableId_iff_exists :
    tree.isActionableId id = true ↔ ∃ t, tree.get? id = some t ∧ tree.Actionable t := by
  constructor
  · intro h
    -- an id with a verdict is that of a task
    have hmem : id ∈ tree.actionability.map Prod.fst :=
      List.mem_map_of_mem (Verdicts.mem_of_on h)
    rw [actionability_ids] at hmem
    obtain ⟨t, ht, rfl⟩ := List.mem_map.mp hmem
    exact ⟨t, mem_tasks_iff.mp ht, (isActionableId_iff ht).mp h⟩
  · intro h
    obtain ⟨t, hget, hable⟩ := h
    rw [← id_of_get? hget]
    exact (isActionableId_iff hable.present).mpr hable

/-- There is one verdict for each task, in the order of the tree. -/
theorem actionability_eq (tree : Tree) :
    tree.actionability = tree.tasks.map fun t => (t.id, tree.isActionableId t.id) := by
  have hnodup : (tree.actionability.map Prod.fst).Nodup := by
    rw [actionability_ids]
    exact tree.tasks_nodup
  have hverdict : ∀ verdict ∈ tree.actionability,
      (verdict.1, tree.isActionableId verdict.1) = verdict := by
    intro verdict h
    exact Prod.ext rfl (Verdicts.on_of_mem hnodup h)
  calc tree.actionability
      = tree.actionability.map fun verdict => (verdict.1, tree.isActionableId verdict.1) := by
        rw [List.map_congr_left hverdict, List.map_id']
    _ = (tree.actionability.map Prod.fst).map fun id => (id, tree.isActionableId id) := by
        rw [List.map_map]
        rfl
    _ = tree.tasks.map fun t => (t.id, tree.isActionableId t.id) := by
        rw [actionability_ids, List.map_map]
        rfl

theorem actionableIds_eq (tree : Tree) :
    tree.actionableIds = (tree.tasks.filter fun t => tree.isActionableId t.id).map Task.id := by
  unfold actionableIds
  rw [actionability_eq, List.filter_map, List.map_map]
  rfl

/-- Of the children of a task that can be worked on those can be, too, for which its limit has
    room: the first eligible ones. -/
theorem filter_isActionableId_children (hp : tree.Actionable p) (hlimit : 0 < p.sequentialLimit) :
    (tree.children (some p.id)).filter (fun t => tree.isActionableId t.id) =
      (tree.eligibleChildren p).take p.sequentialLimit := by
  apply filter_eq_take
  intro front t back hsplit
  have hmem : t ∈ tree.children (some p.id) := by
    rw [hsplit]
    exact List.mem_append_right _ List.mem_cons_self
  obtain ⟨ht, hlink⟩ := (mem_children_iff hp.present).mp hmem
  rw [isActionableId_iff ht, actionable_iff_of_parent ht hlink, ← rank_eq_countP hsplit]
  have hpos : p.sequentialLimit ≠ 0 := Nat.ne_of_gt hlimit
  simp [WithinLimit, hp, hpos]

/-- **What can be worked on follows the rule.**  Each task has one verdict, and it is positive
    exactly for an eligible task that is at the top or within the limit of a parent with a
    positive verdict.  On a circle and below one all verdicts are negative.  So with a task all
    tasks above it can be worked on, and with a parent that has a limit exactly the first of its
    eligible children, as many as the limit allows. -/
theorem actionability_follows_rule (tree : Tree) :
    tree.actionability = tree.tasks.map (fun t => (t.id, tree.isActionableId t.id)) ∧
      (∀ id, id ∈ tree.actionableIds ↔ tree.isActionableId id = true) ∧
      (∀ t ∈ tree.tasks, tree.isActionableId t.id = true ↔ t.isEligible = true ∧
        (tree.parent? t = none ∨ ∃ p, tree.parent? t = some p ∧ tree.isActionableId p.id = true ∧
          (p.sequentialLimit = 0 ∨ tree.rank t < p.sequentialLimit))) ∧
      (∀ id q, tree.Within id q → tree.Below q q → tree.isActionableId id = false) ∧
      (∀ s ∈ tree.tasks, ∀ id, tree.isActionableId id = true → tree.Below id s.id →
        tree.isActionableId s.id = true) ∧
      ∀ p ∈ tree.tasks, tree.isActionableId p.id = true → 0 < p.sequentialLimit →
        (tree.children (some p.id)).filter (fun t => tree.isActionableId t.id) =
          (tree.eligibleChildren p).take p.sequentialLimit := by
  refine ⟨tree.actionability_eq, ?_, ?_, ?_, ?_, ?_⟩
  · intro id
    rw [actionableIds_eq, List.mem_map]
    constructor
    · intro h
      obtain ⟨t, ht, rfl⟩ := h
      exact (List.mem_filter.mp ht).2
    · intro h
      obtain ⟨t, hget, -⟩ := isActionableId_iff_exists.mp h
      obtain rfl := id_of_get? hget
      exact ⟨t, List.mem_filter.mpr ⟨mem_of_get? hget, h⟩, rfl⟩
  · intro t ht
    rw [isActionableId_iff ht]
    cases hlink : tree.parent? t with
    | none => simp [actionable_iff_of_isTop ht (isTop_eq_true_iff.mpr hlink)]
    | some p =>
      rw [actionable_iff_of_parent ht hlink,
        ← isActionableId_iff (parent?_eq_some_iff.mp hlink).2]
      simp [WithinLimit]
  · intro id q hwithin hcircle
    by_contra hverdict
    obtain ⟨t, hget, hable⟩ :=
      isActionableId_iff_exists.mp (Bool.eq_true_of_not_eq_false hverdict)
    obtain rfl := id_of_get? hget
    exact (rooted_iff hget).mp hable.rooted q hwithin hcircle
  · intro s hs id hverdict hbelow
    obtain ⟨t, hget, hable⟩ := isActionableId_iff_exists.mp hverdict
    obtain rfl := id_of_get? hget
    exact (isActionableId_iff hs).mpr (hable.of_within hs hbelow.to_reflTransGen)
  · intro p hp hable hlimit
    exact filter_isActionableId_children ((isActionableId_iff hp).mp hable) hlimit

end Agenda.Tree
