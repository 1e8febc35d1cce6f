import Agenda.Proofs.Tree.Actionable

/-! # What finishing a task changes

    A task that is completed, or put off to some day, leaves its place within the limit of its
    parent.  Its later siblings move up by one, so one of them comes within the limit if the
    task stood within it; nothing else changes but in the subtree of the task itself
    (`finishing_blocks_nothing`). -/

namespace Agenda.Tree

/-! ## Section 1: Finished tasks -/

/-- The task has been completed or put off to some day, and is the same in all else. -/
inductive Finishes : Task → Task → Prop where
  | completed (t : Task) (time : Stamp) : Finishes t { t with completedAt := some time }
  | putOff (t : Task) : Finishes t { t with someday := true }

section finished
variable {t t' : Task} (h : Finishes t t')
include h

theorem Finishes.id_eq : t'.id = t.id := by
  cases h <;> rfl

theorem Finishes.not_isEligible : ¬t'.isEligible = true := by
  cases h <;> simp [Task.isEligible, Task.isCompleted]

end finished

/-! ## Section 2: The tree with the finished task -/

/-- The task stands within the limit of its parent, and `next` is the first sibling that does
    not. -/
def IsNext (tree : Tree) (t parent next : Task) : Prop :=
  tree.parent? t = some parent ∧ 0 < parent.sequentialLimit ∧
    (∃ i < parent.sequentialLimit, (tree.eligibleChildren parent)[i]? = some t) ∧
    (tree.eligibleChildren parent)[parent.sequentialLimit]? = some next

theorem putBy_append {α κ : Type} [DecidableEq κ] {key : α → κ} {a b : α} {front back : List α}
    (hfront : ∀ c ∈ front, key c ≠ key a) (hkey : key b = key a) :
    putBy key a (front ++ b :: back) = front ++ a :: back := by
  induction front with
  | nil =>
    show (if key b = key a then a :: back else _) = a :: back
    rw [if_pos hkey]
  | cons c front ih =>
    obtain ⟨hc, hfront⟩ := List.forall_mem_cons.mp hfront
    show (if key c = key a then _ else c :: putBy key a (front ++ b :: back)) = _
    rw [if_neg hc, ih hfront]
    rfl

section put
variable {tree : Tree} {t t' x p next : Task} {id : TaskId} (h : Finishes t t')
include h

theorem mem_put_of_ne (hx : x ∈ tree.tasks) (hid : x.id ≠ t.id) : x ∈ (tree.put t').tasks :=
  mem_put.mpr (Or.inr ⟨hx, by rwa [h.id_eq]⟩)

/-- An eligible task is not the finished one, so it has not changed. -/
theorem mem_of_mem_put (hx : x ∈ (tree.put t').tasks) (heligible : x.isEligible = true) :
    x ∈ tree.tasks ∧ x.id ≠ t.id := by
  rcases mem_put.mp hx with rfl | ⟨hx, hid⟩
  · exact absurd heligible h.not_isEligible
  · rw [h.id_eq] at hid
    exact ⟨hx, hid⟩

theorem parent?_put_of_ne (hid : p.id ≠ t.id) :
    (tree.put t').parent? x = some p ↔ tree.parent? x = some p := by
  rw [parent?_eq_some_iff, parent?_eq_some_iff, mem_put, h.id_eq]
  have hne : p ≠ t' := by
    rintro rfl
    exact hid h.id_eq
  simp [hne, hid]

section present
variable (ht : t ∈ tree.tasks)
include ht

/-- The finished task stands in the place of the task. -/
theorem exists_put_tasks : ∃ front back, tree.tasks = front ++ t :: back ∧
    (tree.put t').tasks = front ++ t' :: back := by
  obtain ⟨front, back, hsplit⟩ := List.append_of_mem ht
  refine ⟨front, back, hsplit, ?_⟩
  have hids := tree.tasks_nodup
  rw [hsplit, List.map_append, List.nodup_append] at hids
  have hfront : ∀ s ∈ front, s.id ≠ t'.id := by
    intro s hs
    rw [h.id_eq]
    exact hids.2.2 s.id (List.mem_map_of_mem hs) t.id List.mem_cons_self
  show putBy Task.id t' tree.tasks = _
  rw [hsplit]
  exact putBy_append hfront h.id_eq.symm

/-- The task counts in the rank of a sibling after it, and once finished it does not. -/
theorem rank_eq_rank_put (x : Task) : tree.rank x = (tree.put t').rank x +
    if t.parent = x.parent ∧ t.isEligible = true ∧ t.StandsBefore x then 1 else 0 := by
  obtain ⟨front, back, htasks, hput⟩ := exists_put_tasks h ht
  have hnot := Bool.eq_false_iff.mpr h.not_isEligible
  unfold rank
  rw [htasks, hput, List.countP_append, List.countP_append, List.countP_cons, List.countP_cons]
  simp only [hnot, Bool.and_false, Bool.false_and, Bool.false_eq_true, if_false, Bool.and_eq_true,
    beq_iff_eq, decide_eq_true_eq, and_assoc]
  omega

theorem isTop_put (x : Task) : (tree.put t').isTop x = tree.isTop x := by
  unfold isTop parent?
  cases x.parent with
  | none => rfl
  | some q =>
    rw [Option.bind_some, Option.bind_some, get?_put]
    by_cases hq : t'.id = q
    · rw [if_pos hq, ← hq, h.id_eq, mem_tasks_iff.mp ht]
      rfl
    · rw [if_neg hq]

/-! ## Section 3: What goes on -/

/-- Outside of the subtree of the task ranks only fall, so what could be worked on still can. -/
theorem Actionable.put (hx : tree.Actionable x) (hout : ¬tree.Within x.id t.id) :
    (tree.put t').Actionable x := by
  have hne {s : Task} (hs : ¬tree.Within s.id t.id) : s.id ≠ t.id := by
    intro hid
    exact hs (within_iff.mpr (Or.inl hid))
  induction hx with
  | top present eligible atTop =>
    refine Actionable.top (mem_put_of_ne h present (hne hout)) eligible ?_
    rw [isTop_put h ht]
    exact atTop
  | @child x p present eligible link _ within ih =>
    have hlink : tree.LinksTo x.id p.id :=
      ⟨x, mem_tasks_iff.mp present, (parent?_eq_some_iff.mp link).1⟩
    -- the parent stands outside of the subtree, too
    have hp : ¬tree.Within p.id t.id := fun hp => hout (Relation.ReflTransGen.head hlink hp)
    have hrank := rank_eq_rank_put h ht x
    refine Actionable.child (mem_put_of_ne h present (hne hout)) eligible
      ((parent?_put_of_ne h (hne hp)).mpr link) (ih hp) ?_
    unfold WithinLimit at within ⊢
    omega

/-! ## Section 4: What moves up -/

/-- What can be worked on only now stands in the subtree of the sibling that has moved up. -/
theorem exists_isNext (hx : (tree.put t').Actionable x) (hnot : ¬tree.Actionable x) :
    ∃ p next, tree.IsNext t p next ∧ tree.Within x.id next.id := by
  induction hx with
  | top present eligible atTop =>
    obtain ⟨hx, -⟩ := mem_of_mem_put h present eligible
    rw [isTop_put h ht] at atTop
    exact absurd (Actionable.top hx eligible atTop) hnot
  | @child x p present eligible link able within ih =>
    obtain ⟨hx, -⟩ := mem_of_mem_put h present eligible
    obtain ⟨hp, hpid⟩ := mem_of_mem_put h able.present able.eligible
    have hlink : tree.parent? x = some p := (parent?_put_of_ne h hpid).mp link
    by_cases hable : tree.Actionable p
    · -- the parent could be worked on before, so it is the limit that has room only now
      have hfull : ¬tree.WithinLimit p x := by
        intro hwithin
        exact hnot (Actionable.child hx eligible hlink hable hwithin)
      have hrank := rank_eq_rank_put h ht x
      unfold WithinLimit at hfull within
      have hcounts : t.parent = x.parent ∧ t.isEligible = true ∧ t.StandsBefore x := by
        by_contra hcounts
        rw [if_neg hcounts] at hrank
        omega
      rw [if_pos hcounts] at hrank
      have hlimit : tree.rank x = p.sequentialLimit := by omega
      obtain ⟨hparent, heligible, hbefore⟩ := hcounts
      have hlinkt : tree.parent? t = some p := by
        rw [parent?_eq_some_iff, hparent]
        exact parent?_eq_some_iff.mp hlink
      have hplace := getElem?_rank ((mem_children_iff hp).mpr ⟨ht, hlinkt⟩) heligible
      have hplacex := getElem?_rank ((mem_children_iff hp).mpr ⟨hx, hlink⟩) eligible
      have hlt := Task.lt_of_standsBefore (tree.eligibleChildren_strict p) hplace hplacex hbefore
      rw [hlimit] at hplacex hlt
      refine ⟨p, x, ⟨hlinkt, by omega, ⟨_, hlt, hplace⟩, hplacex⟩, ?_⟩
      exact Relation.ReflTransGen.refl
    · -- the parent can be worked on only now itself
      obtain ⟨q, next, hnext, hwithin⟩ := ih hable
      have hup : tree.LinksTo x.id p.id :=
        ⟨x, mem_tasks_iff.mp hx, (parent?_eq_some_iff.mp hlink).1⟩
      exact ⟨q, next, hnext, Relation.ReflTransGen.head hup hwithin⟩

/-- The sibling that has moved up can be worked on now, if the parent can be. -/
theorem IsNext.actionable (hnext : tree.IsNext t p next) (hp : tree.Actionable p) :
    ¬tree.Actionable next ∧ (tree.put t').Actionable next := by
  obtain ⟨hlink, hpos, ⟨i, hi, hplace⟩, hplaceNext⟩ := hnext
  have hchild {s : Task} {j : Nat} (hs : (tree.eligibleChildren p)[j]? = some s) :
      (s ∈ tree.tasks ∧ tree.parent? s = some p) ∧ s.isEligible = true := by
    have hmem := List.mem_filter.mp (List.mem_of_getElem? hs)
    exact ⟨(mem_children_iff hp.present).mp hmem.1, hmem.2⟩
  obtain ⟨-, heligible⟩ := hchild hplace
  obtain ⟨⟨hmemNext, hlinkNext⟩, heligibleNext⟩ := hchild hplaceNext
  have hstrict := tree.eligibleChildren_strict p
  have hbefore : t.StandsBefore next := by
    obtain ⟨hi', rfl⟩ := List.getElem?_eq_some_iff.mp hplace
    obtain ⟨hj', rfl⟩ := List.getElem?_eq_some_iff.mp hplaceNext
    exact List.pairwise_iff_getElem.mp hstrict _ _ hi' hj' hi
  have hrank : tree.rank next = p.sequentialLimit := by
    have hplaceRank := getElem?_rank
      ((mem_children_iff hp.present).mpr ⟨hmemNext, hlinkNext⟩) heligibleNext
    have hnodup : (tree.eligibleChildren p).Nodup := (tree.children_nodup _).filter _
    obtain ⟨hlt, -⟩ := List.getElem?_eq_some_iff.mp hplaceRank
    exact (List.getElem?_inj hlt hnodup).mp (hplaceRank.trans hplaceNext.symm)
  have hparent : t.parent = next.parent :=
    (parent?_eq_some_iff.mp hlink).1.trans (parent?_eq_some_iff.mp hlinkNext).1.symm
  have hrankPut := rank_eq_rank_put h ht next
  rw [if_pos ⟨hparent, heligible, hbefore⟩] at hrankPut
  -- a parent within the subtree of its child would stand on a circle
  have hout : ¬tree.Within p.id t.id := by
    intro hwithin
    have hup : tree.LinksTo t.id p.id :=
      ⟨t, mem_tasks_iff.mp ht, (parent?_eq_some_iff.mp hlink).1⟩
    exact hp.rooted.not_below_self (Relation.TransGen.tail' hwithin hup)
  refine ⟨?_, ?_⟩
  · rw [actionable_iff_of_parent hmemNext hlinkNext]
    unfold WithinLimit
    omega
  · have hids : t.id ≠ next.id := by
      intro hid
      obtain rfl := eq_of_id_eq ht hmemNext hid
      exact Task.not_standsBefore_self t hbefore
    have hpid : p.id ≠ t.id := fun hid => hout (within_iff.mpr (Or.inl hid))
    refine Actionable.child (mem_put_of_ne h hmemNext (Ne.symm hids)) heligibleNext
      ((parent?_put_of_ne h hpid).mpr hlinkNext) (hp.put h ht hout) ?_
    unfold WithinLimit
    omega

end present

/-- **To finish a task blocks nothing.**  What could be worked on outside of its subtree still
    can.  What can be worked on only now stands in the subtree of one sibling: the eligible one
    at the place of the parent's limit, and only if the task stood within that limit.  This
    sibling can be worked on now, if the parent can be. -/
theorem finishing_blocks_nothing (ht : t ∈ tree.tasks) :
    (∀ id, ¬tree.Within id t.id → tree.isActionableId id = true →
        (tree.put t').isActionableId id = true) ∧
      (∀ id, tree.isActionableId id = false → (tree.put t').isActionableId id = true →
        ∃ p next, tree.IsNext t p next ∧ tree.Within id next.id) ∧
      ∀ p next, tree.IsNext t p next → tree.isActionableId p.id = true →
        tree.isActionableId next.id = false ∧ (tree.put t').isActionableId next.id = true := by
  refine ⟨?_, ?_, ?_⟩
  · intro id hout hable
    obtain ⟨x, hget, hx⟩ := isActionableId_iff_exists.mp hable
    obtain rfl := id_of_get? hget
    have hput := hx.put h ht hout
    exact (isActionableId_iff hput.present).mpr hput
  · intro id hnot hable
    obtain ⟨x, hget, hx⟩ := isActionableId_iff_exists.mp hable
    obtain rfl := id_of_get? hget
    refine exists_isNext h ht hx ?_
    intro hx
    rw [(isActionableId_iff hx.present).mpr hx] at hnot
    cases hnot
  · intro p next hnext hable
    have hp := (parent?_eq_some_iff.mp hnext.1).2
    obtain ⟨hnot, hput⟩ := hnext.actionable h ht ((isActionableId_iff hp).mp hable)
    have hmem := (List.mem_filter.mp (List.mem_of_getElem? hnext.2.2.2)).1
    rw [← isActionableId_iff (mem_children.mp hmem).1, Bool.not_eq_true] at hnot
    exact ⟨hnot, (isActionableId_iff hput.present).mpr hput⟩

end put

/-- A task with two children of which it lets one be worked on. -/
def oneAtATime : Tree :=
  { tasks := [{ id := 1, sequentialLimit := 1 },
              { id := 2, sortKey := ['a', '0'], parent := some 1 },
              { id := 3, sortKey := ['a', '1'], parent := some 1 }]
    projects := []
    projects_nodup := List.nodup_nil }

theorem finishing_blocks_nothing_oneAtATime :
    ∃ first ∈ oneAtATime.tasks, Finishes first { first with someday := true } ∧ first.id = 2 ∧
      (oneAtATime.put { first with someday := true }).isActionableId 1 = true ∧
      oneAtATime.isActionableId 3 = false ∧
      (oneAtATime.put { first with someday := true }).isActionableId 3 = true := by
  let parent : Task := { id := 1, sequentialLimit := 1 }
  let first : Task := { id := 2, sortKey := ['a', '0'], parent := some 1 }
  let second : Task := { id := 3, sortKey := ['a', '1'], parent := some 1 }
  have hparent : oneAtATime.isActionableId 1 = true := by
    have hmem : parent ∈ oneAtATime.tasks := by decide
    exact (isActionableId_iff hmem).mpr (Actionable.top hmem rfl rfl)
  have hfirst : first ∈ oneAtATime.tasks := by decide
  have hchildren : oneAtATime.eligibleChildren parent = [first, second] := by
    have hsorted : oneAtATime.children (some 1) = [first, second] := Task.sort_eq_self (by decide)
    show (oneAtATime.children (some 1)).filter _ = _
    rw [hsorted]
    rfl
  have hnext : oneAtATime.IsNext first parent second := by
    refine ⟨rfl, by decide, ⟨0, by decide, ?_⟩, ?_⟩
    · rw [hchildren]
      rfl
    · rw [hchildren]
      rfl
  have hout : ¬oneAtATime.Within 1 2 := by
    rw [within_iff, below_iff_of_get? (show oneAtATime.get? 1 = some parent from rfl)]
    simp [parent]
  obtain ⟨hstays, -, hmoves⟩ := finishing_blocks_nothing (Finishes.putOff first) hfirst
  obtain ⟨hbefore, hafter⟩ := hmoves parent second hnext hparent
  exact ⟨first, hfirst, Finishes.putOff first, rfl, hstays 1 hout hparent, hbefore, hafter⟩

end Agenda.Tree
