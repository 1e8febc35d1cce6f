import Agenda.Proofs.Tree.Scopes

/-! # Who stands before whom

    Keys decide which of two tasks stands first, and ids where keys are equal.  So within a
    scope any two tasks stand in an order, whatever their keys, and the tasks before and after
    one of them are those that the scope lists before and after it. -/

namespace Agenda

namespace Task

variable {s t : Task} {tasks front back : List Task}

/-- `s` has the smaller key, or the same key and the smaller id. -/
def StandsBefore (s t : Task) : Prop :=
  s.sortKey < t.sortKey ∨ s.sortKey = t.sortKey ∧ s.id < t.id

instance (s t : Task) : Decidable (s.StandsBefore t) := inferInstanceAs (Decidable (_ ∨ _))

theorem standsBefore_iff_not_le : s.StandsBefore t ↔ ¬le t s = true := by
  rw [le_refinesBy, decide_eq_true_iff, not_or, not_lt]
  constructor
  · intro h
    rcases h with hlt | ⟨heq, hid⟩
    · exact ⟨le_of_lt hlt, fun h => ne_of_gt hlt h.1⟩
    · exact ⟨le_of_eq heq, fun h => not_le_of_gt hid h.2⟩
  · intro h
    obtain ⟨hle, hid⟩ := h
    rcases lt_or_eq_of_le hle with hlt | heq
    · exact Or.inl hlt
    · exact Or.inr ⟨heq, not_le.mp fun hle => hid ⟨heq.symm, hle⟩⟩

theorem StandsBefore.asymm (h : s.StandsBefore t) : ¬t.StandsBefore s := by
  rw [standsBefore_iff_not_le] at h ⊢
  intro hst
  have htotal := le_total s t
  simp [h, hst] at htotal

theorem not_standsBefore_self (t : Task) : ¬t.StandsBefore t := fun h => h.asymm h

/-- In manual order, only tasks with one id stand at one place. -/
theorem standsBefore_of_le (hle : le s t = true) (hne : s.id ≠ t.id) : s.StandsBefore t := by
  rw [standsBefore_iff_not_le]
  exact fun hts => hne (id_eq_of_le hle hts)

/-- Of tasks with different ids each stands before all later ones in manual order. -/
theorem sort_strict (h : (tasks.map id).Nodup) : (sort tasks).Pairwise StandsBefore := by
  have hids : ((sort tasks).map id).Nodup := ((sort_perm tasks).map id).nodup_iff.mpr h
  have hboth := (sort_pairwise tasks).and (List.pairwise_map.mp hids)
  apply hboth.imp
  intro a b hab
  obtain ⟨hle, hne⟩ := hab
  exact standsBefore_of_le hle hne

section split
variable (h : (front ++ t :: back).Pairwise StandsBefore)
include h

/-- The tasks of an ordered list that stand before one of them are those listed before it. -/
theorem filter_before : (front ++ t :: back).filter (fun s => decide (s.StandsBefore t)) = front := by
  obtain ⟨-, hback, hfront⟩ := List.pairwise_append.mp h
  have hbefore : ∀ s ∈ front, s.StandsBefore t := fun s hs => hfront s hs t List.mem_cons_self
  have hafter : ∀ s ∈ t :: back, ¬s.StandsBefore t := by
    intro s hs
    rcases List.mem_cons.mp hs with rfl | hs
    · exact not_standsBefore_self s
    · exact ((List.pairwise_cons.mp hback).1 s hs).asymm
  rw [List.filter_append, List.filter_eq_self.mpr (by simpa using hbefore),
    List.filter_eq_nil_iff.mpr (by simpa using hafter), List.append_nil]

/-- Those that stand after it are those listed after it. -/
theorem filter_after : (front ++ t :: back).filter (fun s => decide (t.StandsBefore s)) = back := by
  obtain ⟨-, hback, hfront⟩ := List.pairwise_append.mp h
  have hbefore : ∀ s ∈ front, ¬t.StandsBefore s :=
    fun s hs => (hfront s hs t List.mem_cons_self).asymm
  have hafter : ∀ s ∈ back, t.StandsBefore s := (List.pairwise_cons.mp hback).1
  have hself := not_standsBefore_self t
  rw [List.filter_append, List.filter_eq_nil_iff.mpr (by simpa using hbefore), List.nil_append,
    List.filter_cons_of_neg (by simpa using hself), List.filter_eq_self.mpr (by simpa using hafter)]

end split

/-- An ordered list is cut by any of its tasks into those before it and those after it. -/
theorem exists_split (h : tasks.Pairwise StandsBefore) (ht : t ∈ tasks) :
    ∃ front back, tasks = front ++ t :: back ∧ (∀ s ∈ front, s.StandsBefore t) ∧
      ∀ s ∈ back, t.StandsBefore s := by
  obtain ⟨front, back, rfl⟩ := List.append_of_mem ht
  obtain ⟨-, hback, hfront⟩ := List.pairwise_append.mp h
  refine ⟨front, back, rfl, ?_, (List.pairwise_cons.mp hback).1⟩
  intro s hs
  exact hfront s hs t List.mem_cons_self

theorem lt_of_standsBefore {i j : Nat} (h : tasks.Pairwise StandsBefore)
    (hs : tasks[i]? = some s) (ht : tasks[j]? = some t) (hst : s.StandsBefore t) : i < j := by
  obtain ⟨hi, rfl⟩ := List.getElem?_eq_some_iff.mp hs
  obtain ⟨hj, rfl⟩ := List.getElem?_eq_some_iff.mp ht
  by_contra hle
  rcases Nat.lt_or_eq_of_le (Nat.le_of_not_lt hle) with hlt | rfl
  · exact hst.asymm (List.pairwise_iff_getElem.mp h j i hj hi hlt)
  · exact not_standsBefore_self _ hst

end Task

namespace Tree

theorem children_strict (tree : Tree) (parent : Option TaskId) :
    (tree.children parent).Pairwise Task.StandsBefore := by
  rw [children_eq_sort]
  apply Task.sort_strict
  exact tree.tasks_nodup.sublist (List.filter_sublist.map Task.id)

/-- A scope lists each of its tasks before all that it stands before. -/
theorem scope_strict (tree : Tree) (parent : Option TaskId) (project : Option ProjectId) :
    (tree.scope parent project).Pairwise Task.StandsBefore := by
  unfold scope childrenIn
  cases parent with
  | none => exact (tree.children_strict none).sublist List.filter_sublist
  | some p => exact tree.children_strict (some p)

end Tree

end Agenda
