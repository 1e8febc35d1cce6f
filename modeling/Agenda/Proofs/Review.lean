import Agenda.Proofs.Tree.Rearrangement
import Agenda.Review

/-! # The lists of a review

    Both lists are ordered by the day of the last review, one of them backward, and by manual
    order where two tasks were reviewed on one day.  No two tasks of a tree have one place in
    manual order, so the lists are the same however the tree is arranged.  They exist unless
    the interval leads out of the calendar for a task that has been reviewed
    (`lists_isOk_iff`). -/

namespace Agenda.Review

/-! ## Section 1: The orders of the lists -/

/-- The number of the day of the last review; 0 without one, for days are numbered from 1. -/
def reviewNumber (task : Task) : Nat := ((lastReview task).map Day.ordinal).getD 0

theorem day_eq_iff {x y : Day} : x = y ↔ x.ordinal = y.ordinal := by
  constructor
  · intro h
    rw [h]
  · intro h
    cases x
    cases y
    cases h
    rfl

/-- Tasks that were never reviewed have the smallest number, so they are due first. -/
theorem dueLe_refinesBy : RefinesBy reviewNumber Task.le dueLe := by
  intro a b
  unfold dueLe reviewNumber
  cases lastReview a with
  | none =>
    cases lastReview b with
    | none => simp
    | some y =>
      have hy : 0 < y.ordinal := y.pos
      simp [hy]
  | some x =>
    have hx : x.ordinal ≠ 0 := Nat.ne_of_gt x.pos
    cases lastReview b with
    | none => simp [hx]
    | some y =>
      have hlt : x < y ↔ x.ordinal < y.ordinal := Iff.rfl
      simp [hlt, day_eq_iff]

theorem newestFirst_iff {a b : Task} :
    newestFirst a b = true ↔ reviewNumber b ≤ reviewNumber a := by
  unfold newestFirst reviewNumber
  cases lastReview a with
  | none =>
    cases lastReview b with
    | none => simp
    | some y =>
      have hy : y.ordinal ≠ 0 := Nat.ne_of_gt y.pos
      simp [hy]
  | some x =>
    cases lastReview b with
    | none => simp
    | some y =>
      have hle : y ≤ x ↔ y.ordinal ≤ x.ordinal := Iff.rfl
      simp [hle]

theorem newestFirst_trans (a b c : Task) (hab : newestFirst a b = true)
    (hbc : newestFirst b c = true) : newestFirst a c = true := by
  rw [newestFirst_iff] at hab hbc ⊢
  exact hbc.trans hab

theorem newestFirst_total (a b : Task) : (newestFirst a b || newestFirst b a) = true := by
  rw [Bool.or_eq_true, newestFirst_iff, newestFirst_iff]
  exact Nat.le_total _ _

instance : Subsingleton IntervalError := ⟨fun .outOfCalendar .outOfCalendar => rfl⟩

/-! ## Section 2: The lists of a tree in another arrangement -/

section arrangements
variable {a b : Tree}

/-- Some tasks of a tree have one order that looks at the last review before manual order. -/
theorem mergeSort_eq {κ : Type} [LinearOrder κ] {key : Task → κ} {le : Task → Task → Bool}
    {kept kept' : List Task} (hle : RefinesBy key Task.le le) (hkept : kept ⊆ a.tasks)
    (hperm : kept.Perm kept') : kept.mergeSort le = kept'.mergeSort le := by
  refine hle.mergeSort_perm_eq (fun _ _ _ => Task.le_trans) Task.le_total ?_ hperm
  intro s hs t ht hst hts
  exact Tree.eq_of_id_eq (hkept hs) (hkept ht) (Task.id_eq_of_le hst hts)

variable (h : a.Rearranged b) (today : Day) (interval : Int)
include h

theorem takesPart_eq : takesPart a = takesPart b := by
  unfold takesPart
  rw [h.inArchive_eq]

theorem due_eq : due a today interval = due b today interval := by
  unfold due
  rw [takesPart_eq h]
  apply filterM_bind_congr (h.tasks.filter _)
  intro kept kept' hkept hperm
  have htasks : kept ⊆ a.tasks := List.Subset.trans hkept (List.filter_subset_self _)
  rw [mergeSort_eq dueLe_refinesBy htasks hperm]

theorem recent_eq (limit : Int) :
    recent a today interval limit = recent b today interval limit := by
  have hall : allRecent a today interval = allRecent b today interval := by
    unfold allRecent
    rw [takesPart_eq h]
    apply filterM_bind_congr (h.tasks.filter _)
    intro kept kept' hkept hperm
    have htasks : kept ⊆ a.tasks := List.Subset.trans hkept (List.filter_subset_self _)
    have hids : ∀ s ∈ kept, ∀ t ∈ kept, s.id = t.id → s = t := fun s hs t ht =>
      Tree.eq_of_id_eq (htasks hs) (htasks ht)
    rw [Tree.sort_perm_eq hids hperm]
  unfold recent
  rw [hall]

/-- The same tasks are due and were reviewed recently, in the same order. -/
theorem lists_eq : lists a today interval = lists b today interval := by
  unfold lists
  rw [due_eq h, recent_eq h]

end arrangements

/-! ## Section 3: Lists that exist -/

/-- An interval of some days reaches back to a day of the calendar if it is shorter than the
    number of the day that it ends with. -/
theorem back?_isSome_iff {today : Day} {interval : Int} (h : 1 ≤ interval) :
    (today.back? interval).isSome = true ↔ interval < today.ordinal := by
  -- the calendar is shorter than the greatest distance, so only its first day can be left
  have hlast : today.ordinal ≤ 3652059 := today.le_last
  have hordinal : (Day.ofOrdinal? (today.ordinal - interval)).isSome = true ↔
      interval < today.ordinal := by
    unfold Day.ofOrdinal?
    split
    · next hrange =>
      constructor
      · intro _
        omega
      · intro _
        rfl
    · next hrange =>
      have hmiss : ¬interval < today.ordinal := by
        intro hlt
        apply hrange
        show 1 ≤ (today.ordinal - interval).toNat ∧ (today.ordinal - interval).toNat ≤ 3652059
        omega
      simp [hmiss]
  unfold Day.back?
  split
  · exact hordinal
  · next hdistance =>
    have hmiss : ¬interval < today.ordinal := by
      intro hlt
      apply hdistance
      show interval.natAbs ≤ 999999999
      omega
    simp [hmiss]

section lists
variable {tree : Tree} {today : Day} {interval : Int} {t : Task}

theorem isDue_isOk_iff (ht : isReviewed t = true) : (∃ due, isDue today interval t = .ok due) ↔
    ((lastReview t).isSome = true → (today.back? interval).isSome = true) := by
  unfold isDue
  rw [ht]
  cases lastReview t with
  | none => simp
  | some day => cases today.back? interval <;> simp

theorem isReviewed_of_takesPart (h : takesPart tree t = true) : isReviewed t = true :=
  ((Bool.and_eq_true _ _).mp h).1

/-- **The lists of a review exist exactly if no task that takes part has been reviewed, or the
    interval stays within the calendar.** -/
theorem lists_isOk_iff : (∃ lists, Review.lists tree today interval = .ok lists) ↔
    ∀ t ∈ tree.tasks, takesPart tree t = true → (lastReview t).isSome = true →
      (today.back? interval).isSome = true := by
  have hdue : ∀ t, takesPart tree t = true → ((∃ due, isDue today interval t = .ok due) ↔
      ((lastReview t).isSome = true → (today.back? interval).isSome = true)) := by
    intro t ht
    exact isDue_isOk_iff (isReviewed_of_takesPart ht)
  constructor
  · intro h t ht hpart
    obtain ⟨lists, hlists⟩ := h
    obtain ⟨due, hok, -⟩ := bind_eq_ok_iff.mp hlists
    obtain ⟨tasks, htasks, -⟩ := bind_eq_ok_iff.mp hok
    have hall := (filterM_eq_ok_iff.mp htasks).1
    exact (hdue t hpart).mp (hall t (List.mem_filter.mpr ⟨ht, hpart⟩))
  · intro h
    have hall : ∀ t ∈ tree.tasks, takesPart tree t = true →
        ∃ due, isDue today interval t = .ok due := by
      intro t ht hpart
      exact (hdue t hpart).mpr (h t ht hpart)
    have hdueOk : ∃ due, Review.due tree today interval = .ok due := by
      refine ⟨_, bind_eq_ok_iff.mpr ⟨_, filterM_eq_ok_iff.mpr ⟨?_, rfl⟩, rfl⟩⟩
      intro t ht
      obtain ⟨ht, hpart⟩ := List.mem_filter.mp ht
      exact hall t ht hpart
    -- the second list asks the same question of fewer tasks
    have hrecentOk : ∃ recent, allRecent tree today interval = .ok recent := by
      refine ⟨_, bind_eq_ok_iff.mpr ⟨_, filterM_eq_ok_iff.mpr ⟨?_, rfl⟩, rfl⟩⟩
      intro t ht
      obtain ⟨ht, hpart⟩ := List.mem_filter.mp ht
      obtain ⟨due, hok⟩ := hall t ht ((Bool.and_eq_true _ _).mp hpart).1
      exact ⟨!due, bind_eq_ok_iff.mpr ⟨due, hok, rfl⟩⟩
    obtain ⟨due, hdueOk⟩ := hdueOk
    obtain ⟨recent, hrecentOk⟩ := hrecentOk
    have hlimited : Review.recent tree today interval recentLimit =
        .ok (limited recentLimit recent) := by
      unfold Review.recent
      rw [hrecentOk]
      rfl
    refine ⟨⟨due, limited recentLimit recent⟩, ?_⟩
    unfold Review.lists
    rw [hdueOk, hlimited]
    rfl

end lists

end Agenda.Review
