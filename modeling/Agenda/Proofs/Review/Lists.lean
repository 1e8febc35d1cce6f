import Agenda.Proofs.Review

/-! # What a review lists

    While the interval stays in the calendar, a review splits the tasks that take part in it:
    those never reviewed or last reviewed on a certain day or before are due, and the others are
    recent.  Both lists are choices from the same tasks in one order each, so with a later day
    one of them gets longer and the other one shorter, and nothing in either moves
    (`review_partition`). -/

namespace Agenda.Review

/-! ## Section 1: Orders of the lists -/

/-- `s` is looked through before `t`: the task that was never reviewed first, then the one that
    was reviewed on the earlier day, then manual order. -/
inductive DueBefore (s t : Task) : Prop where
  | unreviewed {y : Day} (hs : lastReview s = none) (ht : lastReview t = some y)
  | earlier {x y : Day} (hs : lastReview s = some x) (ht : lastReview t = some y) (h : x < y)
  | level (hday : lastReview s = lastReview t) (h : s.StandsBefore t)

/-- `s` was looked through after `t`, or on the same day and stands before it in manual order. -/
inductive RecentBefore (s t : Task) : Prop where
  | later {x y : Day} (hs : lastReview s = some x) (ht : lastReview t = some y) (h : y < x)
  | level (hday : lastReview s = lastReview t) (h : s.StandsBefore t)

section orders
variable {s t : Task} {tasks : List Task}

theorem dueBefore_of_dueLe (h : dueLe s t = true) (hne : s.id ≠ t.id) : DueBefore s t := by
  unfold dueLe at h
  -- a task without a review is due before all that have one
  cases hs : lastReview s with
  | none =>
    cases ht : lastReview t with
    | none =>
      rw [hs, ht] at h
      exact .level (hs.trans ht.symm) (Task.standsBefore_of_le h hne)
    | some y => exact .unreviewed hs ht
  | some x =>
    cases ht : lastReview t with
    | none =>
      rw [hs, ht] at h
      cases h
    | some y =>
      rw [hs, ht] at h
      rcases (Bool.or_eq_true _ _).mp h with hlt | heq
      · exact .earlier hs ht (of_decide_eq_true hlt)
      · obtain ⟨hday, hle⟩ := (Bool.and_eq_true _ _).mp heq
        have hday : x = y := eq_of_beq hday
        refine .level ?_ (Task.standsBefore_of_le hle hne)
        rw [hs, ht, hday]

theorem recentBefore_of_newestFirst (hs : (lastReview s).isSome = true)
    (ht : (lastReview t).isSome = true) (h : newestFirst s t = true)
    (hlevel : newestFirst t s = true → s.StandsBefore t) : RecentBefore s t := by
  obtain ⟨x, hx⟩ := Option.isSome_iff_exists.mp hs
  obtain ⟨y, hy⟩ := Option.isSome_iff_exists.mp ht
  -- level days are those that may come in either order
  unfold newestFirst at h hlevel
  rw [hx, hy] at h hlevel
  have hle : y.ordinal ≤ x.ordinal := of_decide_eq_true h
  rcases Nat.lt_or_eq_of_le hle with hlt | heq
  · exact .later hx hy hlt
  · have hday : y = x := day_eq_iff.mpr heq
    apply RecentBefore.level
    · rw [hx, hy, hday]
    · exact hlevel (decide_eq_true (Nat.le_of_eq heq.symm))

theorem dueLe_trans : ∀ a b c, dueLe a b = true → dueLe b c = true → dueLe a c = true :=
  dueLe_refinesBy.trans fun _ _ _ => Task.le_trans

theorem dueLe_total : ∀ a b, (dueLe a b || dueLe b a) = true :=
  dueLe_refinesBy.total Task.le_total

/-- Tasks with different ids that are sorted for review are looked through one after the
    other. -/
theorem pairwise_dueBefore (h : (tasks.map Task.id).Nodup) :
    (tasks.mergeSort dueLe).Pairwise DueBefore := by
  have hids : ((tasks.mergeSort dueLe).map Task.id).Nodup :=
    ((List.mergeSort_perm tasks dueLe).map Task.id).nodup_iff.mpr h
  have hsorted := List.pairwise_mergeSort dueLe_trans dueLe_total tasks
  apply (hsorted.and (List.pairwise_map.mp hids)).imp
  intro a b hab
  exact dueBefore_of_dueLe hab.1 hab.2

/-- Sorted by day after they were brought into manual order, the tasks of one day stay in it. -/
theorem pairwise_recentBefore (h : (tasks.map Task.id).Nodup)
    (hreviewed : ∀ t ∈ tasks, (lastReview t).isSome = true) :
    ((Task.sort tasks).mergeSort newestFirst).Pairwise RecentBefore := by
  have hstable := pairwise_mergeSort_stable newestFirst_trans newestFirst_total
    (Task.sort_strict h)
  have hmem : ∀ t ∈ (Task.sort tasks).mergeSort newestFirst, (lastReview t).isSome = true := by
    intro t ht
    exact hreviewed t (Task.mem_sort.mp (List.mem_mergeSort.mp ht))
  apply hstable.imp_of_mem
  intro a b ha hb hab
  exact recentBefore_of_newestFirst (hmem a ha) (hmem b hb) hab.1 hab.2

end orders

/-! ## Section 2: Due by a day -/

/-- Was the task never reviewed, or last reviewed on this day or before? -/
def isDueBy (latest : Day) (task : Task) : Bool := (lastReview task).all (· ≤ latest)

/-- The tasks that take part in reviews. -/
def participants (tree : Tree) : List Task := tree.tasks.filter (takesPart tree)

/-- The tasks due when `latest` is the last day of a review that is due again. -/
def dueTasks (tree : Tree) (latest : Day) : List Task :=
  ((participants tree).filter (isDueBy latest)).mergeSort dueLe

/-- The tasks that are not due then. -/
def recentTasks (tree : Tree) (latest : Day) : List Task :=
  (Task.sort ((participants tree).filter fun t => !isDueBy latest t)).mergeSort newestFirst

section lists
variable {tree : Tree} {today latest : Day} {interval : Int} {t : Task}

theorem mem_participants : t ∈ participants tree ↔
    t ∈ tree.tasks ∧ t.isCompleted = false ∧ t.parent = none ∧ tree.inArchive t = false := by
  unfold participants takesPart isReviewed Task.isRoot
  rw [List.mem_filter]
  simp [and_assoc]

theorem nodup_ids_participants (tree : Tree) : ((participants tree).map Task.id).Nodup :=
  tree.tasks_nodup.sublist (List.filter_sublist.map Task.id)

theorem isDue_eq (h : today.back? interval = some latest) (ht : isReviewed t = true) :
    isDue today interval t = .ok (isDueBy latest t) := by
  unfold isDue isDueBy
  rw [ht]
  cases lastReview t <;> simp [h]

/-- What is not due by a day has been reviewed. -/
theorem isSome_of_not_isDueBy (h : isDueBy latest t = false) : (lastReview t).isSome = true := by
  unfold isDueBy at h
  cases hday : lastReview t with
  | none =>
    rw [hday] at h
    cases h
  | some day => rfl

theorem due_eq_ok (h : today.back? interval = some latest) :
    due tree today interval = .ok ((dueTasks tree latest).map Task.id) := by
  have hdue : ∀ t ∈ participants tree, isDue today interval t = .ok (isDueBy latest t) := by
    intro t ht
    exact isDue_eq h (isReviewed_of_takesPart (List.mem_filter.mp ht).2)
  have hfilter : (participants tree).filterM (isDue today interval) =
      .ok ((participants tree).filter (isDueBy latest)) := by
    apply filterM_eq_ok_iff.mpr
    refine ⟨fun t ht => ⟨_, hdue t ht⟩, List.filter_congr fun t ht => ?_⟩
    rw [hdue t ht, comesTrue_ok]
  apply bind_eq_ok_iff.mpr
  exact ⟨_, hfilter, rfl⟩

theorem allRecent_eq_ok (h : today.back? interval = some latest) :
    allRecent tree today interval = .ok ((recentTasks tree latest).map Task.id) := by
  let test (t : Task) : Except IntervalError Bool := return !(← isDue today interval t)
  have htest : ∀ t, takesPart tree t = true → test t = .ok (!isDueBy latest t) := by
    intro t ht
    show (isDue today interval t >>= fun b => pure (!b)) = _
    rw [isDue_eq h (isReviewed_of_takesPart ht)]
    rfl
  have hfilter : (tree.tasks.filter fun t => takesPart tree t && (lastReview t).isSome).filterM
      test = .ok ((participants tree).filter fun t => !isDueBy latest t) := by
    apply filterM_eq_ok_iff.mpr
    constructor
    · intro t ht
      have hpart := ((Bool.and_eq_true _ _).mp (List.mem_filter.mp ht).2).1
      exact ⟨_, htest t hpart⟩
    · -- the test for a review leaves out nothing that passes the other test
      unfold participants
      rw [List.filter_filter, List.filter_filter]
      apply List.filter_congr
      intro t _
      cases hpart : takesPart tree t with
      | false => simp
      | true =>
        rw [htest t hpart, comesTrue_ok]
        cases hdue : isDueBy latest t with
        | false => simp [isSome_of_not_isDueBy hdue]
        | true => simp
  apply bind_eq_ok_iff.mpr
  exact ⟨_, hfilter, rfl⟩

theorem recent_eq_ok (h : today.back? interval = some latest) (limit : Nat) :
    recent tree today interval limit = .ok (((recentTasks tree latest).map Task.id).take limit) := by
  unfold recent
  rw [allRecent_eq_ok h]
  show Except.ok (limited limit _) = _
  rw [limited, if_neg (by omega), Int.toNat_natCast]

/-! ## Section 3: The lists of two days -/

/-- All who take part are due or recent. -/
theorem dueTasks_append_recentTasks_perm (tree : Tree) (latest : Day) :
    (dueTasks tree latest ++ recentTasks tree latest).Perm (participants tree) := by
  have hdue := List.mergeSort_perm ((participants tree).filter (isDueBy latest)) dueLe
  have hrecent : (recentTasks tree latest).Perm _ :=
    (List.mergeSort_perm _ newestFirst).trans (Task.sort_perm _)
  exact (hdue.append hrecent).trans (List.filter_append_perm (isDueBy latest) (participants tree))

theorem dueTasks_eq_filter (tree : Tree) (latest : Day) :
    dueTasks tree latest = ((participants tree).mergeSort dueLe).filter (isDueBy latest) :=
  (filter_mergeSort dueLe_trans dueLe_total _ _).symm

theorem recentTasks_eq_filter (tree : Tree) (latest : Day) : recentTasks tree latest =
    ((Task.sort (participants tree)).mergeSort newestFirst).filter fun t => !isDueBy latest t := by
  have htrans : ∀ a b c, Task.le a b = true → Task.le b c = true → Task.le a c = true :=
    fun _ _ _ => Task.le_trans
  unfold recentTasks Task.sort
  rw [filter_mergeSort newestFirst_trans newestFirst_total, filter_mergeSort htrans Task.le_total]

theorem isDueBy_mono {latest' : Day} (h : latest' ≤ latest) (ht : isDueBy latest' t = true) :
    isDueBy latest t = true := by
  unfold isDueBy at ht ⊢
  rw [Option.all_eq_true] at ht ⊢
  intro day hday
  have hle : day.ordinal ≤ latest'.ordinal := of_decide_eq_true (ht day hday)
  exact decide_eq_true (hle.trans h)

theorem dueTasks_sublist {latest' : Day} (h : latest' ≤ latest) :
    (dueTasks tree latest').Sublist (dueTasks tree latest) := by
  rw [dueTasks_eq_filter, dueTasks_eq_filter]
  apply List.monotone_filter_right
  intro t ht
  exact isDueBy_mono h ht

theorem recentTasks_sublist {latest' : Day} (h : latest' ≤ latest) :
    (recentTasks tree latest).Sublist (recentTasks tree latest') := by
  rw [recentTasks_eq_filter, recentTasks_eq_filter]
  apply List.monotone_filter_right
  intro t ht
  rw [Bool.not_eq_true'] at ht ⊢
  cases ht' : isDueBy latest' t with
  | false => rfl
  | true => exact (isDueBy_mono h ht').symm.trans ht

theorem ordinal_of_back? (h : today.back? interval = some latest) :
    (latest.ordinal : Int) = today.ordinal - interval := by
  unfold Day.back? Day.ofOrdinal? at h
  split at h
  · split at h
    · next hrange =>
      obtain rfl := Option.some.inj h
      show ((today.ordinal - interval).toNat : Int) = _
      omega
    · cases h
  · cases h

end lists

/-! ## Section 4: The partition -/

/-- The review of a day lists these tasks, by their ids: every open task without a parent outside
    of archived projects is in one of the lists, once, and each list has its order. -/
structure Splits (tree : Tree) (today : Day) (interval : Int) (due recent : List Task) :
    Prop where
  due_eq       : Review.due tree today interval = .ok (due.map Task.id)
  recent_eq    : Review.allRecent tree today interval = .ok (recent.map Task.id)
  limited_eq   : ∀ limit : Nat,
    Review.recent tree today interval limit = .ok ((recent.map Task.id).take limit)
  nodup        : ((due ++ recent).map Task.id).Nodup
  mem_iff      : ∀ t, t ∈ due ++ recent ↔
    t ∈ tree.tasks ∧ t.isCompleted = false ∧ t.parent = none ∧ tree.inArchive t = false
  due_order    : due.Pairwise DueBefore
  recent_order : recent.Pairwise RecentBefore

theorem splits_of_back? {tree : Tree} {today latest : Day} {interval : Int}
    (h : today.back? interval = some latest) :
    Splits tree today interval (dueTasks tree latest) (recentTasks tree latest) := by
  have hperm := dueTasks_append_recentTasks_perm tree latest
  have hids := nodup_ids_participants tree
  have hchosen (p : Task → Bool) : (((participants tree).filter p).map Task.id).Nodup :=
    hids.sublist (List.filter_sublist.map Task.id)
  refine ⟨due_eq_ok h, allRecent_eq_ok h, recent_eq_ok h, ?_, ?_, ?_, ?_⟩
  · exact (hperm.map Task.id).nodup_iff.mpr hids
  · intro t
    rw [hperm.mem_iff, mem_participants]
  · exact pairwise_dueBefore (hchosen _)
  · apply pairwise_recentBefore (hchosen _)
    intro t ht
    apply isSome_of_not_isDueBy
    simpa using (List.mem_filter.mp ht).2

/-- **A review splits the tasks that take part in it.**  They are due or recent, each once and in
    the order of its list, and a limit cuts the recent ones off behind.  With a longer interval,
    or on an earlier day, fewer are due and more are recent, and those that were so before have
    kept their order. -/
theorem review_partition (tree : Tree) {today : Day} {interval : Int}
    (h : (today.back? interval).isSome = true) :
    ∃ due recent, Splits tree today interval due recent ∧
      ∀ today' interval', today' = today ∧ interval ≤ interval' ∨
          today' ≤ today ∧ interval' = interval →
        (today'.back? interval').isSome = true →
        ∃ due' recent', Splits tree today' interval' due' recent' ∧
          due'.Sublist due ∧ recent.Sublist recent' := by
  obtain ⟨latest, hlatest⟩ := Option.isSome_iff_exists.mp h
  refine ⟨_, _, splits_of_back? hlatest, ?_⟩
  intro today' interval' hfewer h'
  obtain ⟨latest', hlatest'⟩ := Option.isSome_iff_exists.mp h'
  -- either change moves the last day of a due review back
  have hle : latest' ≤ latest := by
    have hordinal := ordinal_of_back? hlatest
    have hordinal' := ordinal_of_back? hlatest'
    show latest'.ordinal ≤ latest.ordinal
    rcases hfewer with ⟨rfl, hinterval⟩ | ⟨hday, rfl⟩
    · omega
    · have hday : today'.ordinal ≤ today.ordinal := hday
      omega
  exact ⟨_, _, splits_of_back? hlatest', dueTasks_sublist hle, recentTasks_sublist hle⟩

/-- The hundredth day of the calendar. -/
def hundredth : Day := ⟨100, by decide, by decide⟩

/-- Two tasks reviewed ten days and two days before that day, one that never was, a completed one
    and a subtask. -/
def fiveToReview : Tree :=
  { tasks :=
      [{ id := 1, reviewedAt := some (.day ⟨90, by decide, by decide⟩) },
       { id := 2, reviewedAt := some (.day ⟨98, by decide, by decide⟩) },
       { id := 3 },
       { id := 4, completedAt := some (.day hundredth) },
       { id := 5, parent := some 1 }]
    projects := []
    tasks_nodup := by decide
    projects_nodup := List.nodup_nil }

/-- After one week the first task is due, after two weeks it is recent. -/
theorem review_partition_twoWeeks :
    (hundredth.back? 7).isSome = true ∧ (hundredth.back? 14).isSome = true ∧
      ∃ due recent due' recent', Splits fiveToReview hundredth 7 due recent ∧
        Splits fiveToReview hundredth 14 due' recent' ∧ due'.Sublist due ∧
        recent.Sublist recent' := by
  have hweek : (hundredth.back? 7).isSome = true := by decide
  have hweeks : (hundredth.back? 14).isSome = true := by decide
  obtain ⟨due, recent, hsplits, hfewer⟩ := review_partition fiveToReview hweek
  obtain ⟨due', recent', hsplits', hdue, hrecent⟩ :=
    hfewer hundredth 14 (Or.inl ⟨rfl, by decide⟩) hweeks
  exact ⟨hweek, hweeks, due, recent, due', recent', hsplits, hsplits', hdue, hrecent⟩

end Agenda.Review
