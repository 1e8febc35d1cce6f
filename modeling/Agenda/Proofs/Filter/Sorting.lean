import Agenda.Filter.Sorting
import Agenda.Proofs.Tree.Order
import Agenda.Proofs.Tree.Rearrangement
import Mathlib.Data.List.Permutation
import Mathlib.Data.Sum.Order

/-! # Results in order

    Results are sorted twice, by hand and then by the values of a field, and the second sorting
    keeps the order of what is equal.  So they stand by value, up or down, and by hand where
    values are equal or missing (`Precedes`).  That is one order of all tasks with different
    ids: it does not depend on how they were arranged, and leaving some of them out changes
    nothing for the others (`results_in_order`). -/

namespace Agenda.Filter

variable {a b s : Subject} {f : Field} {o : OrderBy} {l l' : List Subject} {x y z : SortValue}
  {t u : Text} {p q : Stamp}

/-! ## Section 1: The order that results stand in -/

/-- What the clock of a stamp shows, counted from midnight; a day is its midnight. -/
def timeOfDay : Stamp → Nat
  | .day _ => 0
  | .moment m => m.micros

namespace FieldValue

/-- One value is less than another: texts in small letters, stamps by day and time of day. -/
inductive Less : FieldValue → FieldValue → Prop
  | text {t u : Text} (h : Text.lower t < Text.lower u) : Less (.text (some t)) (.text (some u))
  | day {p q : Stamp} (h : p.toDay < q.toDay) : Less (.stamp (some p)) (.stamp (some q))
  | time {p q : Stamp} (hday : p.toDay = q.toDay) (h : timeOfDay p < timeOfDay q) :
      Less (.stamp (some p)) (.stamp (some q))

/-- Two values between which the order makes no difference. -/
inductive Level : FieldValue → FieldValue → Prop
  | text {t u : Text} (h : Text.lower t = Text.lower u) : Level (.text (some t)) (.text (some u))
  | stamp {p q : Stamp} (hday : p.toDay = q.toDay) (htime : timeOfDay p = timeOfDay q) :
      Level (.stamp (some p)) (.stamp (some q))

/-- There is no value. -/
inductive Missing : FieldValue → Prop
  | text : Missing (.text none)
  | stamp : Missing (.stamp none)

variable {v w : FieldValue}

theorem Less.asymm (h : Less v w) : ¬Less w v := by
  intro h'
  cases h with
  | text h =>
    cases h' with
    | text h' => exact lt_asymm h h'
  | day h =>
    cases h' with
    | day h' => exact Nat.lt_asymm h h'
    | time hday _ => exact Nat.lt_irrefl _ (hday ▸ h)
  | time hday h =>
    cases h' with
    | day h' => exact Nat.lt_irrefl _ (hday ▸ h')
    | time _ h' => exact Nat.lt_asymm h h'

theorem Level.symm (h : Level v w) : Level w v := by
  cases h with
  | text h => exact .text h.symm
  | stamp hday htime => exact .stamp hday.symm htime.symm

theorem Level.not_less (h : Level v w) : ¬Less v w := by
  intro h'
  cases h with
  | text h =>
    cases h' with
    | text h' => exact lt_irrefl _ (h ▸ h')
  | stamp hday htime =>
    cases h' with
    | day h' => exact Nat.lt_irrefl _ (hday ▸ h')
    | time _ h' => exact Nat.lt_irrefl _ (htime ▸ h')

theorem Less.present (h : Less v w) : ¬v.Missing ∧ ¬w.Missing := by
  cases h <;> exact ⟨nofun, nofun⟩

theorem Level.present (h : Level v w) : ¬v.Missing ∧ ¬w.Missing := by
  cases h <;> exact ⟨nofun, nofun⟩

end FieldValue

/-- The one value is to come first in the direction. -/
def Direction.First : Direction → FieldValue → FieldValue → Prop
  | ascending, v, w => v.Less w
  | descending, v, w => w.Less v

/-- `a` stands before `b` in the order of a field. -/
inductive Precedes (o : OrderBy) (a b : Subject) : Prop
  | value (h : o.direction.First (a.value o.field) (b.value o.field))
  | level (h : (a.value o.field).Level (b.value o.field)) (hand : a.task.StandsBefore b.task)
  | last (ha : ¬(a.value o.field).Missing) (hb : (b.value o.field).Missing)
  | missing (ha : (a.value o.field).Missing) (hb : (b.value o.field).Missing)
      (hand : a.task.StandsBefore b.task)

/-- `a` stands before `b` in the order asked for, or by hand. -/
def Before : Option OrderBy → Subject → Subject → Prop
  | none => fun a b => a.task.StandsBefore b.task
  | some o => Precedes o

section asymmetry
variable {d : Direction} {v w : FieldValue}

theorem Direction.First.asymm (h : d.First v w) : ¬d.First w v := by
  cases d with
  | ascending => exact FieldValue.Less.asymm h
  | descending => exact FieldValue.Less.asymm h

theorem Direction.First.not_level (h : d.First v w) : ¬v.Level w := by
  intro hlevel
  cases d with
  | ascending => exact hlevel.not_less h
  | descending => exact hlevel.symm.not_less h

theorem Direction.First.present (h : d.First v w) : ¬v.Missing ∧ ¬w.Missing := by
  cases d with
  | ascending => exact FieldValue.Less.present h
  | descending => exact (FieldValue.Less.present h).symm

theorem Precedes.asymm (h : Precedes o a b) : ¬Precedes o b a := by
  intro h'
  -- each pair of reasons speaks against itself: by the values, or by who has a value at all
  cases h with
  | value h =>
    cases h' with
    | value h' => exact h.asymm h'
    | level h' _ => exact h.not_level h'.symm
    | last _ ha => exact h.present.1 ha
    | missing _ ha _ => exact h.present.1 ha
  | level h hand =>
    cases h' with
    | value h' => exact h'.not_level h.symm
    | level _ hand' => exact hand.asymm hand'
    | last _ ha => exact h.present.1 ha
    | missing _ ha _ => exact h.present.1 ha
  | last ha hb =>
    cases h' with
    | value h' => exact h'.present.1 hb
    | level h' _ => exact h'.present.1 hb
    | last hb' _ => exact hb' hb
    | missing _ ha' _ => exact ha ha'
  | missing ha hb hand =>
    cases h' with
    | value h' => exact h'.present.1 hb
    | level h' _ => exact h'.present.1 hb
    | last hb' _ => exact hb' hb
    | missing _ _ hand' => exact hand.asymm hand'

/-- No two subjects stand before each other. -/
theorem Before.asymm {orderBy : Option OrderBy} (h : Before orderBy a b) :
    ¬Before orderBy b a := by
  cases orderBy with
  | none => exact Task.StandsBefore.asymm h
  | some o => exact Precedes.asymm h

end asymmetry

/-! ## Section 2: Values by which results are sorted -/

/-- A sort value as an element of a linear order: texts stand before clock readings. -/
def SortValue.rank : SortValue → Text ⊕ₗ Nat
  | text t => Sum.inlₗ t
  | reading n => Sum.inrₗ n

theorem SortValue.rank_inj : x.rank = y.rank ↔ x = y := by
  cases x <;> cases y <;> simp [rank]

theorem SortValue.lt_iff_rank_lt : x.lt y = true ↔ x.rank < y.rank := by
  cases x <;> cases y <;> simp [rank, lt]

theorem SortValue.not_lt_iff : (!x.lt y) = true ↔ y.rank ≤ x.rank := by
  rw [Bool.not_eq_true', ← Bool.not_eq_true, lt_iff_rank_lt, not_lt]

theorem Direction.allows_trans (d : Direction) (hxy : d.allows x y = true)
    (hyz : d.allows y z = true) : d.allows x z = true := by
  cases d with
  | ascending =>
    exact SortValue.not_lt_iff.mpr
      (le_trans (SortValue.not_lt_iff.mp hxy) (SortValue.not_lt_iff.mp hyz))
  | descending =>
    exact SortValue.not_lt_iff.mpr
      (le_trans (SortValue.not_lt_iff.mp hyz) (SortValue.not_lt_iff.mp hxy))

theorem Direction.allows_total (d : Direction) (x y : SortValue) :
    (d.allows x y || d.allows y x) = true := by
  rw [Bool.or_eq_true]
  cases d with
  | ascending =>
    exact (le_total x.rank y.rank).imp SortValue.not_lt_iff.mpr SortValue.not_lt_iff.mpr
  | descending =>
    exact (le_total y.rank x.rank).imp SortValue.not_lt_iff.mpr SortValue.not_lt_iff.mpr

/-- Subjects with their values are sorted by the values. -/
theorem Direction.allows_fst_trans (d : Direction) (p q r : SortValue × Subject)
    (hpq : d.allows p.1 q.1 = true) (hqr : d.allows q.1 r.1 = true) :
    d.allows p.1 r.1 = true :=
  d.allows_trans hpq hqr

theorem Direction.allows_fst_total (d : Direction) (p q : SortValue × Subject) :
    (d.allows p.1 q.1 || d.allows q.1 p.1) = true :=
  d.allows_total p.1 q.1

theorem Direction.eq_of_allows (d : Direction) (hxy : d.allows x y = true)
    (hyx : d.allows y x = true) : x = y := by
  cases d with
  | ascending =>
    exact SortValue.rank_inj.mp
      (le_antisymm (SortValue.not_lt_iff.mp hxy) (SortValue.not_lt_iff.mp hyx))
  | descending =>
    exact SortValue.rank_inj.mp
      (le_antisymm (SortValue.not_lt_iff.mp hyx) (SortValue.not_lt_iff.mp hxy))

theorem reading_eq (p : Stamp) :
    p.toMoment.reading = p.toDay.ordinal * dayLength + timeOfDay p := by
  cases p <;> rfl

theorem timeOfDay_lt (p : Stamp) : timeOfDay p < dayLength := by
  cases p with
  | day d => exact Nat.succ_pos _
  | moment m => exact m.micros_lt

theorem toDay_inj : p.toDay = q.toDay ↔ p.toDay.ordinal = q.toDay.ordinal := by
  constructor
  · intro h
    rw [h]
  · cases hp : p.toDay
    cases hq : q.toDay
    rintro rfl
    rfl

/-- Clock readings compare by day, and by time of day on one day. -/
theorem reading_lt_iff : p.toMoment.reading < q.toMoment.reading ↔
    p.toDay < q.toDay ∨ p.toDay = q.toDay ∧ timeOfDay p < timeOfDay q := by
  have hp : timeOfDay p < 86400000000 := timeOfDay_lt p
  have hq : timeOfDay q < 86400000000 := timeOfDay_lt q
  rw [reading_eq, reading_eq, toDay_inj]
  show p.toDay.ordinal * 86400000000 + _ < q.toDay.ordinal * 86400000000 + _ ↔
    p.toDay.ordinal < q.toDay.ordinal ∨ _
  omega

theorem reading_inj : p.toMoment.reading = q.toMoment.reading ↔
    p.toDay = q.toDay ∧ timeOfDay p = timeOfDay q := by
  have hp : timeOfDay p < 86400000000 := timeOfDay_lt p
  have hq : timeOfDay q < 86400000000 := timeOfDay_lt q
  rw [reading_eq, reading_eq, toDay_inj]
  show p.toDay.ordinal * 86400000000 + _ = q.toDay.ordinal * 86400000000 + _ ↔ _
  omega

/-- A field by which results can be sorted holds a text or a stamp. -/
theorem value_of_sortable (hf : f.sortable = true) :
    (∀ s : Subject, ∃ t, s.value f = .text t) ∨ ∀ s : Subject, ∃ p, s.value f = .stamp p := by
  cases f with
  | title | project => exact Or.inl fun s => ⟨_, rfl⟩
  | dueDate | startAt | created | updated | reviewed => exact Or.inr fun s => ⟨_, rfl⟩
  | body | tags | status => cases hf

theorem sortValue_eq_none_iff (hf : f.sortable = true) :
    s.sortValue f = none ↔ (s.value f).Missing := by
  unfold Subject.sortValue
  rcases value_of_sortable hf with hvalue | hvalue
  · obtain ⟨t, ht⟩ := hvalue s
    rw [ht]
    cases t with
    | none => exact iff_of_true rfl .text
    | some t => exact iff_of_false nofun nofun
  · obtain ⟨p, hp⟩ := hvalue s
    rw [hp]
    cases p with
    | none => exact iff_of_true rfl .stamp
    | some p => exact iff_of_false nofun nofun

/-- Two sort values of one field are texts in small letters, or clock readings. -/
theorem sortValue_cases (hf : f.sortable = true) (ha : a.sortValue f = some x)
    (hb : b.sortValue f = some y) :
    (∃ t u, (a.value f = .text (some t) ∧ x = .text (Text.lower t)) ∧
      b.value f = .text (some u) ∧ y = .text (Text.lower u)) ∨
    ∃ p q, (a.value f = .stamp (some p) ∧ x = .reading p.toMoment.reading) ∧
      b.value f = .stamp (some q) ∧ y = .reading q.toMoment.reading := by
  unfold Subject.sortValue at ha hb
  rcases value_of_sortable hf with hvalue | hvalue
  · obtain ⟨t, ht⟩ := hvalue a
    obtain ⟨u, hu⟩ := hvalue b
    rw [ht] at ha
    rw [hu] at hb
    obtain ⟨t, rfl, rfl⟩ := Option.map_eq_some_iff.mp ha
    obtain ⟨u, rfl, rfl⟩ := Option.map_eq_some_iff.mp hb
    exact Or.inl ⟨t, u, ⟨ht, rfl⟩, hu, rfl⟩
  · obtain ⟨p, hp⟩ := hvalue a
    obtain ⟨q, hq⟩ := hvalue b
    rw [hp] at ha
    rw [hq] at hb
    obtain ⟨p, rfl, rfl⟩ := Option.map_eq_some_iff.mp ha
    obtain ⟨q, rfl, rfl⟩ := Option.map_eq_some_iff.mp hb
    exact Or.inr ⟨p, q, ⟨hp, rfl⟩, hq, rfl⟩

theorem less_of_lt (hf : f.sortable = true) (ha : a.sortValue f = some x)
    (hb : b.sortValue f = some y) (h : x.lt y = true) : (a.value f).Less (b.value f) := by
  rcases sortValue_cases hf ha hb with ⟨t, u, ⟨ht, rfl⟩, hu, rfl⟩ | ⟨p, q, ⟨hp, rfl⟩, hq, rfl⟩
  · rw [ht, hu]
    exact .text (of_decide_eq_true h)
  · rw [hp, hq]
    rcases reading_lt_iff.mp (of_decide_eq_true h) with hday | ⟨hday, htime⟩
    · exact .day hday
    · exact .time hday htime

theorem level_of_eq (hf : f.sortable = true) (ha : a.sortValue f = some x)
    (hb : b.sortValue f = some x) : (a.value f).Level (b.value f) := by
  rcases sortValue_cases hf ha hb with ⟨t, u, ⟨ht, rfl⟩, hu, h⟩ | ⟨p, q, ⟨hp, rfl⟩, hq, h⟩
  · rw [ht, hu]
    exact .text (SortValue.text.inj h)
  · rw [hp, hq]
    obtain ⟨hday, htime⟩ := reading_inj.mp (SortValue.reading.inj h)
    exact .stamp hday htime

/-! ## Section 3: Sorting -/

theorem Subject.le_trans (a b c : Subject) (hab : a.le b = true) (hbc : b.le c = true) :
    a.le c = true :=
  Task.le_trans hab hbc

theorem Subject.le_total (a b : Subject) : (a.le b || b.le a) = true :=
  Task.le_total a.task b.task

/-- Where the direction allows one before the other, it stands there, or they are level and
    it stands there by hand. -/
theorem precedes_of_allows (hf : o.field.sortable = true) (ha : a.sortValue o.field = some x)
    (hb : b.sortValue o.field = some y) (hallows : o.direction.allows x y = true)
    (hand : o.direction.allows y x = true → a.task.StandsBefore b.task) : Precedes o a b := by
  by_cases hback : o.direction.allows y x = true
  · obtain rfl := o.direction.eq_of_allows hallows hback
    exact .level (level_of_eq hf ha hb) (hand hback)
  · refine .value ?_
    cases hdirection : o.direction with
    | ascending =>
      have hlt : x.lt y = true := by simpa [Direction.allows, hdirection] using hback
      exact less_of_lt hf ha hb hlt
    | descending =>
      have hlt : y.lt x = true := by simpa [Direction.allows, hdirection] using hback
      exact less_of_lt hf hb ha hlt

theorem mem_withValues_iff {p : SortValue × Subject} :
    p ∈ withValues f l ↔ p.2 ∈ l ∧ p.2.sortValue f = some p.1 := by
  unfold withValues
  rw [List.mem_filterMap]
  constructor
  · intro h
    obtain ⟨s, hs, h⟩ := h
    obtain ⟨x, hx, rfl⟩ := Option.map_eq_some_iff.mp h
    exact ⟨hs, hx⟩
  · intro h
    exact ⟨p.2, h.1, Option.map_eq_some_iff.mpr ⟨p.1, h.2, rfl⟩⟩

theorem mem_withoutValue_iff : s ∈ withoutValue f l ↔ s ∈ l ∧ s.sortValue f = none := by
  unfold withoutValue
  rw [List.mem_filter, Option.isNone_iff_eq_none]

theorem map_withValues (f : Field) (l : List Subject) :
    (withValues f l).map Prod.snd = l.filter fun s => !(s.sortValue f).isNone := by
  unfold withValues
  rw [List.map_filterMap, ← List.filterMap_eq_filter]
  congr 1
  funext s
  cases hs : s.sortValue f <;> simp [hs, Option.guard]

/-- Sorting loses and repeats nothing. -/
theorem sortByField_perm (o : OrderBy) (l : List Subject) : (sortByField o l).Perm l := by
  have hsorted := (List.mergeSort_perm (withValues o.field l)
    fun a b => o.direction.allows a.1 b.1).map Prod.snd
  rw [map_withValues] at hsorted
  have hall : (sortByField o l).Perm
      (l.filter (fun s => !(s.sortValue o.field).isNone) ++ withoutValue o.field l) :=
    hsorted.append_right _
  exact hall.trans (List.perm_append_comm.trans (List.filter_append_perm _ l))

/-- What stands in manual order stands in the order of a field after it is sorted by that. -/
theorem sortByField_pairwise (hf : o.field.sortable = true)
    (h : l.Pairwise fun a b => a.task.StandsBefore b.task) :
    (sortByField o l).Pairwise (Precedes o) := by
  unfold sortByField
  rw [List.pairwise_append, List.pairwise_map]
  refine ⟨?_, ?_, ?_⟩
  · have hhand : (withValues o.field l).Pairwise
        fun p q => p.2.task.StandsBefore q.2.task := by
      rw [← List.pairwise_map (f := Prod.snd)
        (R := fun a b : Subject => a.task.StandsBefore b.task), map_withValues]
      exact h.filter _
    -- equal values stay as they stand by hand
    have hsorted := pairwise_mergeSort_stable o.direction.allows_fst_trans
      o.direction.allows_fst_total hhand
    refine hsorted.imp_of_mem ?_
    intro p q hp hq hpq
    have hp' := mem_withValues_iff.mp (List.mem_mergeSort.mp hp)
    have hq' := mem_withValues_iff.mp (List.mem_mergeSort.mp hq)
    exact precedes_of_allows hf hp'.2 hq'.2 hpq.1 hpq.2
  · refine (h.filter _).imp_of_mem ?_
    intro a b ha hb hand
    have ha' := (mem_withoutValue_iff.mp ha).2
    have hb' := (mem_withoutValue_iff.mp hb).2
    exact .missing ((sortValue_eq_none_iff hf).mp ha') ((sortValue_eq_none_iff hf).mp hb') hand
  · intro a ha b hb
    obtain ⟨p, hp, rfl⟩ := List.mem_map.mp ha
    have hp' := (mem_withValues_iff.mp (List.mem_mergeSort.mp hp)).2
    have hb' := (mem_withoutValue_iff.mp hb).2
    refine .last ?_ ((sortValue_eq_none_iff hf).mp hb')
    intro hmissing
    rw [(sortValue_eq_none_iff hf).mpr hmissing] at hp'
    cases hp'

/-! ## Section 4: Leaving out -/

theorem withValues_filter (m : Subject → Bool) (f : Field) (l : List Subject) :
    withValues f (l.filter m) = (withValues f l).filter fun p => m p.2 := by
  unfold withValues
  rw [List.filterMap_filter, List.filter_filterMap]
  congr 1
  funext s
  cases s.sortValue f <;> cases hs : m s <;> simp [hs, Option.filter]

/-- It does not matter whether subjects are left out before sorting or after it. -/
theorem sortByField_filter (m : Subject → Bool) (o : OrderBy) (l : List Subject) :
    sortByField o (l.filter m) = (sortByField o l).filter m := by
  have hsorted := filter_mergeSort o.direction.allows_fst_trans o.direction.allows_fst_total
    (fun p => m p.2) (withValues o.field l)
  have hmissing : withoutValue o.field (l.filter m) = (withoutValue o.field l).filter m :=
    List.filter_comm ..
  unfold sortByField
  rw [List.filter_append, List.filter_map, withValues_filter, ← hsorted, hmissing]
  rfl

theorem sortSubjects_filter (m : Subject → Bool) (orderBy : Option OrderBy) (l : List Subject) :
    sortSubjects orderBy (l.filter m) = (sortSubjects orderBy l).filter m := by
  have hhand := filter_mergeSort Subject.le_trans Subject.le_total m l
  cases orderBy with
  | none => exact hhand.symm
  | some o =>
    show sortByField o _ = (sortByField o _).filter m
    rw [← hhand, sortByField_filter]

/-! ## Section 5: All results -/

theorem sortSubjects_perm (orderBy : Option OrderBy) (l : List Subject) :
    (sortSubjects orderBy l).Perm l := by
  have hhand := List.mergeSort_perm l Subject.le
  cases orderBy with
  | none => exact hhand
  | some o => exact (sortByField_perm o _).trans hhand

/-- Of subjects with different ids each stands before all later ones. -/
theorem sortSubjects_pairwise {orderBy : Option OrderBy}
    (hsortable : ∀ o ∈ orderBy, o.field.sortable = true)
    (hids : (l.map fun s => s.task.id).Nodup) :
    (sortSubjects orderBy l).Pairwise (Before orderBy) := by
  have htasks : (l.mergeSort Subject.le).map Subject.task = Task.sort (l.map Subject.task) :=
    List.map_mergeSort fun _ _ _ _ => rfl
  have hhand : (l.mergeSort Subject.le).Pairwise fun a b => a.task.StandsBefore b.task := by
    rw [← List.pairwise_map (f := Subject.task), htasks]
    exact Task.sort_strict (by rwa [List.map_map])
  cases orderBy with
  | none => exact hhand
  | some o => exact sortByField_pairwise (hsortable o rfl) hhand

/-- Of two subjects with different ids one stands before the other. -/
theorem before_total {orderBy : Option OrderBy}
    (hsortable : ∀ o ∈ orderBy, o.field.sortable = true) (hne : a.task.id ≠ b.task.id) :
    Before orderBy a b ∨ Before orderBy b a := by
  have hpairwise : (sortSubjects orderBy [a, b]).Pairwise (Before orderBy) :=
    sortSubjects_pairwise hsortable (by simpa using hne)
  have hpair := sortSubjects_perm orderBy [a, b]
  obtain hpair | hpair := List.perm_pair.mp hpair
  · rw [hpair, List.pairwise_pair] at hpairwise
    exact Or.inl hpairwise
  · rw [hpair, List.pairwise_pair] at hpairwise
    exact Or.inr hpairwise

/-- Subjects that manual order tells apart have one arrangement in any order of results. -/
theorem sortSubjects_perm_eq
    (hanti : ∀ a ∈ l, ∀ b ∈ l, a.le b = true → b.le a = true → a = b) (hperm : l.Perm l')
    (orderBy : Option OrderBy) : sortSubjects orderBy l = sortSubjects orderBy l' := by
  unfold sortSubjects
  rw [mergeSort_perm_eq Subject.le_trans Subject.le_total hanti hperm]

/-! ## Section 6: The results of a tree -/

section trees
variable {tree tree' : Tree}

/-- What a query sees of a tree has the ids of its tasks. -/
theorem map_id_tops (tree : Tree) :
    ((tree.tasks.filter tree.isTop).map (Subject.ofTree tree)).map (fun s => s.task.id) =
      (tree.tasks.filter tree.isTop).map Task.id := by
  rw [List.map_map]
  rfl

theorem nodup_tops (tree : Tree) : ((tree.tasks.filter tree.isTop).map Task.id).Nodup :=
  tree.tasks_nodup.sublist (List.filter_sublist.map Task.id)

/-- A query has the same results in the same order. -/
theorem execute_eq (h : tree.Rearranged tree') (q : Query) : q.execute tree = q.execute tree' := by
  have hof : Subject.ofTree tree = Subject.ofTree tree' := by
    funext task
    unfold Subject.ofTree
    rw [h.projectTitle?_eq]
  unfold Query.execute Query.select
  rw [h.isTop_eq, hof, sortSubjects_perm_eq ?_ (((h.tasks.filter _).map _).filter _)]
  -- of one task a query sees one subject
  intro s hs t ht hst hts
  obtain ⟨x, hx, rfl⟩ := List.mem_map.mp (List.mem_of_mem_filter hs)
  obtain ⟨y, hy, rfl⟩ := List.mem_map.mp (List.mem_of_mem_filter ht)
  have hxy : x = y := Tree.eq_of_id_eq (List.mem_of_mem_filter hx) (List.mem_of_mem_filter hy)
    (Task.id_eq_of_le hst hts)
  rw [hxy]

theorem execute_perm (q : Query) (tree : Tree) : (q.execute tree).Perm
    ((((tree.tasks.filter tree.isTop).map (Subject.ofTree tree)).filter q.matches).map
      fun s => s.task.id) :=
  (sortSubjects_perm q.orderBy _).map _

/-- No id is given twice. -/
theorem nodup_execute (q : Query) (tree : Tree) : (q.execute tree).Nodup := by
  rw [(execute_perm q tree).nodup_iff]
  refine List.Nodup.sublist (List.filter_sublist.map _) ?_
  rw [map_id_tops]
  exact nodup_tops tree

/-- A task is at the top if no task of the tree is its parent. -/
theorem isTop_iff {t : Task} :
    tree.isTop t = true ↔ ∀ p ∈ t.parent, ∀ u ∈ tree.tasks, u.id ≠ p := by
  rw [Tree.isTop_eq_true_iff, Option.eq_none_iff_forall_ne_some]
  constructor
  · intro h p hp u hu hid
    exact h u (Tree.parent?_eq_some_iff.mpr ⟨hid ▸ hp, hu⟩)
  · intro h u hu
    obtain ⟨hp, hu⟩ := Tree.parent?_eq_some_iff.mp hu
    exact h u.id hp u hu rfl

theorem mem_execute_iff {q : Query} {id : TaskId} : id ∈ q.execute tree ↔
    ∃ t ∈ tree.tasks, t.id = id ∧ (∀ p ∈ t.parent, ∀ u ∈ tree.tasks, u.id ≠ p) ∧
      q.matches (Subject.ofTree tree t) = true := by
  rw [(execute_perm q tree).mem_iff, List.mem_map]
  constructor
  · intro h
    obtain ⟨s, hs, rfl⟩ := h
    obtain ⟨htop, hmatches⟩ := List.mem_filter.mp hs
    obtain ⟨t, ht, rfl⟩ := List.mem_map.mp htop
    obtain ⟨ht, htop⟩ := List.mem_filter.mp ht
    exact ⟨t, ht, rfl, isTop_iff.mp htop, hmatches⟩
  · intro h
    obtain ⟨t, ht, rfl, htop, hmatches⟩ := h
    have hmem : t ∈ tree.tasks.filter tree.isTop := List.mem_filter.mpr ⟨ht, isTop_iff.mpr htop⟩
    exact ⟨Subject.ofTree tree t, List.mem_filter.mpr ⟨List.mem_map_of_mem hmem, hmatches⟩, rfl⟩

end trees

/-- **Results stand in one order**, with every order by a field that can be sorted by and without
    one.  Of two subjects with different ids exactly one is to stand before the other.  Sorting
    loses and repeats nothing, and of subjects with different ids each then stands before all
    later ones, however they were arranged.  What does not meet the query is left out of the
    sorted list of all, and of a tree the results are the ids of the tasks at the top that meet
    it, each once. -/
theorem results_in_order {orderBy : Option OrderBy}
    (hsortable : ∀ o ∈ orderBy, o.field.sortable = true) :
    (∀ a b, a.task.id ≠ b.task.id → (Before orderBy a b ↔ ¬Before orderBy b a)) ∧
    (∀ l, (sortSubjects orderBy l).Perm l) ∧
    (∀ l, (l.map fun s => s.task.id).Nodup →
      (sortSubjects orderBy l).Pairwise (Before orderBy) ∧
      ∀ l', l.Perm l' → sortSubjects orderBy l' = sortSubjects orderBy l) ∧
    ∀ q : Query, q.orderBy = orderBy →
      (∀ l, q.select l = (sortSubjects orderBy l).filter q.matches) ∧
      ∀ tree, (q.execute tree).Nodup ∧ ∀ id, id ∈ q.execute tree ↔
        ∃ t ∈ tree.tasks, t.id = id ∧ (∀ p ∈ t.parent, ∀ u ∈ tree.tasks, u.id ≠ p) ∧
          q.matches (Subject.ofTree tree t) = true := by
  refine ⟨?_, sortSubjects_perm orderBy, ?_, ?_⟩
  · intro a b hne
    constructor
    · intro h
      exact h.asymm
    · intro h
      exact (before_total hsortable hne).resolve_right h
  · intro l hids
    refine ⟨sortSubjects_pairwise hsortable hids, ?_⟩
    intro l' hperm
    refine (sortSubjects_perm_eq ?_ hperm orderBy).symm
    intro a ha b hb hab hba
    exact List.inj_on_of_nodup_map hids ha hb (Task.id_eq_of_le hab hba)
  · rintro q rfl
    refine ⟨sortSubjects_filter q.matches q.orderBy, ?_⟩
    intro tree
    exact ⟨nodup_execute q tree, fun id => mem_execute_iff⟩

/-- Two tasks due on one day, one of them by a clock ahead of universal time, and a third that is
    due at no time. -/
def crowd : List Subject :=
  [{ task := { id := 1 } },
   { task := { id := 2, sortKey := ['b'], dueDate := some (.day Day.first) } },
   { task := { id := 3, sortKey := ['a'],
               dueDate := some (.moment { Moment.midnight Day.first with offset := some 60 }) } }]

/-- By due date, the latest first. -/
def latestDue : OrderBy := { field := .dueDate, direction := .descending }

theorem results_in_order_crowd :
    (crowd.map fun s => s.task.id).Nodup ∧
    (sortSubjects (some latestDue) crowd).Pairwise (Before (some latestDue)) ∧
    sortSubjects (some latestDue) crowd.reverse = sortSubjects (some latestDue) crowd := by
  have hsortable : ∀ o ∈ some latestDue, o.field.sortable = true := by
    rintro o ⟨⟩
    rfl
  have hids : (crowd.map fun s => s.task.id).Nodup := by
    decide
  obtain ⟨hordered, hany⟩ := (results_in_order hsortable).2.2.1 crowd hids
  exact ⟨hids, hordered, hany crowd.reverse (List.reverse_perm crowd).symm⟩

end Agenda.Filter
