import Agenda.Proofs.Filter.RoundTrip

/-! # Laws of the operators

    Each kind of field compares in its own way, with its own early answers for a word that is no
    status, a value that is missing and a day where a moment could stand.  Of a condition that
    can be read the operators nevertheless obey the same laws on every task: opposite operators
    exclude each other, membership in a list is equality with one of its items, and on days and
    moments the comparisons are those of one order, in which a missing value has no place
    (`operator_laws`). -/

namespace Agenda.Filter

variable {s : Subject} {f : Field} {op op' : Operator} {v i : Literal} {a : Status}

/-! ## Section 1: Conditions that can be read -/

/-- A condition that the reader lets pass. -/
structure Condition.Accepted (c : Condition) : Prop where
  operator : c.field.accepts c.op = true
  value    : Reader.checkValue c.field c.op c.value = none

/-- The conditions of an expression, from left to right. -/
def Expr.conditions : Expr → List Condition
  | cond c => [c]
  | not e => e.conditions
  | and l r => l.conditions ++ r.conditions
  | or l r => l.conditions ++ r.conditions

theorem Expr.Typed.condition {e : Expr} (he : e.Typed) {c : Condition} (hc : c ∈ e.conditions) :
    c.Typed := by
  induction e with
  | cond c' =>
    obtain rfl := List.mem_singleton.mp hc
    exact he
  | not e ih => exact ih he hc
  | and l r ihl ihr => exact (List.mem_append.mp hc).elim (ihl he.1) (ihr he.2)
  | or l r ihl ihr => exact (List.mem_append.mp hc).elim (ihl he.1) (ihr he.2)

/-- A query that was read has no other conditions. -/
theorem accepted_of_read {t : Text} {q : Query} (h : Query.read t = .ok q) {e : Expr}
    (he : e ∈ q.expression) {c : Condition} (hc : c ∈ e.conditions) : c.Accepted := by
  have htyped : c.Typed := ((typed_of_read h).1.expression e he).condition hc
  exact ⟨htyped.accepted, htyped.fits⟩

/-- Nothing is wrong with any item of the value. -/
def Literal.Fits (f : Field) (v : Literal) : Prop := ∀ i ∈ v.items, Reader.checkItem f i = none

theorem Condition.Accepted.fits (h : Accepted ⟨f, op, v⟩) (hop : op ≠ .is ∧ op ≠ .isNot) :
    v.Fits f := by
  have hvalue := h.value
  simp only [Reader.checkValue, hop.1, hop.2, or_self, if_false] at hvalue
  split at hvalue
  · cases hvalue
  · split at hvalue
    · cases hvalue
    · exact List.findSome?_eq_none_iff.mp hvalue

/-- Only membership is asked of a list. -/
theorem Condition.Accepted.items_eq (h : Accepted ⟨f, op, v⟩) (hop : op ≠ .is ∧ op ≠ .isNot)
    (hin : op ≠ .isIn ∧ op ≠ .notIn) : v.items = [v] := by
  have hvalue := h.value
  cases v with
  | list items =>
    simp [Reader.checkValue, Reader.isNull, Literal.isList, hop.1, hop.2, hin.1, hin.2] at hvalue
  | null | truth _ | integer _ | number _ | text _ | day _ | moment _ => rfl

/-! ## Section 2: Opposite operators -/

/-- Operators that say the contrary of each other. -/
inductive Opposite : Operator → Operator → Prop
  | equal : Opposite .eq .ne
  | pattern : Opposite .glob .notGlob
  | member : Opposite .isIn .notIn
  | null : Opposite .is .isNot

/-- A field accepts both or neither of them, with the same values. -/
theorem Opposite.accepted_iff (h : Opposite op op') :
    Condition.Accepted ⟨f, op, v⟩ ↔ Condition.Accepted ⟨f, op', v⟩ := by
  have hcheck : Reader.checkValue f op v = none ↔ Reader.checkValue f op' v = none := by
    cases h <;> cases v <;> simp [Reader.checkValue, Reader.isNull, Literal.isList]
  have haccepts : f.accepts op = f.accepts op' := by
    cases h <;> rfl
  constructor
  · intro hc
    exact ⟨haccepts ▸ hc.operator, hcheck.mp hc.value⟩
  · intro hc
    exact ⟨haccepts.trans hc.operator, hcheck.mpr hc.value⟩

theorem Opposite.textHolds_eq (h : Opposite op op') (actual : Option Text) (v : Literal) :
    textHolds actual op' v = !textHolds actual op v := by
  cases h with
  | null => cases actual <;> rfl
  | equal | pattern | member => rfl

theorem Opposite.tagsHold_eq (h : Opposite op op') (tags : List Text) (v : Literal) :
    tagsHold tags op' v = !tagsHold tags op v := by
  cases h <;> rfl

/-! ## Section 3: Items of a list -/

/-- An item passes if it is a text and can be read. -/
theorem exists_text {α : Type} {read : Text → Option α} {cause : Cause}
    (h : (if ((match i with
        | .text t => some t
        | _ => none : Option Text).bind read).isNone then some cause else none) = none) :
    ∃ t a, i = .text t ∧ read t = some a := by
  cases i with
  | text t =>
    rw [Option.bind_some] at h
    cases hread : read t with
    | some a => exact ⟨t, a, rfl, hread⟩
    | none =>
      rw [hread] at h
      cases h
  | null | truth _ | integer _ | number _ | day _ | moment _ | list _ => cases h

/-- What is compared with a status is a word for one. -/
theorem exists_word (h : Reader.checkItem .status i = none) :
    ∃ t b, i = .text t ∧ Status.ofWord? t = some b :=
  exists_text h

theorem Literal.Fits.item (h : v.Fits .status) (hi : i ∈ v.items) : i.Fits .status := by
  obtain ⟨t, b, rfl, -⟩ := exists_word (h i hi)
  intro j hj
  obtain rfl := List.mem_singleton.mp hj
  exact h _ hi

/-- Items that fit a status all name one, and equality asks for a single one. -/
theorem statuses?_of_fits {items : List Literal}
    (h : ∀ i ∈ items, Reader.checkItem .status i = none) :
    ∃ wanted, statuses? items = some wanted ∧
      ∀ a, wanted.contains a = items.any fun i => statusHolds a .eq i := by
  induction items with
  | nil => exact ⟨[], rfl, fun a => rfl⟩
  | cons i items ih =>
    obtain ⟨wanted, hwanted, hcontains⟩ := ih fun j hj => h j (List.mem_cons_of_mem i hj)
    obtain ⟨t, b, rfl, hb⟩ := exists_word (h i List.mem_cons_self)
    refine ⟨b :: wanted, by simp [statuses?, statusOf?, hb, hwanted], ?_⟩
    intro a
    have heq : statusHolds a .eq (.text t) = [b].contains a := by
      simp [statusHolds, Literal.items, statuses?, statusOf?, hb]
    rw [List.any_cons, heq, ← hcontains, List.contains_cons, List.contains_cons]
    simp

theorem statusHolds_isIn (hfits : v.Fits .status) (a : Status) :
    statusHolds a .isIn v = v.items.any fun i => statusHolds a .eq i := by
  obtain ⟨wanted, hwanted, hcontains⟩ := statuses?_of_fits hfits
  rw [← hcontains, statusHolds, hwanted]

theorem Opposite.statusHolds_eq (h : Opposite op op') (hop : Field.status.accepts op = true)
    (hfits : v.Fits .status) (a : Status) : statusHolds a op' v = !statusHolds a op v := by
  obtain ⟨wanted, hwanted, -⟩ := statuses?_of_fits hfits
  cases h with
  | equal | member => simp only [statusHolds, hwanted]
  | pattern | null => cases hop

/-! ## Section 4: Days and moments -/

/-- The operators that compare. -/
def Operator.comparisons : List Operator := [eq, ne, lt, lte, gt, gte]

theorem Operator.mem_comparisons_iff : op ∈ comparisons ↔
    op = .eq ∨ op = .ne ∨ op = .lt ∨ op = .lte ∨ op = .gt ∨ op = .gte := by
  simp [comparisons]

theorem stampHolds_text (hop : op ∈ Operator.comparisons) (daysOnly : Bool)
    (actual : Option Stamp) (t : Text) :
    stampHolds daysOnly actual op (.text t) =
      match Typed.day? t with
      | some day => dayHolds actual op day
      | none =>
        if daysOnly then false
        else match Typed.moment? t with
          | some moment => momentHolds actual op moment
          | none => false := by
  rcases Operator.mem_comparisons_iff.mp hop with rfl | rfl | rfl | rfl | rfl | rfl <;> rfl

/-- A field with days or moments accepts all comparisons with a value, or none. -/
theorem accepted_comparison_iff (hkind : f.kind = .day ∨ f.kind = .moment)
    (hop : op ∈ Operator.comparisons) :
    Condition.Accepted ⟨f, op, v⟩ ↔ Condition.Accepted ⟨f, .eq, v⟩ := by
  have hops := Operator.mem_comparisons_iff.mp hop
  have haccepts : f.accepts op = true := by
    rcases hops with rfl | rfl | rfl | rfl | rfl | rfl <;> rcases hkind with h | h <;>
      simp [Field.accepts, h]
  have hcheck : Reader.checkValue f op v = none ↔ Reader.checkValue f .eq v = none := by
    rcases hops with rfl | rfl | rfl | rfl | rfl | rfl <;> cases v <;>
      simp [Reader.checkValue, Reader.isNull, Literal.isList]
  constructor
  · intro h
    exact ⟨rfl, hcheck.mp h.value⟩
  · intro h
    exact ⟨haccepts, hcheck.mpr h.value⟩

/-- What is compared with a stamp is a text for a day, or where the field holds moments a text
    for a moment. -/
theorem exists_day_or_moment (hkind : f.kind = .day ∨ f.kind = .moment)
    (h : Reader.checkItem f i = none) :
    ∃ t, i = .text t ∧ ((∃ day, Typed.day? t = some day) ∨
      f.kind = .moment ∧ ∃ moment, Typed.moment? t = some moment) := by
  unfold Reader.checkItem at h
  rcases hkind with hkind | hkind
  · rw [hkind] at h
    obtain ⟨t, day, ht, hday⟩ := exists_text h
    exact ⟨t, ht, Or.inl ⟨day, hday⟩⟩
  · rw [hkind] at h
    obtain ⟨t, moment, ht, hmoment⟩ := exists_text h
    exact ⟨t, ht, Or.inr ⟨hkind, moment, hmoment⟩⟩

/-- The value in such a comparison sets a number against the stamp: the number of its day, or
    the reading of its clock. -/
theorem exists_reading (hkind : f.kind = .day ∨ f.kind = .moment)
    (h : Condition.Accepted ⟨f, .eq, v⟩) :
    ∃ (reading : Stamp → Nat) (expected : Nat), ∀ actual, ∀ op ∈ Operator.comparisons,
      stampHolds (f.kind == .day) actual op v =
        match actual with
        | none => op == .ne
        | some stamp => compareHolds (reading stamp) op expected := by
  have hv : Reader.checkItem f v = none := by
    refine h.fits (by decide) v ?_
    rw [h.items_eq (by decide) (by decide)]
    exact List.mem_cons_self
  obtain ⟨t, rfl, hread⟩ := exists_day_or_moment hkind hv
  cases hday : Typed.day? t with
  | some day =>
    refine ⟨fun stamp => stamp.toDay.ordinal, day.ordinal, ?_⟩
    intro actual op hop
    rw [stampHolds_text hop, hday]
    cases actual <;> rfl
  | none =>
    -- no day, so the field holds moments and the text is one
    obtain ⟨day, hday'⟩ | ⟨hkind, moment, hmoment⟩ := hread
    · rw [hday] at hday'
      cases hday'
    · refine ⟨fun stamp => stamp.toMoment.reading, moment.reading, ?_⟩
      intro actual op hop
      rw [stampHolds_text hop, hday, hkind, hmoment]
      cases actual <;> rfl

/-- Exactly one of the operators makes a true condition. -/
def ExactlyOne (ops : List Operator) (holds : Operator → Bool) : Prop := ops.countP holds = 1

theorem exactlyOne_pair {holds : Operator → Bool} (h : holds op' = !holds op) :
    ExactlyOne [op, op'] holds := by
  unfold ExactlyOne
  cases hop : holds op <;> simp [hop, h]

theorem ExactlyOne.congr {ops : List Operator} {holds holds' : Operator → Bool}
    (h : ExactlyOne ops holds) (heq : ∀ op ∈ ops, holds' op = holds op) :
    ExactlyOne ops holds' := by
  unfold ExactlyOne at h ⊢
  rw [← h]
  exact List.countP_congr fun op hop => by rw [heq op hop]

/-- Of two numbers one is the less, or they are equal. -/
theorem compareHolds_exactlyOne (m n : Nat) :
    ExactlyOne [.lt, .eq, .gt] fun op => compareHolds m op n := by
  unfold ExactlyOne
  obtain hlt | heq | hgt := Nat.lt_trichotomy m n
  · simp [compareHolds, hlt, hlt.ne, hlt.le]
  · simp [compareHolds, heq]
  · simp [compareHolds, hgt, hgt.ne', hgt.le]

theorem compareHolds_lte (m n : Nat) :
    compareHolds m .lte n = (compareHolds m .lt n || compareHolds m .eq n) := by
  rw [Bool.eq_iff_iff]
  simp [compareHolds, Nat.le_iff_lt_or_eq]

theorem compareHolds_gte (m n : Nat) :
    compareHolds m .gte n = (compareHolds m .gt n || compareHolds m .eq n) := by
  rw [Bool.eq_iff_iff]
  simp only [compareHolds, Bool.or_eq_true, decide_eq_true_eq, beq_iff_eq]
  omega

theorem Opposite.stampHolds_eq (h : Opposite op op')
    (hkind : f.kind = .day ∨ f.kind = .moment) (hc : Condition.Accepted ⟨f, op, v⟩)
    (actual : Option Stamp) :
    stampHolds (f.kind == .day) actual op' v = !stampHolds (f.kind == .day) actual op v := by
  cases h with
  | equal =>
    obtain ⟨reading, expected, hholds⟩ := exists_reading hkind hc
    rw [hholds actual .eq (by decide), hholds actual .ne (by decide)]
    cases actual <;> rfl
  | null => cases actual <;> rfl
  | pattern | member =>
    have hop := hc.operator
    rcases hkind with hkind | hkind <;> simp [Field.accepts, hkind] at hop

/-! ## Section 5: Every field -/

theorem eq_status_of_value (h : s.value f = .status a) : f = .status := by
  cases f <;> cases h
  rfl

/-- The fields with days or moments are those that hold a stamp, or lack one. -/
theorem kind_iff_stamp (s : Subject) (f : Field) :
    f.kind = .day ∨ f.kind = .moment ↔ ∃ stamp, s.value f = .stamp stamp := by
  cases f <;> simp [Field.kind, Subject.value]

/-- A condition with the opposite operator says the contrary. -/
theorem Opposite.holds_eq (h : Opposite op op') (hc : Condition.Accepted ⟨f, op, v⟩)
    (s : Subject) : Condition.holds ⟨f, op', v⟩ s = !Condition.holds ⟨f, op, v⟩ s := by
  have hop : f.accepts op = true := hc.operator
  have hop' : f.accepts op' = true := (h.accepted_iff.mp hc).operator
  simp only [Condition.holds, hop, hop', Bool.true_and]
  cases hvalue : s.value f with
  | text t => exact h.textHolds_eq t v
  | tags l => exact h.tagsHold_eq l v
  | status a =>
    obtain rfl := eq_status_of_value hvalue
    have hnull : op ≠ .is ∧ op ≠ .isNot := by
      constructor <;> rintro rfl <;> cases hop
    exact h.statusHolds_eq hop (hc.fits hnull) a
  | stamp stamp => exact h.stampHolds_eq ((kind_iff_stamp s f).mpr ⟨stamp, hvalue⟩) hc stamp

/-- Membership is asked of texts, tags and the status only. -/
theorem value_of_isIn (hop : f.accepts .isIn = true) (s : Subject) :
    (∃ t, s.value f = .text t) ∨ (∃ l, s.value f = .tags l) ∨
      (f = .status ∧ ∃ a, s.value f = .status a) := by
  cases f with
  | title | body | project => exact Or.inl ⟨_, rfl⟩
  | tags => exact Or.inr (Or.inl ⟨_, rfl⟩)
  | status => exact Or.inr (Or.inr ⟨rfl, _, rfl⟩)
  | dueDate | startAt | created | updated | reviewed => cases hop

/-- Membership is equality with one of the items. -/
theorem holds_isIn (hc : Condition.Accepted ⟨f, .isIn, v⟩) (s : Subject) :
    Condition.holds ⟨f, .isIn, v⟩ s = v.items.any fun i => Condition.holds ⟨f, .eq, i⟩ s := by
  have hop : f.accepts .isIn = true := hc.operator
  have heq : f.accepts .eq = true := rfl
  simp only [Condition.holds, hop, heq, Bool.true_and]
  rcases value_of_isIn hop s with ⟨t, hvalue⟩ | ⟨l, hvalue⟩ | ⟨rfl, a, hvalue⟩
  · simp only [hvalue]
    rfl
  · simp only [hvalue]
    rfl
  · simp only [hvalue]
    exact statusHolds_isIn (hc.fits (by decide)) a

/-- An item is equal or different, even one that could not be compared with on its own. -/
theorem holds_ne_item (hc : Condition.Accepted ⟨f, .isIn, v⟩) (hi : i ∈ v.items) (s : Subject) :
    Condition.holds ⟨f, .ne, i⟩ s = !Condition.holds ⟨f, .eq, i⟩ s := by
  have heq : f.accepts .eq = true := rfl
  have hne : f.accepts .ne = true := rfl
  simp only [Condition.holds, heq, hne, Bool.true_and]
  rcases value_of_isIn hc.operator s with ⟨t, hvalue⟩ | ⟨l, hvalue⟩ | ⟨rfl, a, hvalue⟩
  · simp only [hvalue]
    exact Opposite.equal.textHolds_eq t i
  · simp only [hvalue]
    exact Opposite.equal.tagsHold_eq l i
  · simp only [hvalue]
    exact Opposite.equal.statusHolds_eq rfl ((hc.fits (by decide)).item hi) a

/-- Comparisons with a stamp: of a number with the one that the value sets against it. -/
theorem exists_compareHolds (hkind : f.kind = .day ∨ f.kind = .moment)
    (hc : Condition.Accepted ⟨f, .eq, v⟩) :
    ∃ (reading : Stamp → Nat) (expected : Nat), ∀ s actual, s.value f = .stamp actual →
      ∀ op ∈ Operator.comparisons, Condition.holds ⟨f, op, v⟩ s =
        match actual with
        | none => op == .ne
        | some stamp => compareHolds (reading stamp) op expected := by
  obtain ⟨reading, expected, hholds⟩ := exists_reading hkind hc
  refine ⟨reading, expected, ?_⟩
  intro s actual hvalue op hop
  have haccepts : f.accepts op = true := ((accepted_comparison_iff hkind hop).mpr hc).operator
  rw [← hholds actual op hop]
  simp only [Condition.holds, haccepts, hvalue, Bool.true_and]

/-- The laws of the operators, for one task and one field and value. -/
structure Laws (s : Subject) (f : Field) (v : Literal) : Prop where
  /-- Opposite operators are accepted together, and exactly one of them holds. -/
  opposite : ∀ {op op'}, Opposite op op' →
    (Condition.Accepted ⟨f, op, v⟩ ↔ Condition.Accepted ⟨f, op', v⟩) ∧
    (Condition.Accepted ⟨f, op, v⟩ →
      ExactlyOne [op, op'] fun op => Condition.holds ⟨f, op, v⟩ s)
  /-- `IN` is equality with one of the items. -/
  isIn : Condition.Accepted ⟨f, .isIn, v⟩ →
    (Condition.holds ⟨f, .isIn, v⟩ s = true ↔
      ∃ i ∈ v.items, Condition.holds ⟨f, .eq, i⟩ s = true)
  /-- `NOT IN` is difference from all of them. -/
  notIn : Condition.Accepted ⟨f, .notIn, v⟩ →
    (Condition.holds ⟨f, .notIn, v⟩ s = true ↔
      ∀ i ∈ v.items, Condition.holds ⟨f, .ne, i⟩ s = true)
  /-- With a stamp the comparisons are those of one order. -/
  present : ∀ stamp, s.value f = .stamp (some stamp) → Condition.Accepted ⟨f, .eq, v⟩ →
    ExactlyOne [.lt, .eq, .gt] (fun op => Condition.holds ⟨f, op, v⟩ s) ∧
    Condition.holds ⟨f, .lte, v⟩ s =
      (Condition.holds ⟨f, .lt, v⟩ s || Condition.holds ⟨f, .eq, v⟩ s) ∧
    Condition.holds ⟨f, .gte, v⟩ s =
      (Condition.holds ⟨f, .gt, v⟩ s || Condition.holds ⟨f, .eq, v⟩ s)
  /-- A missing stamp is different from every value and compares with none. -/
  missing : s.value f = .stamp none → Condition.Accepted ⟨f, .eq, v⟩ →
    ∀ op ∈ Operator.comparisons, Condition.holds ⟨f, op, v⟩ s = (op == .ne)
  null : s.value f = .stamp none → Condition.Accepted ⟨f, .is, v⟩ →
    Condition.holds ⟨f, .is, v⟩ s = true

theorem laws (s : Subject) (f : Field) (v : Literal) : Laws s f v where
  opposite hopp :=
    ⟨hopp.accepted_iff, fun hc => exactlyOne_pair (hopp.holds_eq hc s)⟩
  isIn hc := by
    rw [holds_isIn hc, List.any_eq_true]
  notIn hc := by
    -- `NOT IN` is the opposite of `IN`, and `!=` that of `=` for each item
    have hin : Condition.Accepted ⟨f, .isIn, v⟩ := Opposite.member.accepted_iff.mpr hc
    rw [Opposite.member.holds_eq hin, holds_isIn hin]
    simp only [Bool.not_eq_true', List.any_eq_false, Bool.not_eq_true]
    exact forall₂_congr fun i hi => by rw [holds_ne_item hin hi, Bool.not_eq_true']
  present stamp hvalue hc := by
    have hkind := (kind_iff_stamp s f).mpr ⟨_, hvalue⟩
    -- all comparisons read stamp and value in one way
    obtain ⟨reading, expected, hholds⟩ := exists_compareHolds hkind hc
    have hcompare : ∀ op ∈ Operator.comparisons, Condition.holds ⟨f, op, v⟩ s =
        compareHolds (reading stamp) op expected := hholds s _ hvalue
    refine ⟨?_, ?_, ?_⟩
    · have hops : ∀ op ∈ [Operator.lt, .eq, .gt], op ∈ Operator.comparisons := by
        decide
      exact (compareHolds_exactlyOne (reading stamp) expected).congr
        fun op hop => hcompare op (hops op hop)
    · rw [hcompare .lte (by decide), hcompare .lt (by decide), hcompare .eq (by decide)]
      exact compareHolds_lte (reading stamp) expected
    · rw [hcompare .gte (by decide), hcompare .gt (by decide), hcompare .eq (by decide)]
      exact compareHolds_gte (reading stamp) expected
  missing hvalue hc := by
    have hkind := (kind_iff_stamp s f).mpr ⟨_, hvalue⟩
    obtain ⟨reading, expected, hholds⟩ := exists_compareHolds hkind hc
    exact hholds s none hvalue
  null hvalue hc := by
    have hop : f.accepts .is = true := hc.operator
    simp only [Condition.holds, hop, hvalue, Bool.true_and]
    rfl

/-- **The operators obey their laws** on every task, for every field and value of a condition
    that is accepted, as are all conditions of a query that was read.  A field with days or
    moments accepts a value in all comparisons or in none, and holds a stamp or lacks one; the
    stamp may be a day or a moment of any clock. -/
theorem operator_laws :
    (∀ t q, Query.read t = .ok q → ∀ e ∈ q.expression, ∀ c ∈ e.conditions, c.Accepted) ∧
    (∀ f : Field, f.kind = .day ∨ f.kind = .moment →
      (∀ s : Subject, ∃ stamp, s.value f = .stamp stamp) ∧
      ∀ v, ∀ op ∈ Operator.comparisons,
        (Condition.Accepted ⟨f, op, v⟩ ↔ Condition.Accepted ⟨f, .eq, v⟩)) ∧
    ∀ s f v, Laws s f v := by
  refine ⟨?_, ?_, laws⟩
  · intro t q h e he c hc
    exact accepted_of_read h he hc
  · intro f hkind
    constructor
    · intro s
      exact (kind_iff_stamp s f).mp hkind
    · intro v op hop
      exact accepted_comparison_iff hkind hop

example : Condition.Accepted ⟨.startAt, .lt, .text "2026-01-05T09:30".toList⟩ :=
  ⟨rfl, by decide +kernel⟩

end Agenda.Filter
