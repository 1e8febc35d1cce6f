import Agenda.Proofs.SortKey.Digits

/-! # Fractions of sort keys

    Fractions are compared as texts; one that ends goes on with zeros, so none may end in a
    zero.  Above every fraction there is one, and between any two there is one. -/

namespace Agenda.SortKey

/-! ## Section 1: Fractions -/

/-- A fraction: digits, and no zero at the end. -/
structure IsFraction (f : Text) : Prop where
  isDigits       : IsDigits f
  noTrailingZero : f.getLast? ≠ some '0'

theorem isFraction_nil : IsFraction [] := ⟨isDigits_nil, by simp⟩

section fraction
variable {c : Char} {m a b : Text}

theorem isFraction_singleton (hc : c ∈ digits) (h : c ≠ '0') : IsFraction [c] :=
  ⟨isDigits_singleton.mpr hc, by simpa using h⟩

theorem isFraction_cons (hm : m ≠ []) : IsFraction (c :: m) ↔ c ∈ digits ∧ IsFraction m := by
  have hlast : (c :: m).getLast? = m.getLast? := by
    cases m with
    | nil => exact absurd rfl hm
    | cons d m => exact List.getLast?_cons_cons
  constructor
  · intro h
    obtain ⟨hdigits, hzero⟩ := h
    rw [hlast] at hzero
    obtain ⟨hc, hmDigits⟩ := isDigits_cons.mp hdigits
    exact ⟨hc, hmDigits, hzero⟩
  · intro h
    obtain ⟨hc, hmDigits, hzero⟩ := h
    refine ⟨isDigits_cons.mpr ⟨hc, hmDigits⟩, ?_⟩
    rwa [hlast]

theorem IsFraction.endsInZero_eq (h : IsFraction a) : endsInZero a = false := by
  simpa [endsInZero] using h.noTrailingZero

theorem ne_nil_of_lt (h : a < b) : b ≠ [] := by
  rintro rfl
  exact List.not_lt_nil a h

/-- A digit half way up, or more, is no zero and makes a fraction. -/
theorem isFraction_digit {n : Nat} (hn : n < 62) (hpos : 0 < n) : IsFraction [digit n] :=
  isFraction_singleton (digit_mem hn) (digit_ne_zero hn hpos)

/-! ## Section 2: Fractions above and between -/

/-- Above every row of digits there is a fraction. -/
theorem fractionAbove?_spec (ha : IsDigits a) :
    ∃ m, fractionAbove? a = some m ∧ IsFraction m ∧ a < m := by
  induction a with
  | nil => exact ⟨[digit 31], rfl, isFraction_digit (by omega) (by omega), by simp⟩
  | cons c rest ih =>
    obtain ⟨hc, hrest⟩ := isDigits_cons.mp ha
    have hlt := value_lt hc
    unfold fractionAbove?
    rw [value?_eq_value hc]
    by_cases hv : value c = 61
    · -- nothing is above the last digit, so it is kept
      obtain ⟨m, hm, hfraction, habove⟩ := ih hrest
      refine ⟨c :: m, by simp [hv, hm], ?_, ?_⟩
      · exact (isFraction_cons (ne_nil_of_lt habove)).mpr ⟨hc, hfraction⟩
      · exact List.cons_lt_cons_iff.mpr (Or.inr ⟨rfl, habove⟩)
    · have hn : (value c + 63) / 2 < 62 := by omega
      refine ⟨[digit ((value c + 63) / 2)], by simp [hv], isFraction_digit hn (by omega), ?_⟩
      refine List.cons_lt_cons_iff.mpr (Or.inl ?_)
      rw [lt_iff_value_lt hc (digit_mem hn), value_digit hn]
      omega

/-- A row of digits is below every row that begins with a larger digit than its own first one,
    which is a zero when it has ended. -/
theorem lt_cons_of_headD_lt {d : Char} {rest : Text} (h : a.headD '0' < d) : a < d :: rest := by
  cases a with
  | nil => exact List.nil_lt_cons d rest
  | cons c a => exact List.cons_lt_cons_iff.mpr (Or.inl h)

theorem lt_headD_cons (h : a.tail < m) : a < a.headD '0' :: m := by
  cases a with
  | nil => exact List.nil_lt_cons _ m
  | cons c a => exact List.cons_lt_cons_iff.mpr (Or.inr ⟨rfl, h⟩)

theorem headD_mem (ha : IsDigits a) : a.headD '0' ∈ digits := by
  cases a with
  | nil => exact zero_mem
  | cons c a => exact (isDigits_cons.mp ha).1

theorem isDigits_tail (ha : IsDigits a) : IsDigits a.tail :=
  fun c hc => ha c (List.mem_of_mem_tail hc)

/-- What is below a fraction begins with no larger digit. -/
theorem headD_le_of_lt {y : Char} {ys : Text} (hb : IsFraction (y :: ys)) (h : a < y :: ys) :
    a.headD '0' < y ∨ a.headD '0' = y ∧ a.tail < ys := by
  cases a with
  | cons c a => exact List.cons_lt_cons_iff.mp h
  | nil =>
    have hy := (isDigits_cons.mp hb.isDigits).1
    by_cases hzero : y = '0'
    · -- the zero is not the last digit, so something follows it
      refine Or.inr ⟨hzero.symm, ?_⟩
      cases ys with
      | nil => exact absurd (by simp [hzero]) hb.noTrailingZero
      | cons z zs => exact List.nil_lt_cons z zs
    · refine Or.inl ((lt_iff_value_lt zero_mem hy).mpr ?_)
      rw [value_zero]
      exact value_pos hy hzero

/-- **Between a row of digits and a fraction above it there is a fraction.** -/
theorem fractionInside?_spec (ha : IsDigits a) (hb : IsFraction b) (h : a < b) :
    ∃ m, fractionInside? a b = some m ∧ IsFraction m ∧ a < m ∧ m < b := by
  induction b generalizing a with
  | nil => exact absurd h (List.not_lt_nil a)
  | cons y ys ih =>
    obtain ⟨hy, hys⟩ := isDigits_cons.mp hb.isDigits
    have hx := headD_mem ha
    have htail := isDigits_tail ha
    unfold fractionInside?
    rcases headD_le_of_lt hb h with hlt | ⟨heq, hlt⟩
    · -- the first digits differ
      have hne : a.headD '0' ≠ y := ne_of_lt hlt
      have hvalue := (lt_iff_value_lt hx hy).mp hlt
      have hylt := value_lt hy
      simp only [if_neg hne, value?_eq_value hx, value?_eq_value hy, Option.bind_eq_bind,
        Option.bind_some]
      by_cases hroom : 1 < value y - value (a.headD '0')
      · have hn : (value (a.headD '0') + value y + 1) / 2 < 62 := by omega
        refine ⟨[digit ((value (a.headD '0') + value y + 1) / 2)], by rw [if_pos hroom],
          isFraction_digit hn (by omega), lt_cons_of_headD_lt ?_,
          List.cons_lt_cons_iff.mpr (Or.inl ?_)⟩
        · rw [lt_iff_value_lt hx (digit_mem hn), value_digit hn]
          omega
        · rw [lt_iff_value_lt (digit_mem hn) hy, value_digit hn]
          omega
      · -- neighbouring digits: `y` alone is below `b` if more follows it there
        by_cases hlonger : ys ≠ []
        · have hyzero : y ≠ '0' := by
            rintro rfl
            rw [value_zero] at hvalue
            omega
          refine ⟨[y], by rw [if_neg hroom, if_pos hlonger],
            isFraction_singleton hy hyzero, lt_cons_of_headD_lt hlt,
            List.cons_lt_cons_iff.mpr (Or.inr ⟨rfl, ?_⟩)⟩
          obtain ⟨z, zs, rfl⟩ := List.exists_cons_of_ne_nil hlonger
          exact List.nil_lt_cons z zs
        · -- otherwise the first digit of `a` is kept, and its rest grows
          obtain ⟨m, hm, hfraction, habove⟩ := fractionAbove?_spec htail
          refine ⟨a.headD '0' :: m, ?_, ?_, lt_headD_cons habove,
            List.cons_lt_cons_iff.mpr (Or.inl hlt)⟩
          · rw [if_neg hroom, if_neg hlonger, hm]
            rfl
          · exact (isFraction_cons (ne_nil_of_lt habove)).mpr ⟨hx, hfraction⟩
    · -- the first digit is shared
      have hysFraction := ((isFraction_cons (ne_nil_of_lt hlt)).mp hb).2
      obtain ⟨m, hm, hfraction, habove, hbelow⟩ := ih htail hysFraction hlt
      refine ⟨y :: m, ?_, ?_, ?_, ?_⟩
      · simp only [if_pos heq, hm, Option.map_some]
      · exact (isFraction_cons (ne_nil_of_lt habove)).mpr ⟨hy, hfraction⟩
      · rw [← heq]
        exact lt_headD_cons habove
      · exact List.cons_lt_cons_iff.mpr (Or.inr ⟨rfl, hbelow⟩)

theorem midpoint_none_eq (ha : IsFraction a) (hm : fractionAbove? a = some m) :
    midpoint a none = .ok m := by
  simp [midpoint, ha.endsInZero_eq, hm, pure, Except.pure]

theorem midpoint_some_eq (ha : IsFraction a) (hb : IsFraction b) (h : a < b)
    (hm : fractionInside? a b = some m) : midpoint a (some b) = .ok m := by
  simp [midpoint, h, ha.endsInZero_eq, hb.endsInZero_eq, hm, pure, Except.pure]

/-- A midpoint up to one exists. -/
theorem midpoint_none_spec (ha : IsFraction a) :
    ∃ m, midpoint a none = .ok m ∧ IsFraction m ∧ a < m := by
  obtain ⟨m, hm, hfraction, habove⟩ := fractionAbove?_spec ha.isDigits
  exact ⟨m, midpoint_none_eq ha hm, hfraction, habove⟩

/-- A midpoint of two fractions in order exists. -/
theorem midpoint_some_spec (ha : IsFraction a) (hb : IsFraction b) (h : a < b) :
    ∃ m, midpoint a (some b) = .ok m ∧ IsFraction m ∧ a < m ∧ m < b := by
  obtain ⟨m, hm, hfraction, habove, hbelow⟩ := fractionInside?_spec ha.isDigits hb h
  exact ⟨m, midpoint_some_eq ha hb h hm, hfraction, habove, hbelow⟩

end fraction

end Agenda.SortKey
