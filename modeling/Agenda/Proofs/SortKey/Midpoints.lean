import Agenda.Proofs.SortKey.Bounds

/-! # Midpoints of fractions

    For any two operands it is known what comes of asking for their midpoint
    (`midpoint_between`).  Fractions in order have one, at most one digit longer than the longer
    of them, and it is a fraction again, so the halving can go on.  Operands out of order, or
    with a zero at an end, are refused. -/

namespace Agenda.SortKey

/-! ## Section 1: Operands that are refused -/

/-- The operands of a midpoint are in order, and none ends in a zero. -/
structure OperandsFit (a : Text) (b : Option Text) : Prop where
  inOrder : ∀ t ∈ b, a < t
  lower   : a.getLast? ≠ some '0'
  upper   : ∀ t ∈ b, t.getLast? ≠ some '0'

section operands
variable {a t : Text} {b : Option Text}

/-- Operands out of order are refused, whatever they end in. -/
theorem midpoint_of_not_lt (h : ¬a < t) :
    midpoint a (some t) = .error (.fractionsOutOfOrder a t) := by
  unfold midpoint
  show (if _ then _ else _) = _
  rw [if_pos h]
  rfl

theorem endsInZero_iff : endsInZero a = true ↔ a.getLast? = some '0' := beq_iff_eq

/-- Of operands in order one with a zero at its end is refused. -/
theorem midpoint_of_endsInZero (horder : ∀ t ∈ b, a < t)
    (h : a.getLast? = some '0' ∨ ∃ t ∈ b, t.getLast? = some '0') :
    midpoint a b = .error (.trailingZero a b) := by
  have hzero : (endsInZero a || (b.map endsInZero).getD false) = true := by
    rw [Bool.or_eq_true, endsInZero_iff]
    refine h.imp_right ?_
    rintro ⟨t, rfl, ht⟩
    exact endsInZero_iff.mpr ht
  unfold midpoint
  cases b with
  | none =>
    show (if _ then _ else _) = _
    rw [if_pos hzero]
    rfl
  | some t =>
    have hlt := horder t rfl
    show (if _ then _ else _) = _
    rw [if_neg (not_not.mpr hlt)]
    show (if _ then _ else _) = _
    rw [if_pos hzero]
    rfl

/-! ## Section 2: The midpoint -/

/-- **Fractions in order have a midpoint**, a fraction again and one digit longer at most. -/
theorem OperandsFit.exists_midpoint (h : OperandsFit a b) (ha : IsDigits a)
    (hb : ∀ t ∈ b, IsDigits t) :
    ∃ m, midpoint a b = .ok m ∧ IsFraction m ∧ a < m ∧ (∀ t ∈ b, m < t) ∧
      m.length ≤ 1 + max a.length (b.getD []).length := by
  have hfraction : IsFraction a := ⟨ha, h.lower⟩
  cases b with
  | none =>
    obtain ⟨m, hm, hmFraction, habove⟩ := midpoint_none_spec hfraction
    have hlength := midpoint_none_length hfraction hm
    refine ⟨m, hm, hmFraction, habove, nofun, ?_⟩
    show m.length ≤ 1 + max a.length 0
    omega
  | some t =>
    have ht : IsFraction t := ⟨hb t rfl, h.upper t rfl⟩
    have hlt := h.inOrder t rfl
    obtain ⟨m, hm, hmFraction, habove, hbelow⟩ := midpoint_some_spec hfraction ht hlt
    refine ⟨m, hm, hmFraction, habove, ?_, midpoint_some_length hfraction ht hlt hm⟩
    intro t' ht'
    obtain rfl := Option.some.inj ht'
    exact hbelow

end operands

/-- **What comes of any two operands**, where a missing upper one stands for one.  Rows of
    digits in order that do not end in zeros have a midpoint: a row of digits strictly between
    them that does not end in a zero, at most one digit longer than the longer operand.
    Operands out of order are refused as such, and all others for a zero at an end. -/
theorem midpoint_between (a : Text) (b : Option Text) :
    (IsDigits a → (∀ t ∈ b, IsDigits t) → OperandsFit a b →
      ∃ m, midpoint a b = .ok m ∧ IsDigits m ∧ a < m ∧ (∀ t ∈ b, m < t) ∧
        m.getLast? ≠ some '0' ∧ m.length ≤ 1 + max a.length (b.getD []).length) ∧
      (∀ t ∈ b, ¬a < t → midpoint a b = .error (.fractionsOutOfOrder a t)) ∧
      ((∀ t ∈ b, a < t) → ¬OperandsFit a b → midpoint a b = .error (.trailingZero a b)) := by
  refine ⟨?_, ?_, ?_⟩
  · intro ha hb hfit
    obtain ⟨m, hm, hfraction, habove, hbelow, hlength⟩ := hfit.exists_midpoint ha hb
    exact ⟨m, hm, hfraction.isDigits, habove, hbelow, hfraction.noTrailingZero, hlength⟩
  · intro t ht hlt
    obtain rfl : b = some t := ht
    exact midpoint_of_not_lt hlt
  · intro horder hfit
    apply midpoint_of_endsInZero horder
    by_contra hzero
    obtain ⟨hlower, hupper⟩ := not_or.mp hzero
    exact hfit ⟨horder, hlower, fun t ht htzero => hupper ⟨t, ht, htzero⟩⟩

/-- Between neighbouring digits the first one is kept, and what follows it makes room. -/
theorem midpoint_between_neighbours :
    OperandsFit "0z".toList (some "1".toList) ∧
      ∃ m, midpoint "0z".toList (some "1".toList) = .ok m ∧ IsDigits m ∧ "0z".toList < m ∧
        (∀ t ∈ some "1".toList, m < t) ∧ m.getLast? ≠ some '0' ∧ m.length ≤ 3 := by
  have ha : IsDigits "0z".toList := isDigits_cons.mpr ⟨zero_mem, isDigits_singleton.mpr z_mem⟩
  have hb : ∀ t ∈ some "1".toList, IsDigits t := by
    intro t ht
    obtain rfl := Option.some.inj ht
    apply isDigits_singleton.mpr
    rw [digits_eq]
    decide
  have hfit : OperandsFit "0z".toList (some "1".toList) :=
    ⟨by decide, by decide, by decide⟩
  exact ⟨hfit, (midpoint_between _ _).1 ha hb hfit⟩

end Agenda.SortKey
