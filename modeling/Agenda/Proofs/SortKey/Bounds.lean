import Agenda.Proofs.SortKey.Keys
import Agenda.Proofs.SortKey.Runs

/-! # The key between two bounds

    For any two bounds, each a text or missing, it is known what comes of asking for a key
    between them (`between_spec`).  Bounds that do not fit are refused for what is wrong with
    them.  Between bounds that fit there is a key, at most one character longer than the longer
    bound, and accepted in all cases but one. -/

namespace Agenda.SortKey

/-! ## Section 1: Lengths

    A step to another integer part and a new fraction add one character at most. -/

/-! ### Fractions -/

section fractions
variable {a b m : Text}

theorem fractionAbove?_length (h : fractionAbove? a = some m) : m.length ≤ a.length + 1 := by
  induction a generalizing m with
  | nil =>
    obtain rfl := Option.some.inj h
    show 1 ≤ 1
    omega
  | cons c rest ih =>
    unfold fractionAbove? at h
    obtain ⟨d, -, h⟩ := Option.bind_eq_some_iff.mp h
    by_cases hd : d = 61
    · -- the last digit is kept, and the rest makes room
      rw [if_pos hd] at h
      obtain ⟨m', hm', h⟩ := Option.bind_eq_some_iff.mp h
      obtain rfl := Option.some.inj h
      have hlength := ih hm'
      rw [List.length_cons, List.length_cons]
      omega
    · rw [if_neg hd] at h
      obtain rfl := Option.some.inj h
      show 1 ≤ (c :: rest).length + 1
      omega

theorem fractionInside?_length (h : fractionInside? a b = some m) :
    m.length ≤ 1 + max a.length b.length := by
  induction b generalizing a m with
  | nil =>
    unfold fractionInside? at h
    cases h
  | cons y ys ih =>
    have htail : a.tail.length = a.length - 1 := List.length_tail
    unfold fractionInside? at h
    rw [List.length_cons]
    by_cases hshared : a.headD '0' = y
    · -- an `a` that has ended has no tail to shorten, but `b` loses a digit either way
      simp only [if_pos hshared] at h
      obtain ⟨m', hm', rfl⟩ := Option.map_eq_some_iff.mp h
      have hlength := ih hm'
      rw [List.length_cons]
      omega
    · simp only [if_neg hshared] at h
      obtain ⟨dx, -, h⟩ := Option.bind_eq_some_iff.mp h
      obtain ⟨dy, -, h⟩ := Option.bind_eq_some_iff.mp h
      by_cases hroom : 1 < dy - dx
      · rw [if_pos hroom] at h
        obtain rfl := Option.some.inj h
        rw [List.length_singleton]
        omega
      rw [if_neg hroom] at h
      by_cases hlonger : ys ≠ []
      · rw [if_pos hlonger] at h
        obtain rfl := Option.some.inj h
        rw [List.length_singleton]
        omega
      · -- the digit of `a` is kept, and the rest of `a` makes room
        rw [if_neg hlonger] at h
        obtain ⟨m', hm', h⟩ := Option.bind_eq_some_iff.mp h
        obtain rfl := Option.some.inj h
        have hlength := fractionAbove?_length hm'
        rw [List.length_cons]
        omega

/-- A midpoint up to one adds a character at most. -/
theorem midpoint_none_length (ha : IsFraction a) (h : midpoint a none = .ok m) :
    m.length ≤ a.length + 1 := by
  obtain ⟨m', hm', -, -⟩ := fractionAbove?_spec ha.isDigits
  obtain rfl := Except.ok.inj ((midpoint_none_eq ha hm').symm.trans h)
  exact fractionAbove?_length hm'

/-- A midpoint of two fractions adds a character to the longer one at most. -/
theorem midpoint_some_length (ha : IsFraction a) (hb : IsFraction b) (hab : a < b)
    (h : midpoint a (some b) = .ok m) : m.length ≤ 1 + max a.length b.length := by
  obtain ⟨m', hm', -, -, -⟩ := fractionInside?_spec ha.isDigits hb hab
  obtain rfl := Except.ok.inj ((midpoint_some_eq ha hb hab hm').symm.trans h)
  exact fractionInside?_length hm'

end fractions

/-! ### Neighbouring integer parts -/

/-- Where the numbers of one head end and those of another begin, the lengths differ by one at
    most. -/
theorem neighbouring_heads : heads.all (fun c => heads.all fun d =>
    base c + 62 ^ width c = base d → width d ≤ width c + 1 ∧ width c ≤ width d + 1) = true := by
  decide +kernel

section integers
variable {c d : Char} {ds es x y : Text}

theorem width_le_of_neighbours (hc : isHead c = true) (hd : isHead d = true)
    (h : base c + 62 ^ width c = base d) : width d ≤ width c + 1 ∧ width c ≤ width d + 1 :=
  of_decide_eq_true (of_all_heads (of_all_heads neighbouring_heads hc) hd) h

/-- The last number of a head and the next one, which has a later head. -/
theorem base_eq_of_next (hx : IsInteger (c :: ds)) (hy : IsInteger (d :: es)) (hcd : c < d)
    (h : number (d :: es) ≤ number (c :: ds) + 1) : base c + 62 ^ width c = base d := by
  have hbase := base_add_le_base (isInteger_cons.mp hx).1 (isInteger_cons.mp hy).1 hcd
  have hlt := hx.number_lt_of_head
  have hge : base d ≤ number (d :: es) := by
    rw [number]
    omega
  omega

/-- **Integer parts of neighbouring numbers have neighbouring lengths.** -/
theorem IsInteger.length_le (hx : IsInteger x) (hy : IsInteger y)
    (h : number y ≤ number x + 1) (h' : number x ≤ number y + 1) : y.length ≤ x.length + 1 := by
  cases x with
  | nil => exact absurd hx not_isInteger_nil
  | cons c ds =>
    cases y with
    | nil => exact absurd hy not_isInteger_nil
    | cons d es =>
      obtain ⟨hc, hds, -⟩ := isInteger_cons.mp hx
      obtain ⟨hd, hes, -⟩ := isInteger_cons.mp hy
      -- with one head the lengths are one, with two the numbers meet at the border of both
      have hwidth : width d ≤ width c + 1 := by
        rcases lt_trichotomy c d with hlt | rfl | hlt
        · exact (width_le_of_neighbours hc hd (base_eq_of_next hx hy hlt h)).1
        · omega
        · exact (width_le_of_neighbours hd hc (base_eq_of_next hy hx hlt h')).2
      rw [List.length_cons, List.length_cons]
      omega

theorem incrementInteger?_length (hx : IsInteger x) (h : incrementInteger? x = some y) :
    y.length ≤ x.length + 1 := by
  have hnext := incrementInteger?_spec hx
  rw [h] at hnext
  obtain ⟨hy, hnumber⟩ := hnext
  exact hx.length_le hy (by omega) (by omega)

theorem decrementInteger?_length (hx : IsInteger x) (h : decrementInteger? x = some y) :
    y.length ≤ x.length + 1 := by
  have hprevious := decrementInteger?_spec hx
  rw [h] at hprevious
  obtain ⟨hy, hnumber⟩ := hprevious
  exact hx.length_le hy (by omega) (by omega)

end integers

/-! ### Keys -/

section keys
variable {a b k : Text}

theorem length_parts (key : Text) :
    key.length = (integerPart key).length + (fractionPart key).length := by
  rw [← List.length_append, integerPart_append_fractionPart]

/-- A key with the integer part of `a` and a larger fraction. -/
theorem midpoint_above_length (ha : WellFormed a)
    (h : (integerPart a ++ ·) <$> midpoint (fractionPart a) none = .ok k) :
    k.length ≤ a.length + 1 := by
  obtain ⟨m, hm, rfl⟩ := map_eq_ok_iff.mp h
  have hlength := midpoint_none_length ha.fraction hm
  rw [List.length_append, length_parts a]
  omega

theorem above_length (ha : IsKey a) (h : above a = .ok k) : k.length ≤ a.length + 1 := by
  unfold above at h
  dsimp only at h
  cases hnext : incrementInteger? (integerPart a) with
  | none =>
    rw [hnext] at h
    exact midpoint_above_length ha.toWellFormed h
  | some i =>
    rw [hnext] at h
    obtain rfl := Except.ok.inj h
    have hlength := incrementInteger?_length ha.integer hnext
    have hparts := length_parts a
    omega

theorem inside_length (ha : IsKey a) (hb : IsKey b) (hab : a < b) (h : inside a b = .ok k) :
    k.length ≤ 1 + max a.length b.length := by
  have hpartsa := length_parts a
  have hpartsb := length_parts b
  unfold inside at h
  dsimp only at h
  by_cases heq : integerPart a = integerPart b
  · -- the integer part is written once, the fraction is no longer than the longer one and one
    rw [if_pos heq] at h
    obtain ⟨m, hm, rfl⟩ := map_eq_ok_iff.mp h
    have hlt : fractionPart a < fractionPart b := by
      rcases (lt_iff_parts ha.toWellFormed hb.toWellFormed).mp hab with hlt | ⟨-, hlt⟩
      · exact absurd heq (ne_of_lt hlt)
      · exact hlt
    have hlength := midpoint_some_length ha.fraction hb.fraction hlt hm
    rw [List.length_append]
    rw [heq] at hpartsa ⊢
    omega
  rw [if_neg heq] at h
  cases hnext : incrementInteger? (integerPart a) with
  | none =>
    rw [hnext] at h
    cases h
  | some i =>
    rw [hnext] at h
    dsimp only at h
    by_cases hlt : i < b
    · rw [if_pos hlt] at h
      obtain rfl := Except.ok.inj h
      have hlength := incrementInteger?_length ha.integer hnext
      omega
    · rw [if_neg hlt] at h
      have hlength := midpoint_above_length ha.toWellFormed h
      omega

theorem below_length (hb : IsKey b) (h : below b = .ok k) : k.length ≤ b.length + 1 := by
  have hparts := length_parts b
  unfold below at h
  dsimp only at h
  by_cases hsmallest : integerPart b = smallestInteger
  · rw [if_pos hsmallest] at h
    obtain ⟨m, hm, rfl⟩ := map_eq_ok_iff.mp h
    have hlt : [] < fractionPart b := nil_lt_of_ne_nil (hb.fractionPart_ne_nil hsmallest)
    have hlength := midpoint_some_length isFraction_nil hb.fraction hlt hm
    have hnil : List.length ([] : Text) = 0 := List.length_nil
    have hpos : 0 < (fractionPart b).length := List.length_pos_of_ne_nil (ne_nil_of_lt hlt)
    rw [List.length_append]
    omega
  rw [if_neg hsmallest] at h
  -- what is cut off is at most the fraction, and a borrow adds one digit at most
  by_cases hlt : integerPart b < b
  · rw [if_pos hlt] at h
    obtain rfl := Except.ok.inj h
    omega
  · rw [if_neg hlt] at h
    cases hprevious : decrementInteger? (integerPart b) with
    | none =>
      rw [hprevious] at h
      cases h
    | some i =>
      rw [hprevious] at h
      obtain rfl := Except.ok.inj h
      have hlength := decrementInteger?_length hb.integer hprevious
      omega

end keys

/-! ## Section 2: Bounds that are refused -/

/-- The bounds that are given are accepted and in order. -/
structure BoundsFit (before after : Option Text) : Prop where
  lower   : ∀ a ∈ before, isValid a = true
  upper   : ∀ b ∈ after, isValid b = true
  ordered : ∀ a ∈ before, ∀ b ∈ after, a < b

/-- Does the error say what is wrong with a bound, or that the bounds are out of order? -/
def KeyError.refusesBounds : KeyError → Bool
  | .empty | .badHead _ | .malformed _ | .boundsOutOfOrder _ _ => true
  | _ => false

theorem refusesBounds_of_validate {key : Text} {e : KeyError} (h : validate key = .error e) :
    e.refusesBounds = true := by
  unfold validate at h
  split at h
  · obtain rfl := Except.error.inj h
    rfl
  · split at h
    · obtain rfl := Except.error.inj h
      rfl
    · split at h
      · obtain rfl := Except.error.inj h
        rfl
      · split_ifs at h
        all_goals
          obtain rfl := Except.error.inj h
          rfl

section bounds
variable {before after : Option Text} {e : KeyError} {k : Text}

/-- **Accepted bounds in order have a key between them, and no others.** -/
theorem between_isOk_iff : (∃ k, between before after = .ok k) ↔ BoundsFit before after := by
  constructor
  · intro h
    obtain ⟨k, hk⟩ := h
    obtain ⟨hbefore, hafter, hlt⟩ := accepted_of_between hk
    exact ⟨fun a ha => isValid_iff.mpr (hbefore a ha), fun b hb => isValid_iff.mpr (hafter b hb),
      hlt⟩
  · intro h
    have hbefore : ∀ a ∈ before, IsKey a := fun a ha => isValid_iff.mp (h.lower a ha)
    have hafter : ∀ b ∈ after, IsKey b := fun b hb => isValid_iff.mp (h.upper b hb)
    cases after with
    | none =>
      obtain ⟨k, hk, -⟩ := afterLast_spec hbefore
      exact ⟨k, hk⟩
    | some b =>
      cases before with
      | none =>
        obtain ⟨k, hk, -⟩ := below_spec (hafter b rfl)
        exact ⟨k, (between_none_some (hafter b rfl)).trans hk⟩
      | some a =>
        have hab := h.ordered a rfl b rfl
        obtain ⟨k, hk, -⟩ := inside_spec (hbefore a rfl) (hafter b rfl) hab
        exact ⟨k, (between_some_some (hbefore a rfl) (hafter b rfl) hab).trans hk⟩

/-- **Where no key is made, a bound is refused**: no step inside fails. -/
theorem refusesBounds_of_between (h : between before after = .error e) :
    e.refusesBounds = true := by
  -- past the checks of the bounds nothing fails any more
  cases before with
  | none =>
    cases after with
    | none => cases h
    | some b =>
      rcases bind_eq_error_iff.mp h with hb | ⟨⟨⟩, hb, hbelow⟩
      · exact refusesBounds_of_validate hb
      · obtain ⟨k, hk, -⟩ := below_spec (validate_eq_ok_iff.mp hb)
        have hcontra := hk.symm.trans hbelow
        cases hcontra
  | some a =>
    rcases bind_eq_error_iff.mp h with ha | ⟨⟨⟩, ha, hnext⟩
    · exact refusesBounds_of_validate ha
    cases after with
    | none =>
      obtain ⟨k, hk, -⟩ := above_spec (validate_eq_ok_iff.mp ha)
      have hcontra := hk.symm.trans hnext
      cases hcontra
    | some b =>
      rcases bind_eq_error_iff.mp hnext with hb | ⟨⟨⟩, hb, hinside⟩
      · exact refusesBounds_of_validate hb
      by_cases hab : a < b
      · obtain ⟨k, hk, -⟩ := inside_spec (validate_eq_ok_iff.mp ha) (validate_eq_ok_iff.mp hb) hab
        have hinside : inside a b = .error e := (if_pos hab).symm.trans hinside
        have hcontra := hk.symm.trans hinside
        cases hcontra
      · have herror : Except.error (.boundsOutOfOrder a b) = Except.error e :=
          (if_neg hab).symm.trans hinside
        obtain rfl := Except.error.inj herror
        rfl

/-! ## Section 3: The key that is made -/

/-- A key is one character longer than its longer bound at most. -/
theorem between_length (h : between before after = .ok k) :
    k.length ≤ 1 + max 1 (max (before.getD []).length (after.getD []).length) := by
  obtain ⟨hbefore, hafter, hlt⟩ := accepted_of_between h
  cases before with
  | none =>
    cases after with
    | none =>
      obtain rfl := Except.ok.inj h
      decide
    | some b =>
      have hb := hafter b rfl
      have hlength := below_length hb ((between_none_some hb).symm.trans h)
      show k.length ≤ 1 + max 1 (max 0 b.length)
      omega
  | some a =>
    have ha := hbefore a rfl
    cases after with
    | none =>
      have hlength := above_length ha ((between_some_none ha).symm.trans h)
      show k.length ≤ 1 + max 1 (max a.length 0)
      omega
    | some b =>
      have hb := hafter b rfl
      have hab := hlt a rfl b rfl
      have hlength := inside_length ha hb hab ((between_some_some ha hb hab).symm.trans h)
      show k.length ≤ 1 + max 1 (max a.length b.length)
      omega

theorem secondInteger_spec :
    IsInteger secondInteger ∧ number secondInteger = -(span 26 : Int) + 1 := by
  refine ⟨⟨by decide +kernel, ?_⟩, by decide +kernel⟩
  intro c hc
  have hdigits : (List.replicate 25 '0' ++ ['1']).all (· ∈ digits) = true := by decide +kernel
  exact of_decide_eq_true (List.all_eq_true.mp hdigits c hc)

/-- No integer part but the smallest is below a key exactly if that is the second one. -/
theorem integersBelow_eq_zero_iff {b : Text} (hb : IsKey b)
    (hne : integerPart b ≠ smallestInteger) : integersBelow b = 0 ↔ b = secondInteger := by
  obtain ⟨hsecond, hnumber⟩ := secondInteger_spec
  constructor
  · intro h
    unfold integersBelow at h
    by_cases hnil : fractionPart b = []
    · rw [if_pos hnil] at h
      have hparts := integerPart_append_fractionPart b
      rw [hnil, List.append_nil] at hparts
      rw [← hparts]
      exact number_inj hb.integer hsecond (by omega)
    · rw [if_neg hnil] at h
      -- an integer part at the beginning of the numbers is the smallest
      have hsmallest : number (integerPart b) = number smallestInteger := by
        rw [number_smallest]
        omega
      exact absurd (number_inj hb.integer isInteger_smallest hsmallest) hne
  · rintro rfl
    unfold integersBelow
    rw [integerPart_of_isInteger hsecond, fractionPart_of_isInteger hsecond, if_pos rfl, hnumber]
    omega

/-- Below a key an accepted one is made unless that is the second of all integer parts. -/
theorem isKey_below_iff {b : Text} (hb : IsKey b) (h : below b = .ok k) :
    IsKey k ↔ b ≠ secondInteger := by
  obtain ⟨k', hk', -, -, hcases⟩ := below_spec hb
  obtain rfl := Except.ok.inj (hk'.symm.trans h)
  -- on the smallest integer the fraction shrinks; elsewhere the key made is an integer
  rcases hcases with ⟨hsmallest, hkey, -⟩ | ⟨hne, hinteger, hnumber⟩
  · have hb' : b ≠ secondInteger := by
      rintro rfl
      rw [integerPart_of_isInteger secondInteger_spec.1] at hsmallest
      exact absurd hsmallest (by decide +kernel)
    exact iff_of_true hkey hb'
  · rw [ne_eq, ← integersBelow_eq_zero_iff hb hne, ← hnumber]
    constructor
    · intro hkey hzero
      have hsmallest : number k' = number smallestInteger := by
        rw [number_smallest]
        omega
      exact hkey.ne_smallest (number_inj hinteger isInteger_smallest hsmallest)
    · intro hne
      apply isKey_of_isInteger hinteger
      rintro rfl
      rw [number_smallest] at hne
      omega

/-- The key that is made is accepted, but for one case. -/
theorem isValid_between_iff (h : between before after = .ok k) :
    isValid k = true ↔ ¬(before = none ∧ after = some secondInteger) := by
  obtain ⟨hbefore, hafter, hlt⟩ := accepted_of_between h
  rw [isValid_iff]
  cases after with
  | none =>
    obtain ⟨k', hk', hkey, -⟩ := afterLast_spec hbefore
    obtain rfl := Except.ok.inj (hk'.symm.trans h)
    exact iff_of_true hkey (by simp)
  | some b =>
    have hb := hafter b rfl
    cases before with
    | none =>
      rw [isKey_below_iff hb ((between_none_some hb).symm.trans h)]
      simp
    | some a =>
      have ha := hbefore a rfl
      have hab := hlt a rfl b rfl
      obtain ⟨k', hk', hkey, -⟩ := inside_spec ha hb hab
      rw [between_some_some ha hb hab, hk'] at h
      obtain rfl := Except.ok.inj h
      exact iff_of_true hkey (by simp)

end bounds

/-- **What comes of any two bounds**: an error exactly if they do not fit, and then one that
    refuses them; otherwise a key strictly between them, at most one character longer than the
    longer one, and accepted unless it had to be below the second of all integer parts. -/
theorem between_spec (before after : Option Text) :
    ((∃ e, between before after = .error e) ↔ ¬BoundsFit before after) ∧
      (∀ e, between before after = .error e → e.refusesBounds = true) ∧
      (BoundsFit before after → ∃ k, between before after = .ok k ∧
        (∀ a ∈ before, a < k) ∧ (∀ b ∈ after, k < b) ∧
        k.length ≤ 1 + max 1 (max (before.getD []).length (after.getD []).length) ∧
        (isValid k = true ↔ ¬(before = none ∧ after = some secondInteger))) := by
  refine ⟨?_, fun _ => refusesBounds_of_between, ?_⟩
  · rw [← between_isOk_iff]
    cases between before after <;> simp
  · intro hfit
    obtain ⟨k, hk⟩ := between_isOk_iff.mpr hfit
    obtain ⟨habove, hbelow⟩ := between_strict hk
    exact ⟨k, hk, habove, hbelow, between_length hk, isValid_between_iff hk⟩

end Agenda.SortKey
