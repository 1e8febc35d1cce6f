import Agenda.Proofs.Basic
import Agenda.Proofs.SortKey.Fractions
import Agenda.Proofs.SortKey.Integers
import Mathlib.Tactic.SplitIfs

/-! # Keys and keys between them

    An accepted key is an integer part and a fraction, and is not the smallest integer part
    (`validate_eq_ok_iff`).  Keys are ordered by integer part, then by fraction.  Between
    accepted bounds in order a key is always found and it is accepted, but for one case: below
    the second integer part there is only the smallest one (`below_spec`). -/

namespace Agenda.SortKey

/-! ## Section 1: The two parts of a key -/

/-- The parts of a key are an integer part and a fraction. -/
structure WellFormed (key : Text) : Prop where
  integer  : IsInteger (integerPart key)
  fraction : IsFraction (fractionPart key)

/-- A key that is accepted. -/
structure IsKey (key : Text) : Prop extends WellFormed key where
  ne_smallest : key ≠ smallestInteger

theorem integerPart_cons (head : Char) (rest : Text) :
    integerPart (head :: rest) = (head :: rest).take ((integerLength? head).getD 0) := rfl

theorem integerPart_append_fractionPart (key : Text) :
    integerPart key ++ fractionPart key = key := by
  cases key with
  | nil => rfl
  | cons head rest =>
    rw [fractionPart, integerPart_cons, List.length_take]
    rcases Nat.le_total ((integerLength? head).getD 0) (head :: rest).length with h | h
    · rw [Nat.min_eq_left h, List.take_append_drop]
    · rw [Nat.min_eq_right h, List.take_of_length_le h, List.drop_length, List.append_nil]

section parts
variable {i j f g x y key : Text}

theorem integerPart_append (hi : IsInteger i) (f : Text) : integerPart (i ++ f) = i := by
  cases hi with
  | @intro head ds hlength hds =>
    rw [List.cons_append, integerPart_cons, hlength, Option.getD_some, List.take_succ_cons,
      List.take_left]

theorem fractionPart_append (hi : IsInteger i) (f : Text) : fractionPart (i ++ f) = f := by
  rw [fractionPart, integerPart_append hi, List.drop_left]

theorem integerPart_of_isInteger (hi : IsInteger i) : integerPart i = i := by
  have h := integerPart_append hi []
  rwa [List.append_nil] at h

theorem fractionPart_of_isInteger (hi : IsInteger i) : fractionPart i = [] := by
  have h := fractionPart_append hi []
  rwa [List.append_nil] at h

theorem wellFormed_append (hi : IsInteger i) (hf : IsFraction f) : WellFormed (i ++ f) := by
  refine ⟨?_, ?_⟩
  · rwa [integerPart_append hi]
  · rwa [fractionPart_append hi]

theorem wellFormed_of_isInteger (hi : IsInteger i) : WellFormed i := by
  have h := wellFormed_append hi isFraction_nil
  rwa [List.append_nil] at h

/-- With a fraction, no key is the smallest integer part. -/
theorem isKey_append (hi : IsInteger i) (hf : IsFraction f) (hne : f ≠ []) : IsKey (i ++ f) := by
  refine ⟨wellFormed_append hi hf, ?_⟩
  intro h
  have hnil := fractionPart_append hi f
  rw [h, fractionPart_of_isInteger isInteger_smallest] at hnil
  exact hne hnil.symm

theorem isKey_of_isInteger (hi : IsInteger i) (hne : i ≠ smallestInteger) : IsKey i :=
  ⟨wellFormed_of_isInteger hi, hne⟩

/-- An accepted key with the smallest integer part has a fraction. -/
theorem IsKey.fractionPart_ne_nil (h : IsKey key) (hsmallest : integerPart key = smallestInteger) :
    fractionPart key ≠ [] := by
  intro hnil
  have hkey := integerPart_append_fractionPart key
  rw [hnil, List.append_nil, hsmallest] at hkey
  exact h.ne_smallest hkey.symm

/-! ## Section 2: The order of keys -/

theorem append_lt_append_iff_of_length (hlen : i.length = j.length) :
    i ++ f < j ++ g ↔ i < j ∨ i = j ∧ f < g := by
  induction i generalizing j with
  | nil =>
    obtain rfl : j = [] := List.length_eq_zero_iff.mp hlen.symm
    simp
  | cons c i ih =>
    cases j with
    | nil => simp at hlen
    | cons d j =>
      have hlen' : i.length = j.length := by simpa using hlen
      rw [List.cons_append, List.cons_append, List.cons_lt_cons_iff, List.cons_lt_cons_iff,
        ih hlen', List.cons.injEq]
      constructor
      · intro h
        rcases h with h | ⟨rfl, h | ⟨rfl, h⟩⟩
        · exact Or.inl (Or.inl h)
        · exact Or.inl (Or.inr ⟨rfl, h⟩)
        · exact Or.inr ⟨⟨rfl, rfl⟩, h⟩
      · intro h
        rcases h with (h | ⟨rfl, h⟩) | ⟨⟨rfl, rfl⟩, h⟩
        · exact Or.inl h
        · exact Or.inr ⟨rfl, Or.inl h⟩
        · exact Or.inr ⟨rfl, Or.inr ⟨rfl, h⟩⟩

/-- Keys are ordered by their integer parts, then by their fractions. -/
theorem append_lt_append_iff (hi : IsInteger i) (hj : IsInteger j) :
    i ++ f < j ++ g ↔ i < j ∨ i = j ∧ f < g := by
  cases hi with
  | @intro c ds hc hds =>
    cases hj with
    | @intro d es hd hes =>
      -- one head means one length; different heads decide by themselves
      by_cases h : c = d
      · subst h
        have hlen : ds.length = es.length := by simpa [hc] using hd
        exact append_lt_append_iff_of_length (by simpa using hlen)
      · rw [List.cons_append, List.cons_append, List.cons_lt_cons_iff, List.cons_lt_cons_iff]
        simp [h]

theorem lt_iff_parts (hx : WellFormed x) (hy : WellFormed y) :
    x < y ↔ integerPart x < integerPart y ∨
      integerPart x = integerPart y ∧ fractionPart x < fractionPart y := by
  have h := append_lt_append_iff (f := fractionPart x) (g := fractionPart y) hx.integer hy.integer
  rwa [integerPart_append_fractionPart, integerPart_append_fractionPart] at h

theorem nil_lt_of_ne_nil (hf : f ≠ []) : [] < f := by
  obtain ⟨c, f, rfl⟩ := List.exists_cons_of_ne_nil hf
  exact List.nil_lt_cons c f

/-- The integer part is below a key with a fraction, and is a key without one. -/
theorem integerPart_lt_iff (hx : WellFormed x) : integerPart x < x ↔ fractionPart x ≠ [] := by
  rw [lt_iff_parts (wellFormed_of_isInteger hx.integer) hx,
    integerPart_of_isInteger hx.integer, fractionPart_of_isInteger hx.integer]
  constructor
  · intro h
    rcases h with h | ⟨-, h⟩
    · exact absurd h (lt_irrefl _)
    · exact ne_nil_of_lt h
  · intro h
    exact Or.inr ⟨rfl, nil_lt_of_ne_nil h⟩

/-! ## Section 3: Accepted keys -/

theorem not_isInteger_nil : ¬IsInteger [] := by
  intro h
  cases h

theorem one_lt_integerLength {head : Char} {n : Nat} (h : integerLength? head = some n) :
    1 < n := by
  unfold integerLength? at h
  split_ifs at h <;> obtain rfl := Option.some.inj h <;> omega

/-- A key with a whole integer part is split where its head says. -/
theorem isInteger_integerPart_iff {head : Char} {rest : Text} {n : Nat}
    (hn : integerLength? head = some n) (hlen : n ≤ (head :: rest).length) :
    (IsInteger (integerPart (head :: rest)) ∧ IsDigits (fractionPart (head :: rest))) ↔
      IsDigits rest := by
  have hone := one_lt_integerLength hn
  obtain ⟨m, rfl⟩ : ∃ m, n = m + 1 := ⟨n - 1, by omega⟩
  -- the head stands before the digits that it counts
  have hinteger : integerPart (head :: rest) = head :: rest.take m := by
    rw [integerPart_cons, hn, Option.getD_some, List.take_succ_cons]
  have hm : (rest.take m).length = m := by
    rw [List.length_take]
    simp only [List.length_cons] at hlen
    omega
  have hfraction : fractionPart (head :: rest) = rest.drop m := by
    rw [fractionPart, hinteger, List.length_cons, hm, List.drop_succ_cons]
  rw [hinteger, hfraction]
  constructor
  · intro h
    obtain ⟨⟨-, htake⟩, hdrop⟩ := h
    have h := isDigits_append.mpr ⟨htake, hdrop⟩
    rwa [List.take_append_drop] at h
  · intro h
    rw [← List.take_append_drop m rest] at h
    obtain ⟨htake, hdrop⟩ := isDigits_append.mp h
    exact ⟨⟨by rw [hm, hn], htake⟩, hdrop⟩

/-- A whole integer part has a head, and as many characters as the head says. -/
theorem exists_integerLength {head : Char} {rest : Text}
    (h : IsInteger (integerPart (head :: rest))) :
    ∃ n, integerLength? head = some n ∧ n ≤ (head :: rest).length := by
  cases hn : integerLength? head with
  | none =>
    rw [integerPart_cons, hn] at h
    exact absurd h not_isInteger_nil
  | some n =>
    refine ⟨n, rfl, ?_⟩
    by_contra hlen
    rw [integerPart_cons, hn, Option.getD_some, List.take_of_length_le (by omega)] at h
    cases h with
    | intro hlength _ =>
      rw [hn] at hlength
      obtain rfl := Option.some.inj hlength
      simp at hlen

/-- **Accepted are the keys with an integer part other than the smallest and a fraction.** -/
theorem validate_eq_ok_iff : validate key = .ok () ↔ IsKey key := by
  cases key with
  | nil =>
    refine ⟨nofun, fun h => absurd h.integer not_isInteger_nil⟩
  | cons head rest =>
    unfold validate
    dsimp only
    -- one check after another: each rules out one thing that a key is not
    by_cases hsmallest : head :: rest = smallestInteger
    · rw [if_pos hsmallest]
      exact ⟨nofun, fun h => absurd hsmallest h.ne_smallest⟩
    rw [if_neg hsmallest]
    cases hn : integerLength? head with
    | none =>
      refine ⟨nofun, fun h => ?_⟩
      obtain ⟨n, hn', -⟩ := exists_integerLength h.integer
      rw [hn] at hn'
      cases hn'
    | some n =>
      dsimp only
      by_cases hlen : (head :: rest).length < n
      · rw [if_pos hlen]
        refine ⟨nofun, fun h => ?_⟩
        obtain ⟨n', hn', hle⟩ := exists_integerLength h.integer
        obtain rfl := Option.some.inj (hn.symm.trans hn')
        omega
      rw [if_neg hlen]
      have hparts := isInteger_integerPart_iff hn (Nat.le_of_not_lt hlen)
      by_cases hdigits : IsDigits rest
      · obtain ⟨hinteger, hfraction⟩ := hparts.mpr hdigits
        have hany : ¬(rest.any (· ∉ digits)) = true := by
          simpa [List.any_eq_true, IsDigits] using hdigits
        rw [if_neg hany]
        by_cases hzero : (fractionPart (head :: rest)).getLast? = some '0'
        · rw [if_pos hzero]
          exact ⟨nofun, fun h => absurd hzero h.fraction.noTrailingZero⟩
        · rw [if_neg hzero]
          exact ⟨fun _ => ⟨⟨hinteger, hfraction, hzero⟩, hsmallest⟩, fun _ => rfl⟩
      · have hany : (rest.any (· ∉ digits)) = true := by
          simpa [List.any_eq_true, IsDigits] using hdigits
        rw [if_pos hany]
        refine ⟨nofun, fun h => absurd ?_ hdigits⟩
        exact hparts.mp ⟨h.integer, h.fraction.isDigits⟩

theorem isValid_iff : isValid key = true ↔ IsKey key := by
  rw [← validate_eq_ok_iff, isValid]
  cases validate key with
  | error e => simp [Except.isOk, Except.toBool]
  | ok u => simp [Except.isOk, Except.toBool]

end parts

/-! ## Section 4: Keys between keys -/

/-- What is above an integer part is not the smallest one. -/
theorem ne_smallest_of_lt {i j : Text} (hi : IsInteger i) (hj : IsInteger j) (h : i < j) :
    j ≠ smallestInteger := by
  rintro rfl
  have hlt := (lt_iff_number_lt hi hj).mp h
  have hge := hi.number_ge
  rw [number_smallest] at hlt
  omega

section bounds
variable {a b : Text}

/-- A longer fraction makes a key above. -/
theorem midpoint_above (ha : WellFormed a) :
    ∃ k, (integerPart a ++ ·) <$> midpoint (fractionPart a) none = .ok k ∧ IsKey k ∧ a < k ∧
      integerPart k = integerPart a := by
  obtain ⟨m, hm, hfraction, habove⟩ := midpoint_none_spec ha.fraction
  have hkey := isKey_append ha.integer hfraction (ne_nil_of_lt habove)
  have hinteger := integerPart_append ha.integer m
  refine ⟨integerPart a ++ m, by rw [hm]; rfl, hkey, ?_, hinteger⟩
  rw [lt_iff_parts ha hkey.toWellFormed, hinteger, fractionPart_append ha.integer]
  exact Or.inr ⟨rfl, habove⟩

/-- **Above every accepted key there is one.** -/
theorem above_spec (ha : IsKey a) : ∃ k, above a = .ok k ∧ IsKey k ∧ a < k := by
  have hnext := incrementInteger?_spec ha.integer
  unfold above
  cases h : incrementInteger? (integerPart a) with
  | none =>
    obtain ⟨k, hk, hkey, hlt, -⟩ := midpoint_above ha.toWellFormed
    exact ⟨k, by simpa only [h] using hk, hkey, hlt⟩
  | some k =>
    rw [h] at hnext
    obtain ⟨hk, hnumber⟩ := hnext
    have hlt : integerPart a < k := (lt_iff_number_lt ha.integer hk).mpr (by omega)
    have hkey := isKey_of_isInteger hk (ne_smallest_of_lt ha.integer hk hlt)
    refine ⟨k, by simp only [h], hkey, ?_⟩
    rw [lt_iff_parts ha.toWellFormed hkey.toWellFormed, integerPart_of_isInteger hk]
    exact Or.inl hlt

/-- **Between two accepted keys in order there is one.** -/
theorem inside_spec (ha : IsKey a) (hb : IsKey b) (hab : a < b) :
    ∃ k, inside a b = .ok k ∧ IsKey k ∧ a < k ∧ k < b := by
  unfold inside
  dsimp only
  rcases (lt_iff_parts ha.toWellFormed hb.toWellFormed).mp hab with hlt | ⟨heq, hlt⟩
  · -- the next integer part serves, unless it reaches `b`; then `a` gets a larger fraction
    rw [if_neg (ne_of_lt hlt)]
    have hnext := incrementInteger?_spec ha.integer
    have hnumber := (lt_iff_number_lt ha.integer hb.integer).mp hlt
    cases h : incrementInteger? (integerPart a) with
    | none =>
      rw [h] at hnext
      have hend := hb.integer.number_lt
      dsimp only at hnext
      omega
    | some k =>
      rw [h] at hnext
      obtain ⟨hk, hnumber'⟩ := hnext
      have hak : integerPart a < k := (lt_iff_number_lt ha.integer hk).mpr (by omega)
      by_cases hkb : k < b
      · have hkey := isKey_of_isInteger hk (ne_smallest_of_lt ha.integer hk hak)
        refine ⟨k, by simp only [if_pos hkb], hkey, ?_, hkb⟩
        rw [lt_iff_parts ha.toWellFormed hkey.toWellFormed, integerPart_of_isInteger hk]
        exact Or.inl hak
      · obtain ⟨k', hk', hkey, hak', hinteger⟩ := midpoint_above ha.toWellFormed
        refine ⟨k', by simpa only [if_neg hkb] using hk', hkey, hak', ?_⟩
        rw [lt_iff_parts hkey.toWellFormed hb.toWellFormed, hinteger]
        exact Or.inl hlt
  · -- one integer part: the fractions leave room
    rw [if_pos heq]
    obtain ⟨m, hm, hfraction, habove, hbelow⟩ :=
      midpoint_some_spec ha.fraction hb.fraction hlt
    have hkey := isKey_append ha.integer hfraction (ne_nil_of_lt habove)
    refine ⟨integerPart a ++ m, by rw [hm]; rfl, hkey, ?_, ?_⟩
    · rw [lt_iff_parts ha.toWellFormed hkey.toWellFormed, integerPart_append ha.integer,
        fractionPart_append ha.integer]
      exact Or.inr ⟨rfl, habove⟩
    · rw [lt_iff_parts hkey.toWellFormed hb.toWellFormed, integerPart_append ha.integer,
        fractionPart_append ha.integer]
      exact Or.inr ⟨heq, hbelow⟩

/-- How many integer parts there are below a key, the smallest one left out: its own counts
    if a fraction follows it. -/
def integersBelow (key : Text) : Int :=
  number (integerPart key) + span 26 - if fractionPart key = [] then 1 else 0

/-- **Below every accepted key a key is found**: another fraction of the smallest integer part,
    or the next integer part below, which may be the smallest itself. -/
theorem below_spec (hb : IsKey b) :
    ∃ k, below b = .ok k ∧ WellFormed k ∧ k < b ∧
      (integerPart b = smallestInteger ∧ IsKey k ∧ integerPart k = smallestInteger ∨
        integerPart b ≠ smallestInteger ∧ IsInteger k ∧
          number k + span 26 = integersBelow b) := by
  unfold below integersBelow
  dsimp only
  by_cases hsmallest : integerPart b = smallestInteger
  · -- no integer part is left below, but `b` is more than the smallest one and has a fraction
    have hne := hb.fractionPart_ne_nil hsmallest
    rw [if_pos hsmallest, hsmallest]
    obtain ⟨m, hm, hfraction, habove, hbelow⟩ :=
      midpoint_some_spec isFraction_nil hb.fraction (nil_lt_of_ne_nil hne)
    have hkey := isKey_append isInteger_smallest hfraction (ne_nil_of_lt habove)
    refine ⟨smallestInteger ++ m, by rw [hm]; rfl, hkey.toWellFormed, ?_,
      Or.inl ⟨rfl, hkey, integerPart_append isInteger_smallest m⟩⟩
    rw [lt_iff_parts hkey.toWellFormed hb.toWellFormed, integerPart_append isInteger_smallest,
      fractionPart_append isInteger_smallest]
    exact Or.inr ⟨hsmallest.symm, hbelow⟩
  · rw [if_neg hsmallest]
    by_cases hne : fractionPart b = []
    · -- `b` is an integer part itself, so the previous one is taken
      have hlt : ¬integerPart b < b := fun h => (integerPart_lt_iff hb.toWellFormed).mp h hne
      have hprevious := decrementInteger?_spec hb.integer
      rw [if_neg hlt, if_pos hne]
      cases h : decrementInteger? (integerPart b) with
      | none =>
        rw [h, ← number_smallest] at hprevious
        exact absurd (number_inj hb.integer isInteger_smallest hprevious) hsmallest
      | some k =>
        rw [h] at hprevious
        obtain ⟨hk, hnumber⟩ := hprevious
        refine ⟨k, rfl, wellFormed_of_isInteger hk, ?_, Or.inr ⟨hsmallest, hk, by omega⟩⟩
        rw [lt_iff_parts (wellFormed_of_isInteger hk) hb.toWellFormed,
          integerPart_of_isInteger hk]
        exact Or.inl ((lt_iff_number_lt hk hb.integer).mpr (by omega))
    · have hlt := (integerPart_lt_iff hb.toWellFormed).mpr hne
      rw [if_pos hlt, if_neg hne]
      exact ⟨integerPart b, rfl, wellFormed_of_isInteger hb.integer, hlt,
        Or.inr ⟨hsmallest, hb.integer, by omega⟩⟩

theorem isKey_defaultKey : IsKey defaultKey := isValid_iff.mp (by decide +kernel)

theorem between_none_some (hb : IsKey b) : between none (some b) = below b := by
  show (validate b >>= fun _ => below b) = below b
  rw [validate_eq_ok_iff.mpr hb]
  rfl

theorem between_some_none (ha : IsKey a) : between (some a) none = above a := by
  show (validate a >>= fun _ => above a) = above a
  rw [validate_eq_ok_iff.mpr ha]
  rfl

theorem between_some_some (ha : IsKey a) (hb : IsKey b) (hab : a < b) :
    between (some a) (some b) = inside a b := by
  show (validate a >>= fun _ => validate b >>= fun _ =>
    if a < b then inside a b else throw (.boundsOutOfOrder a b)) = inside a b
  rw [validate_eq_ok_iff.mpr ha, validate_eq_ok_iff.mpr hb, if_pos hab]
  rfl

end bounds

/-- The bounds of a key are accepted keys in order. -/
theorem accepted_of_between {before after : Option Text} {k : Text}
    (h : between before after = .ok k) :
    (∀ a ∈ before, IsKey a) ∧ (∀ b ∈ after, IsKey b) ∧
      ∀ a ∈ before, ∀ b ∈ after, a < b := by
  have key_of_validate {x : Text} {next : Except KeyError Text}
      (hx : (validate x >>= fun _ => next) = .ok k) : IsKey x ∧ next = .ok k := by
    obtain ⟨u, hv, hx⟩ := bind_eq_ok_iff.mp hx
    exact ⟨validate_eq_ok_iff.mp hv, hx⟩
  cases before with
  | none =>
    cases after with
    | none => simp
    | some b =>
      have hb := (key_of_validate (x := b) h).1
      simpa using hb
  | some a =>
    obtain ⟨ha, hnext⟩ := key_of_validate (x := a) h
    cases after with
    | none => simpa using ha
    | some b =>
      obtain ⟨hb, hinside⟩ := key_of_validate (x := b) hnext
      by_cases hab : a < b
      · simpa using ⟨ha, hb, hab⟩
      · dsimp only at hinside
        rw [if_neg hab] at hinside
        cases hinside

/-- **A key that is made lies strictly between its bounds.** -/
theorem between_strict {before after : Option Text} {k : Text}
    (h : between before after = .ok k) :
    (∀ a ∈ before, a < k) ∧ ∀ b ∈ after, k < b := by
  obtain ⟨hbefore, hafter, hlt⟩ := accepted_of_between h
  cases before with
  | none =>
    cases after with
    | none => simp
    | some b =>
      obtain ⟨k', hk', -, hkb, -⟩ := below_spec (hafter b rfl)
      rw [between_none_some (hafter b rfl), hk'] at h
      obtain rfl := Except.ok.inj h
      simpa using hkb
  | some a =>
    cases after with
    | none =>
      obtain ⟨k', hk', -, hak⟩ := above_spec (hbefore a rfl)
      rw [between_some_none (hbefore a rfl), hk'] at h
      obtain rfl := Except.ok.inj h
      simpa using hak
    | some b =>
      have hab := hlt a rfl b rfl
      obtain ⟨k', hk', -, hak, hkb⟩ := inside_spec (hbefore a rfl) (hafter b rfl) hab
      rw [between_some_some (hbefore a rfl) (hafter b rfl) hab, hk'] at h
      obtain rfl := Except.ok.inj h
      simpa using ⟨hak, hkb⟩

end Agenda.SortKey
