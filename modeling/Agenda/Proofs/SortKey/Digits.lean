import Mathlib.Data.Char
import Mathlib.Data.List.Lex
import Mathlib.Tactic.Ring
import Agenda.SortKey.Between

/-! # Rows of base-62 digits

    A row of digits denotes a number, most significant digit first.  Among rows of one length
    the order of texts is the order of the numbers (`lt_iff_ofDigits_lt`), and the steps to the
    next and to the previous row add and take one, up to what is carried out of the row. -/

namespace Agenda.SortKey

/-! ## Section 1: Digits -/

/-- The value of a digit. -/
def value (c : Char) : Nat := digits.idxOf c

/-- A row of digits. -/
def IsDigits (t : Text) : Prop := ∀ c ∈ t, c ∈ digits

theorem digits_eq : digits =
    ['0', '1', '2', '3', '4', '5', '6', '7', '8', '9',
     'A', 'B', 'C', 'D', 'E', 'F', 'G', 'H', 'I', 'J', 'K', 'L', 'M',
     'N', 'O', 'P', 'Q', 'R', 'S', 'T', 'U', 'V', 'W', 'X', 'Y', 'Z',
     'a', 'b', 'c', 'd', 'e', 'f', 'g', 'h', 'i', 'j', 'k', 'l', 'm',
     'n', 'o', 'p', 'q', 'r', 's', 't', 'u', 'v', 'w', 'x', 'y', 'z'] := by
  decide +kernel

theorem digits_length : digits.length = 62 := by
  rw [digits_eq]
  rfl

/-- The digits stand in the order of their code points. -/
theorem digits_ascend : digits.Pairwise (· < ·) := by decide +kernel

theorem digits_nodup : digits.Nodup := digits_ascend.imp fun h => ne_of_lt h

theorem zero_mem : '0' ∈ digits := by
  rw [digits_eq]
  decide

theorem z_mem : 'z' ∈ digits := by
  rw [digits_eq]
  decide

theorem value_zero : value '0' = 0 := by
  rw [value, digits_eq]
  rfl

theorem value_z : value 'z' = 61 := by
  rw [value, digits_eq]
  rfl

section digit
variable {c d : Char}

theorem value?_eq_value (hc : c ∈ digits) : value? c = some (value c) := by
  obtain ⟨n, hn⟩ := Option.isSome_iff_exists.mp (List.isSome_idxOf?.mpr hc)
  rw [value?, value, List.idxOf_eq_getD_idxOf?, hn]
  rfl

theorem value_lt_length (hc : c ∈ digits) : value c < digits.length :=
  List.idxOf_lt_length_of_mem hc

theorem value_lt (hc : c ∈ digits) : value c < 62 := by
  have hlt := value_lt_length hc
  rwa [digits_length] at hlt

theorem get_value (hc : c ∈ digits) : digits.get ⟨value c, value_lt_length hc⟩ = c :=
  List.getElem_idxOf _

theorem digit_eq_get {n : Nat} (hn : n < digits.length) : digit n = digits.get ⟨n, hn⟩ :=
  (List.getElem_eq_getD '0').symm

theorem digit_value (hc : c ∈ digits) : digit (value c) = c := by
  rw [digit_eq_get (value_lt_length hc), get_value hc]

theorem digit_mem {n : Nat} (hn : n < 62) : digit n ∈ digits := by
  rw [← digits_length] at hn
  rw [digit_eq_get hn]
  exact List.getElem_mem hn

theorem value_digit {n : Nat} (hn : n < 62) : value (digit n) = n := by
  rw [← digits_length] at hn
  rw [digit_eq_get hn]
  exact digits_nodup.idxOf_getElem n hn

/-- The order of the digits is the order of their values. -/
theorem lt_iff_value_lt (hc : c ∈ digits) (hd : d ∈ digits) : c < d ↔ value c < value d := by
  have hsorted := List.pairwise_iff_getElem.mp digits_ascend
  have hlt : ∀ {c d : Char}, c ∈ digits → d ∈ digits → value c < value d → c < d := by
    intro c d hc hd h
    have hcd : digits.get ⟨value c, value_lt_length hc⟩ <
        digits.get ⟨value d, value_lt_length hd⟩ :=
      hsorted _ _ (value_lt_length hc) (value_lt_length hd) h
    rwa [get_value hc, get_value hd] at hcd
  constructor
  · intro h
    rcases Nat.lt_trichotomy (value c) (value d) with hv | hv | hv
    · exact hv
    · obtain rfl : c = d := by rw [← digit_value hc, hv, digit_value hd]
      exact absurd h (lt_irrefl c)
    · exact absurd (hlt hd hc hv) (lt_asymm h)
  · exact hlt hc hd

theorem value_inj (hc : c ∈ digits) (hd : d ∈ digits) (h : value c = value d) : c = d := by
  rw [← digit_value hc, ← digit_value hd, h]

theorem value_pos (hc : c ∈ digits) (h : c ≠ '0') : 0 < value c := by
  rcases Nat.eq_zero_or_pos (value c) with h0 | h0
  · exact absurd (value_inj hc zero_mem (h0.trans value_zero.symm)) h
  · exact h0

theorem digit_ne_zero {n : Nat} (hn : n < 62) (h : 0 < n) : digit n ≠ '0' := by
  intro h0
  have hv := value_digit hn
  rw [h0, value_zero] at hv
  omega

end digit

/-! ## Section 2: Rows -/

theorem isDigits_nil : IsDigits [] := by simp [IsDigits]

theorem isDigits_cons {c : Char} {t : Text} : IsDigits (c :: t) ↔ c ∈ digits ∧ IsDigits t := by
  simp [IsDigits]

theorem isDigits_append {t u : Text} : IsDigits (t ++ u) ↔ IsDigits t ∧ IsDigits u := by
  simp only [IsDigits, List.mem_append]
  constructor
  · intro h
    exact ⟨fun c hc => h c (Or.inl hc), fun c hc => h c (Or.inr hc)⟩
  · rintro ⟨ht, hu⟩ c (hc | hc)
    · exact ht c hc
    · exact hu c hc

theorem isDigits_singleton {c : Char} : IsDigits [c] ↔ c ∈ digits := by simp [IsDigits]

/-- The number that a row of digits denotes. -/
def ofDigits : Text → Nat
  | [] => 0
  | c :: rest => value c * 62 ^ rest.length + ofDigits rest

theorem ofDigits_lt {ds : Text} (hds : IsDigits ds) : ofDigits ds < 62 ^ ds.length := by
  induction ds with
  | nil => simp [ofDigits]
  | cons c rest ih =>
    obtain ⟨hc, hrest⟩ := isDigits_cons.mp hds
    have hlt := ih hrest
    have hle : value c ≤ 61 := Nat.le_of_lt_succ (value_lt hc)
    have hmul : value c * 62 ^ rest.length ≤ 61 * 62 ^ rest.length := Nat.mul_le_mul_right _ hle
    rw [ofDigits, List.length_cons, pow_succ]
    omega

/-- **Rows of one length are ordered as the numbers that they denote.** -/
theorem lt_iff_ofDigits_lt {ds es : Text} (hds : IsDigits ds) (hes : IsDigits es)
    (hlen : ds.length = es.length) : ds < es ↔ ofDigits ds < ofDigits es := by
  induction ds generalizing es with
  | nil =>
    obtain rfl : es = [] := List.length_eq_zero_iff.mp hlen.symm
    simp [ofDigits]
  | cons c ds ih =>
    cases es with
    | nil => simp at hlen
    | cons d es =>
      obtain ⟨hc, hds⟩ := isDigits_cons.mp hds
      obtain ⟨hd, hes⟩ := isDigits_cons.mp hes
      have hlen' : ds.length = es.length := by simpa using hlen
      have hltds := ofDigits_lt hds
      have hltes := ofDigits_lt hes
      rw [List.cons_lt_cons_iff, lt_iff_value_lt hc hd, ih hds hes hlen', ofDigits, ofDigits,
        ← hlen']
      rw [← hlen'] at hltes
      -- a larger first digit outweighs all the digits after it
      rcases Nat.lt_trichotomy (value c) (value d) with h | h | h
      · have hmul : (value c + 1) * 62 ^ ds.length ≤ value d * 62 ^ ds.length :=
          Nat.mul_le_mul_right _ h
        rw [Nat.add_mul] at hmul
        constructor
        · intro _
          omega
        · intro _
          exact Or.inl h
      · have hcd : c = d := value_inj hc hd h
        rw [hcd]
        simp
      · have hmul : (value d + 1) * 62 ^ ds.length ≤ value c * 62 ^ ds.length :=
          Nat.mul_le_mul_right _ h
        rw [Nat.add_mul] at hmul
        constructor
        · intro h
          rcases h with h' | ⟨rfl, -⟩
          · omega
          · omega
        · intro _
          omega

theorem ofDigits_concat (ds : Text) (c : Char) :
    ofDigits (ds ++ [c]) = 62 * ofDigits ds + value c := by
  induction ds with
  | nil => simp [ofDigits]
  | cons d ds ih =>
    rw [List.cons_append, ofDigits, ih, ofDigits, List.length_append, List.length_singleton]
    ring

/-! ## Section 3: The next and the previous row -/

/-- Adding one adds one, up to the carry, and keeps the length. -/
theorem incrementDigits_spec {ds : Text} (hds : IsDigits ds) :
    IsDigits (incrementDigits ds).1 ∧ (incrementDigits ds).1.length = ds.length ∧
      ofDigits (incrementDigits ds).1 + (incrementDigits ds).2.toNat * 62 ^ ds.length =
        ofDigits ds + 1 := by
  induction ds with
  | nil => exact ⟨isDigits_nil, rfl, rfl⟩
  | cons c rest ih =>
    obtain ⟨hc, hrest⟩ := isDigits_cons.mp hds
    obtain ⟨hnext, hlen, hsum⟩ := ih hrest
    unfold incrementDigits
    rcases hcarry : incrementDigits rest with ⟨next, carry⟩
    rw [hcarry] at hnext hlen hsum
    -- the carry out of the rest is what reaches the first digit
    cases carry with
    | false =>
      refine ⟨isDigits_cons.mpr ⟨hc, hnext⟩, by simpa using hlen, ?_⟩
      simp only [Bool.toNat_false, Nat.zero_mul, Nat.add_zero] at hsum ⊢
      rw [ofDigits, ofDigits, hlen, hsum, Nat.add_assoc]
    | true =>
      simp only [value?_eq_value hc]
      simp only [Bool.toNat_true, Nat.one_mul] at hsum
      by_cases hv : value c = 61
      · rw [if_pos hv]
        refine ⟨isDigits_cons.mpr ⟨zero_mem, hnext⟩, by simpa using hlen, ?_⟩
        rw [ofDigits, ofDigits, hv, value_zero, Bool.toNat_true, List.length_cons, pow_succ]
        omega
      · rw [if_neg hv]
        have hlt : value c + 1 < 62 := by
          have hlt := value_lt hc
          omega
        refine ⟨isDigits_cons.mpr ⟨digit_mem hlt, hnext⟩, by simpa using hlen, ?_⟩
        rw [ofDigits, ofDigits, value_digit hlt, hlen, Nat.add_mul, Bool.toNat_false]
        omega

/-- Taking one takes one, up to the borrow, and keeps the length. -/
theorem decrementDigits_spec {ds : Text} (hds : IsDigits ds) :
    IsDigits (decrementDigits ds).1 ∧ (decrementDigits ds).1.length = ds.length ∧
      ofDigits (decrementDigits ds).1 + 1 =
        ofDigits ds + (decrementDigits ds).2.toNat * 62 ^ ds.length := by
  induction ds with
  | nil => exact ⟨isDigits_nil, rfl, rfl⟩
  | cons c rest ih =>
    obtain ⟨hc, hrest⟩ := isDigits_cons.mp hds
    obtain ⟨hnext, hlen, hsum⟩ := ih hrest
    unfold decrementDigits
    rcases hborrow : decrementDigits rest with ⟨next, borrow⟩
    rw [hborrow] at hnext hlen hsum
    -- the borrow of the rest is what the first digit has to give
    cases borrow with
    | false =>
      refine ⟨isDigits_cons.mpr ⟨hc, hnext⟩, by simpa using hlen, ?_⟩
      simp only [Bool.toNat_false, Nat.zero_mul, Nat.add_zero] at hsum ⊢
      rw [ofDigits, ofDigits, hlen, Nat.add_assoc, hsum]
    | true =>
      simp only [value?_eq_value hc]
      simp only [Bool.toNat_true, Nat.one_mul] at hsum
      by_cases hv : value c = 0
      · rw [if_pos hv]
        refine ⟨isDigits_cons.mpr ⟨z_mem, hnext⟩, by simpa using hlen, ?_⟩
        rw [ofDigits, ofDigits, hv, value_z, Bool.toNat_true, List.length_cons, pow_succ, hlen]
        omega
      · rw [if_neg hv]
        have hlt : value c - 1 < 62 := by
          have hlt := value_lt hc
          omega
        refine ⟨isDigits_cons.mpr ⟨digit_mem hlt, hnext⟩, by simpa using hlen, ?_⟩
        have hone : (value c - 1) * 62 ^ rest.length + 62 ^ rest.length =
            value c * 62 ^ rest.length := by
          rw [← Nat.succ_mul, Nat.succ_eq_add_one, Nat.sub_add_cancel (Nat.pos_of_ne_zero hv)]
        rw [ofDigits, ofDigits, value_digit hlt, hlen, Bool.toNat_false]
        omega

end Agenda.SortKey
