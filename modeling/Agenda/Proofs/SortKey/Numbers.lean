import Agenda.Proofs.SortKey.Runs
import Mathlib.Algebra.Order.Field.Rat
import Mathlib.Data.Nat.Log
import Mathlib.Order.Monotone.Basic
import Mathlib.Tactic.Linarith
import Mathlib.Tactic.Positivity

/-! # The numbers of keys

    A key denotes a number: that of its integer part and, after the point, its fraction read in
    base 62.  The order of keys as texts is the order of these numbers.  The steps from one
    integer part to the next and to the previous one add and take one and undo each other, so
    fresh keys are numbered from 0, and the keys of appended items grow with the logarithm of
    how many there are (`keys_follow_numbers`). -/

namespace Agenda.SortKey

/-! ## Section 1: Fractions -/

/-- The number below one that a fraction denotes in base 62. -/
def fractionNumber : Text → ℚ
  | [] => 0
  | c :: rest => (value c + fractionNumber rest) / 62

theorem fractionNumber_cons (c : Char) (rest : Text) :
    fractionNumber (c :: rest) = (value c + fractionNumber rest) / 62 := rfl

section fractions
variable {c : Char} {f g : Text}

theorem fractionNumber_nonneg (f : Text) : 0 ≤ fractionNumber f := by
  induction f with
  | nil => exact le_refl 0
  | cons c rest ih =>
    rw [fractionNumber_cons]
    positivity

theorem fractionNumber_lt_one (hf : IsDigits f) : fractionNumber f < 1 := by
  induction f with
  | nil => exact zero_lt_one
  | cons c rest ih =>
    obtain ⟨hc, hrest⟩ := isDigits_cons.mp hf
    have hvalue : (value c : ℚ) ≤ 61 := by
      exact_mod_cast Nat.le_of_lt_succ (value_lt hc)
    have hlt := ih hrest
    rw [fractionNumber_cons]
    linarith

theorem IsFraction.of_cons (h : IsFraction (c :: f)) : c ∈ digits ∧ IsFraction f := by
  by_cases hnil : f = []
  · rw [hnil]
    exact ⟨(isDigits_cons.mp h.isDigits).1, isFraction_nil⟩
  · exact (isFraction_cons hnil).mp h

/-- Without a zero at its end, a fraction with digits is more than nothing. -/
theorem fractionNumber_pos (hf : IsFraction f) (hne : f ≠ []) : 0 < fractionNumber f := by
  induction f with
  | nil => exact absurd rfl hne
  | cons c rest ih =>
    obtain ⟨hc, hrest⟩ := hf.of_cons
    rw [fractionNumber_cons]
    by_cases hnil : rest = []
    · have hzero : c ≠ '0' := by
        rintro rfl
        rw [hnil] at hf
        exact hf.noTrailingZero rfl
      have hpos : (0 : ℚ) < value c := by exact_mod_cast value_pos hc hzero
      have hge := fractionNumber_nonneg rest
      linarith
    · have hpos := ih hrest hnil
      have hge : (0 : ℚ) ≤ value c := by positivity
      linarith

theorem fractionNumber_lt (hf : IsFraction f) (hg : IsFraction g) (h : f < g) :
    fractionNumber f < fractionNumber g := by
  induction f generalizing g with
  | nil => exact fractionNumber_pos hg (ne_nil_of_lt h)
  | cons c f ih =>
    cases g with
    | nil => exact absurd h (List.not_lt_nil _)
    | cons d g =>
      obtain ⟨hc, hf⟩ := hf.of_cons
      obtain ⟨hd, hg⟩ := hg.of_cons
      rw [fractionNumber_cons, fractionNumber_cons]
      -- a larger first digit outweighs all the digits after it
      rcases List.cons_lt_cons_iff.mp h with hlt | ⟨heq, hlt⟩
      · have hvalue : (value c : ℚ) + 1 ≤ value d := by
          exact_mod_cast (lt_iff_value_lt hc hd).mp hlt
        have hone := fractionNumber_lt_one hf.isDigits
        have hge := fractionNumber_nonneg g
        linarith
      · have hrest := ih hf hg hlt
        rw [heq]
        linarith

end fractions

/-! ## Section 2: Keys -/

/-- The number that a key denotes. -/
def keyNumber (key : Text) : ℚ := number (integerPart key) + fractionNumber (fractionPart key)

section keys
variable {x y : Text}

theorem keyNumber_of_isInteger (hx : IsInteger x) : keyNumber x = number x := by
  rw [keyNumber, integerPart_of_isInteger hx, fractionPart_of_isInteger hx, fractionNumber,
    add_zero]

theorem keyNumber_strictMonoOn : StrictMonoOn keyNumber {key | WellFormed key} := by
  intro x hx y hy hxy
  unfold keyNumber
  rcases (lt_iff_parts hx hy).mp hxy with hlt | ⟨heq, hlt⟩
  · -- the integer parts differ by one at least, which no fraction makes up for
    have hinteger : (number (integerPart x) : ℚ) + 1 ≤ number (integerPart y) := by
      exact_mod_cast (lt_iff_number_lt hx.integer hy.integer).mp hlt
    have hone := fractionNumber_lt_one hx.fraction.isDigits
    have hge := fractionNumber_nonneg (fractionPart y)
    linarith
  · have hfraction := fractionNumber_lt hx.fraction hy.fraction hlt
    rw [heq]
    linarith

/-- **Keys are ordered as their numbers.** -/
theorem lt_iff_keyNumber_lt (hx : WellFormed x) (hy : WellFormed y) :
    x < y ↔ keyNumber x < keyNumber y :=
  (keyNumber_strictMonoOn.lt_iff_lt hx hy).symm

theorem keyNumber_inj (hx : WellFormed x) (hy : WellFormed y) :
    keyNumber x = keyNumber y ↔ x = y :=
  keyNumber_strictMonoOn.eq_iff_eq hx hy

end keys

/-! ## Section 3: Steps between integer parts -/

/-- The integer part above which there is none. -/
def largestInteger : Text := 'z' :: List.replicate 26 'z'

theorem isInteger_largest : IsInteger largestInteger := by
  refine ⟨by decide, ?_⟩
  intro c hc
  obtain rfl := List.eq_of_mem_replicate hc
  exact z_mem

theorem number_largest : number largestInteger + 1 = span 26 := by decide +kernel

section integers
variable {x y : Text} (hx : IsInteger x)
include hx

theorem incrementInteger?_eq_some_iff :
    incrementInteger? x = some y ↔ IsInteger y ∧ number y = number x + 1 := by
  have hnext := incrementInteger?_spec hx
  constructor
  · intro h
    rwa [h] at hnext
  · intro h
    obtain ⟨hy, hnumber⟩ := h
    cases h : incrementInteger? x with
    | none =>
      rw [h] at hnext
      have hlt := hy.number_lt
      dsimp only at hnext
      omega
    | some z =>
      rw [h] at hnext
      obtain ⟨hz, hnumber'⟩ := hnext
      rw [number_inj hz hy (hnumber'.trans hnumber.symm)]

theorem decrementInteger?_eq_some_iff :
    decrementInteger? x = some y ↔ IsInteger y ∧ number y + 1 = number x := by
  have hprevious := decrementInteger?_spec hx
  constructor
  · intro h
    rwa [h] at hprevious
  · intro h
    obtain ⟨hy, hnumber⟩ := h
    cases h : decrementInteger? x with
    | none =>
      rw [h] at hprevious
      have hge := hy.number_ge
      dsimp only at hprevious
      omega
    | some z =>
      rw [h] at hprevious
      obtain ⟨hz, hnumber'⟩ := hprevious
      rw [number_inj hz hy (by omega)]

theorem incrementInteger?_eq_none_iff : incrementInteger? x = none ↔ x = largestInteger := by
  have hlargest := number_largest
  have hnext := incrementInteger?_spec hx
  constructor
  · intro h
    rw [h] at hnext
    exact number_inj hx isInteger_largest (by omega)
  · rintro rfl
    cases h : incrementInteger? largestInteger with
    | none => rfl
    | some z =>
      rw [h] at hnext
      obtain ⟨hz, hnumber⟩ := hnext
      have hlt := hz.number_lt
      omega

theorem decrementInteger?_eq_none_iff : decrementInteger? x = none ↔ x = smallestInteger := by
  have hprevious := decrementInteger?_spec hx
  constructor
  · intro h
    rw [h] at hprevious
    exact number_inj hx isInteger_smallest (hprevious.trans number_smallest.symm)
  · rintro rfl
    cases h : decrementInteger? smallestInteger with
    | none => rfl
    | some z =>
      rw [h, number_smallest] at hprevious
      obtain ⟨hz, hnumber⟩ := hprevious
      have hge := hz.number_ge
      omega

/-- **The two steps undo each other.** -/
theorem incrementInteger?_iff_decrementInteger? (hy : IsInteger y) :
    incrementInteger? x = some y ↔ decrementInteger? y = some x := by
  rw [incrementInteger?_eq_some_iff hx, decrementInteger?_eq_some_iff hy, eq_comm]
  exact and_congr_left fun _ => iff_of_true hy hx

theorem IsInteger.le_largest : x ≤ largestInteger := by
  have hlargest := number_largest
  have hlt := hx.number_lt
  apply not_lt.mp
  rw [lt_iff_number_lt isInteger_largest hx]
  omega

theorem IsInteger.smallest_le : smallestInteger ≤ x := by
  have hge := hx.number_ge
  apply not_lt.mp
  rw [lt_iff_number_lt hx isInteger_smallest, number_smallest]
  omega

/-- Above an integer part that is not the largest, the next one is taken. -/
theorem above_of_isInteger (h : number x + 1 < span 26) :
    ∃ y, above x = .ok y ∧ IsInteger y ∧ number y = number x + 1 := by
  have hnext := incrementInteger?_spec hx
  unfold above
  rw [integerPart_of_isInteger hx]
  cases hy : incrementInteger? x with
  | none =>
    rw [hy] at hnext
    exact absurd hnext (ne_of_lt h)
  | some y =>
    rw [hy] at hnext
    refine ⟨y, ?_, hnext⟩
    simp only [hy]

end integers

/-! ## Section 4: Appends -/

/-- The list after `n` appends to the empty one. -/
def appended : Nat → Except KeyError (List Text)
  | 0 => .ok []
  | n + 1 => do
    let keys ← appended n
    let k ← afterLast keys.getLast?
    return keys ++ [k]

/-- Integer parts that denote `m` and the numbers after it. -/
def NumberedFrom : Nat → List Text → Prop
  | _, [] => True
  | m, k :: ks => IsInteger k ∧ number k = m ∧ NumberedFrom (m + 1) ks

/-- The number after that of the last key is `m`; without a last key, it is 0. -/
def Precedes : Option Text → Nat → Prop
  | none, m => m = 0
  | some k, m => IsInteger k ∧ number k + 1 = m

section appends
variable {k : Text} {ks : List Text} {last : Option Text} {m n : Nat}

theorem numberedFrom_concat :
    NumberedFrom m (ks ++ [k]) ↔ NumberedFrom m ks ∧ IsInteger k ∧ number k = m + ks.length := by
  induction ks generalizing m with
  | nil => simp [NumberedFrom]
  | cons k' ks ih =>
    rw [List.cons_append, NumberedFrom, NumberedFrom, ih, List.length_cons, and_assoc, and_assoc]
    push_cast
    rw [add_assoc, add_comm (1 : Int)]

theorem NumberedFrom.map_keyNumber (h : NumberedFrom m ks) :
    ks.map keyNumber = (List.range' m ks.length).map Nat.cast := by
  induction ks generalizing m with
  | nil => rfl
  | cons k ks ih =>
    obtain ⟨hk, hnumber, hks⟩ := h
    rw [List.length_cons, List.range'_succ, List.map_cons, List.map_cons, ih hks,
      keyNumber_of_isInteger hk, hnumber, Int.cast_natCast]

/-- What is numbered from 0 ends before the number that is its length. -/
theorem NumberedFrom.precedes (h : NumberedFrom 0 ks) : Precedes ks.getLast? ks.length := by
  rcases List.eq_nil_or_concat' ks with rfl | ⟨front, k, rfl⟩
  · exact rfl
  · obtain ⟨-, hk, hnumber⟩ := numberedFrom_concat.mp h
    rw [List.getLast?_concat, List.length_append, List.length_singleton]
    refine ⟨hk, ?_⟩
    push_cast at hnumber ⊢
    omega

theorem Precedes.isKey (h : Precedes (some k) m) : IsKey k := by
  obtain ⟨hk, hnumber⟩ := h
  apply isKey_of_isInteger hk
  rintro rfl
  rw [number_smallest] at hnumber
  have hspan : 1 < span 26 := by decide +kernel
  omega

/-- **One append takes the next number.** -/
theorem afterLast_of_precedes (h : Precedes last m) (hm : m < span 26) :
    ∃ k, afterLast last = .ok k ∧ IsInteger k ∧ number k = m := by
  cases last with
  | none =>
    obtain rfl : m = 0 := h
    refine ⟨defaultKey, rfl, ?_, by decide +kernel⟩
    exact ⟨by decide, isDigits_singleton.mpr zero_mem⟩
  | some x =>
    have hkey := h.isKey
    obtain ⟨hx, hnumber⟩ := h
    obtain ⟨k, hk, hinteger, hnumber'⟩ := above_of_isInteger hx (by omega)
    exact ⟨k, (between_some_none hkey).trans hk, hinteger, hnumber'.trans hnumber⟩

/-- Any number of appends take the numbers from 0 on. -/
theorem appended_spec (h : n ≤ span 26) :
    ∃ ks, appended n = .ok ks ∧ ks.length = n ∧ NumberedFrom 0 ks := by
  induction n with
  | zero => exact ⟨[], rfl, rfl, trivial⟩
  | succ n ih =>
    obtain ⟨ks, hks, hlength, hnumbered⟩ := ih (by omega)
    -- the last key of the list has the number before the one that is appended
    have hprecedes := hnumbered.precedes
    rw [hlength] at hprecedes
    obtain ⟨k, hk, hinteger, hnumber⟩ := afterLast_of_precedes hprecedes (by omega)
    refine ⟨ks ++ [k], ?_, ?_, ?_⟩
    · unfold appended
      rw [hks]
      show (afterLast ks.getLast? >>= fun k => pure (ks ++ [k])) = _
      rw [hk]
      rfl
    · rw [List.length_append, List.length_singleton, hlength]
    · rw [numberedFrom_concat, hlength]
      exact ⟨hnumbered, hinteger, by omega⟩

/-- Keys made one after the other take the numbers after that of the last one. -/
theorem manyAfter_numberedFrom (hlast : Precedes last m) (h : m + n ≤ span 26) :
    ∃ ks, manyAfter last n = .ok ks ∧ ks.length = n ∧ NumberedFrom m ks := by
  induction n generalizing last m with
  | zero => exact ⟨[], rfl, rfl, trivial⟩
  | succ n ih =>
    obtain ⟨k, hk, hinteger, hnumber⟩ := afterLast_of_precedes hlast (by omega)
    have hprecedes : Precedes (some k) (m + 1) := ⟨hinteger, by omega⟩
    obtain ⟨ks, hks, hlength, hnumbered⟩ := ih hprecedes (by omega)
    refine ⟨k :: ks, ?_, by rw [List.length_cons, hlength], hinteger, hnumber, hnumbered⟩
    show (afterLast last >>= fun k => manyAfter (some k) n >>= fun ks => pure (k :: ks)) = _
    rw [hk]
    show (manyAfter (some k) n >>= fun ks => pure (k :: ks)) = _
    rw [hks]
    rfl

/-! ### How long the keys get -/

theorem pow_le_span (h : 0 < n) : 62 ^ n ≤ span n := by
  cases n with
  | zero => exact absurd h (Nat.lt_irrefl 0)
  | succ n =>
    rw [span]
    exact Nat.le_add_left _ _

/-- All shorter integer parts are used up before one is made. -/
theorem span_le_of_number (hk : IsInteger k) (hn : number k = n) : span (k.length - 2) ≤ n := by
  cases k with
  | nil => exact absurd hk not_isInteger_nil
  | cons head ds =>
    obtain ⟨hhead, hlength, -⟩ := isInteger_cons.mp hk
    have hlt := hk.number_lt_of_head
    have hsmall : 'a' ≤ head := by
      by_contra hcapital
      -- the number would be negative
      have hbase := base_add_le_base hhead (by decide : isHead 'a' = true) (not_le.mp hcapital)
      have hzero : base 'a' = 0 := by decide
      omega
    rw [number, base, if_pos hsmall] at hn
    have hshorter : (head :: ds).length - 2 = width head - 1 := by
      rw [List.length_cons, hlength]
      omega
    rw [hshorter]
    omega

/-- An integer part is at most two characters longer than the logarithm of its number. -/
theorem length_le_of_number (hk : IsInteger k) (hn : number k = n) :
    k.length ≤ Nat.log 62 n + 2 := by
  have hspan := span_le_of_number hk hn
  rcases Nat.eq_zero_or_pos (k.length - 2) with hzero | hpos
  · omega
  · have hpow := (pow_le_span hpos).trans hspan
    have hlog := Nat.le_log_of_pow_le (by omega) hpow
    omega

/-! ### Fresh keys and the last key -/

/-- **Fresh keys are numbered from 0 on.** -/
theorem rebalance_numbered (h : n ≤ span 26) :
    ∃ ks, rebalance n = .ok ks ∧ (∀ k ∈ ks, isValid k = true) ∧
      ks.map keyNumber = (List.range n).map Nat.cast := by
  have hstart : Precedes none 0 := rfl
  have hroom : 0 + n ≤ span 26 := by omega
  obtain ⟨ks, hks, hlength, hnumbered⟩ := manyAfter_numberedFrom hstart hroom
  have hrebalance : rebalance n = .ok ks := by
    rw [rebalance, keysBetween_eq_many]
    exact hks
  obtain ⟨ks', hks', -, hordered⟩ := rebalance_spec n
  obtain rfl := Except.ok.inj (hks'.symm.trans hrebalance)
  refine ⟨ks', hrebalance, hordered.accepted, ?_⟩
  rw [hnumbered.map_keyNumber, hlength, List.range_eq_range']

/-- **The key appended after `n` others has the number `n`**, and is at most two characters longer
    than the logarithm of `n`. -/
theorem appended_succ (h : n < span 26) :
    ∃ ks k, appended n = .ok ks ∧ appended (n + 1) = .ok (ks ++ [k]) ∧ keyNumber k = n ∧
      k.length ≤ Nat.log 62 n + 2 := by
  obtain ⟨ks', hks', hlength, hnumbered⟩ := appended_spec h
  obtain ⟨ks, hks, happend⟩ := bind_eq_ok_iff.mp hks'
  obtain ⟨k, -, happend⟩ := bind_eq_ok_iff.mp happend
  obtain rfl := Except.ok.inj happend
  obtain ⟨-, hk, hnumber⟩ := numberedFrom_concat.mp hnumbered
  rw [List.length_append, List.length_singleton] at hlength
  have hn : number k = n := by
    rw [hnumber]
    omega
  refine ⟨ks, k, hks, hks', ?_, length_le_of_number hk hn⟩
  rw [keyNumber_of_isInteger hk, hn, Int.cast_natCast]

end appends

/-! ## Section 5: Order, steps and appends -/

/-- **Keys follow their numbers.**  Accepted keys are ordered as their numbers, so different keys
    denote different numbers.  The step to the next integer part adds one, the step to the
    previous one takes one, each fails at the last one in its direction only, and they undo each
    other.  While there are integer parts, fresh keys are numbered from 0 on, and the key of the
    item appended after `n` others has the number `n` and is at most two characters longer than
    the logarithm of `n`. -/
theorem keys_follow_numbers :
    (∀ x y, isValid x = true → isValid y = true →
      (x < y ↔ keyNumber x < keyNumber y) ∧ (keyNumber x = keyNumber y ↔ x = y)) ∧
    (∀ i, IsInteger i →
      (∀ j, incrementInteger? i = some j → IsInteger j ∧ number j = number i + 1) ∧
      (∀ j, decrementInteger? i = some j → IsInteger j ∧ number j = number i - 1) ∧
      (incrementInteger? i = none ↔ ∀ j, IsInteger j → j ≤ i) ∧
      (decrementInteger? i = none ↔ ∀ j, IsInteger j → i ≤ j) ∧
      ∀ j, IsInteger j → (incrementInteger? i = some j ↔ decrementInteger? j = some i)) ∧
    (∀ n ≤ span 26, ∃ ks, rebalance n = .ok ks ∧ (∀ k ∈ ks, isValid k = true) ∧
      ks.map keyNumber = (List.range n).map Nat.cast) ∧
    ∀ n < span 26, ∃ ks k, appended n = .ok ks ∧ appended (n + 1) = .ok (ks ++ [k]) ∧
      keyNumber k = n ∧ k.length ≤ Nat.log 62 n + 2 := by
  refine ⟨?_, ?_, ?_, ?_⟩
  · intro x y hx hy
    have hx := (isValid_iff.mp hx).toWellFormed
    have hy := (isValid_iff.mp hy).toWellFormed
    exact ⟨lt_iff_keyNumber_lt hx hy, keyNumber_inj hx hy⟩
  · intro i hi
    refine ⟨?_, ?_, ?_, ?_, fun j hj => incrementInteger?_iff_decrementInteger? hi hj⟩
    · intro j hj
      exact (incrementInteger?_eq_some_iff hi).mp hj
    · intro j hj
      obtain ⟨hinteger, hnumber⟩ := (decrementInteger?_eq_some_iff hi).mp hj
      exact ⟨hinteger, by omega⟩
    · rw [incrementInteger?_eq_none_iff hi]
      constructor
      · rintro rfl j hj
        exact hj.le_largest
      · intro h
        exact le_antisymm hi.le_largest (h _ isInteger_largest)
    · rw [decrementInteger?_eq_none_iff hi]
      constructor
      · rintro rfl j hj
        exact hj.smallest_le
      · intro h
        exact le_antisymm (h _ isInteger_smallest) hi.smallest_le
  · intro n hn
    exact rebalance_numbered hn
  · intro n hn
    exact appended_succ hn

/-- `Zz` denotes -1 and `a0V` a half, so they stand in this order. -/
theorem keys_follow_numbers_aroundZero :
    isValid "Zz".toList = true ∧ isValid "a0V".toList = true ∧
      keyNumber "Zz".toList = -1 ∧ keyNumber "a0V".toList = 1 / 2 ∧
      "Zz".toList < "a0V".toList := by
  have hx : isValid "Zz".toList = true := by decide +kernel
  have hy : isValid "a0V".toList = true := by decide +kernel
  have hnumber : keyNumber "Zz".toList = -1 := by decide +kernel
  have hnumber' : keyNumber "a0V".toList = 1 / 2 := by decide +kernel
  refine ⟨hx, hy, hnumber, hnumber', ((keys_follow_numbers.1 _ _ hx hy).1).mpr ?_⟩
  rw [hnumber, hnumber']
  norm_num

end Agenda.SortKey
