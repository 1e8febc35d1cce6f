import Agenda.Proofs.SortKey.Digits

/-! # Integer parts of sort keys

    An integer part denotes an integer: its head says how many digits follow and where the
    numbers with this head begin.  The order of integer parts is the order of their numbers
    (`lt_iff_number_lt`), and the steps to the next and to the previous one add and take one,
    and fail at the last and at the first only. -/

namespace Agenda.SortKey

/-! ## Section 1: Heads -/

/-- Is the character the head of an integer part? -/
def isHead (c : Char) : Bool := (integerLength? c).isSome

/-- Every head, in order. -/
def heads : List Char := ((List.range 123).map Char.ofNat).filter isHead

/-- How many digits follow a head. -/
def width (head : Char) : Nat := (integerLength? head).getD 1 - 1

/-- `62 + 62 ^ 2 + … + 62 ^ n`: how many numbers the first `n` lengths hold. -/
def span : Nat → Nat
  | 0 => 0
  | n + 1 => span n + 62 ^ (n + 1)

/-- The least number with this head. -/
def base (head : Char) : Int :=
  if 'a' ≤ head then span (width head - 1) else -span (width head)

theorem mem_heads {c : Char} (hc : isHead c = true) : c ∈ heads := by
  have hlt : c.toNat < 123 := by
    unfold isHead integerLength? at hc
    split at hc
    · next h => exact Nat.lt_succ_of_le h.2
    · split at hc
      · next h => exact Nat.lt_of_le_of_lt h.2 (by decide)
      · simp at hc
  refine List.mem_filter.mpr ⟨List.mem_map.mpr ⟨c.toNat, List.mem_range.mpr hlt, ?_⟩, hc⟩
  exact Char.ofNat_toNat c

theorem of_all_heads {p : Char → Bool} (h : heads.all p = true) {c : Char}
    (hc : isHead c = true) : p c = true :=
  List.all_eq_true.mp h c (mem_heads hc)

/-- What the heads are like: how wide, where their numbers begin, and which head comes next and
    which before; `Z` is followed by `a`. -/
theorem heads_table : heads.all (fun c =>
    0 < width c ∧ -(span 26 : Int) ≤ base c ∧ base c + 62 ^ width c ≤ span 26 ∧
    heads.all (fun d => c < d → base c + 62 ^ width c ≤ base d) ∧
    (c ≠ 'Z' → c ≠ 'z' →
      isHead (Char.ofNat (c.toNat + 1)) = true ∧
      base (Char.ofNat (c.toNat + 1)) = base c + 62 ^ width c ∧
      (if 'a' < Char.ofNat (c.toNat + 1) then width (Char.ofNat (c.toNat + 1)) = width c + 1
        else width (Char.ofNat (c.toNat + 1)) + 1 = width c)) ∧
    (c ≠ 'a' → c ≠ 'A' →
      isHead (Char.ofNat (c.toNat - 1)) = true ∧
      base (Char.ofNat (c.toNat - 1)) + 62 ^ width (Char.ofNat (c.toNat - 1)) = base c ∧
      (if Char.ofNat (c.toNat - 1) < 'Z' then width (Char.ofNat (c.toNat - 1)) = width c + 1
        else width (Char.ofNat (c.toNat - 1)) + 1 = width c))) = true := by
  decide +kernel

section head
variable {c d : Char}

theorem width_pos (hc : isHead c = true) : 0 < width c :=
  (of_decide_eq_true (of_all_heads heads_table hc)).1

theorem base_ge (hc : isHead c = true) : -(span 26 : Int) ≤ base c :=
  (of_decide_eq_true (of_all_heads heads_table hc)).2.1

theorem base_add_le (hc : isHead c = true) : base c + 62 ^ width c ≤ span 26 :=
  (of_decide_eq_true (of_all_heads heads_table hc)).2.2.1

/-- The numbers of one head end before those of a later head begin. -/
theorem base_add_le_base (hc : isHead c = true) (hd : isHead d = true) (h : c < d) :
    base c + 62 ^ width c ≤ base d := by
  have hall := (of_decide_eq_true (of_all_heads heads_table hc)).2.2.2.1
  exact of_decide_eq_true (of_all_heads hall hd) h

/-- The head of the next numbers. -/
theorem next_head (hc : isHead c = true) (hZ : c ≠ 'Z') (hz : c ≠ 'z') :
    isHead (Char.ofNat (c.toNat + 1)) = true ∧
      base (Char.ofNat (c.toNat + 1)) = base c + 62 ^ width c ∧
      (if 'a' < Char.ofNat (c.toNat + 1) then width (Char.ofNat (c.toNat + 1)) = width c + 1
        else width (Char.ofNat (c.toNat + 1)) + 1 = width c) :=
  (of_decide_eq_true (of_all_heads heads_table hc)).2.2.2.2.1 hZ hz

/-- The head of the previous numbers. -/
theorem previous_head (hc : isHead c = true) (ha : c ≠ 'a') (hA : c ≠ 'A') :
    isHead (Char.ofNat (c.toNat - 1)) = true ∧
      base (Char.ofNat (c.toNat - 1)) + 62 ^ width (Char.ofNat (c.toNat - 1)) = base c ∧
      (if Char.ofNat (c.toNat - 1) < 'Z' then width (Char.ofNat (c.toNat - 1)) = width c + 1
        else width (Char.ofNat (c.toNat - 1)) + 1 = width c) :=
  (of_decide_eq_true (of_all_heads heads_table hc)).2.2.2.2.2 ha hA

end head

/-! ## Section 2: Integer parts and their numbers -/

/-- An integer part: a head and as many digits as it says. -/
inductive IsInteger : Text → Prop where
  | intro {head : Char} {ds : Text} (length : integerLength? head = some (ds.length + 1))
      (isDigits : IsDigits ds) : IsInteger (head :: ds)

/-- The number that an integer part denotes. -/
def number : Text → Int
  | [] => 0
  | head :: ds => base head + ofDigits ds

section parts
variable {head : Char} {ds x y : Text}

theorem isInteger_cons : IsInteger (head :: ds) ↔
    isHead head = true ∧ ds.length = width head ∧ IsDigits ds := by
  constructor
  · intro h
    obtain ⟨hlength, hds⟩ := h
    exact ⟨by simp [isHead, hlength], by simp [width, hlength], hds⟩
  · intro h
    obtain ⟨hhead, hlength, hds⟩ := h
    obtain ⟨n, hn⟩ := Option.isSome_iff_exists.mp hhead
    have hpos := width_pos hhead
    refine ⟨?_, hds⟩
    simp only [width, hn, Option.getD_some] at hlength hpos
    rw [hn, hlength, Nat.sub_add_cancel (by omega)]

theorem IsInteger.number_lt_of_head (h : IsInteger (head :: ds)) :
    number (head :: ds) < base head + 62 ^ width head := by
  obtain ⟨-, hlength, hds⟩ := isInteger_cons.mp h
  have hlt := ofDigits_lt hds
  rw [hlength] at hlt
  have hlt' : (ofDigits ds : Int) < 62 ^ width head := by exact_mod_cast hlt
  rw [number]
  omega

theorem IsInteger.number_ge (h : IsInteger x) : -(span 26 : Int) ≤ number x := by
  cases h with
  | @intro head ds hlength hds =>
    have hbase := base_ge (isInteger_cons.mp ⟨hlength, hds⟩).1
    rw [number]
    omega

theorem IsInteger.number_lt (h : IsInteger x) : number x < span 26 := by
  cases h with
  | @intro head ds hlength hds =>
    have hx : IsInteger (head :: ds) := ⟨hlength, hds⟩
    have hbase := base_add_le (isInteger_cons.mp hx).1
    have hlt := hx.number_lt_of_head
    omega

/-- **Integer parts are ordered as their numbers.** -/
theorem lt_iff_number_lt (hx : IsInteger x) (hy : IsInteger y) : x < y ↔ number x < number y := by
  cases hx with
  | @intro c ds hc hds =>
    cases hy with
    | @intro d es hd hes =>
      have hx : IsInteger (c :: ds) := ⟨hc, hds⟩
      have hy : IsInteger (d :: es) := ⟨hd, hes⟩
      obtain ⟨hcHead, hcLength, -⟩ := isInteger_cons.mp hx
      obtain ⟨hdHead, hdLength, -⟩ := isInteger_cons.mp hy
      have hxlt := hx.number_lt_of_head
      have hylt := hy.number_lt_of_head
      have hxge : base c ≤ number (c :: ds) := by rw [number]; omega
      have hyge : base d ≤ number (d :: es) := by rw [number]; omega
      rw [List.cons_lt_cons_iff]
      -- the heads decide, and between equal heads the rows of one length
      rcases lt_trichotomy c d with h | h | h
      · have hbase := base_add_le_base hcHead hdHead h
        constructor
        · intro _
          omega
        · intro _
          exact Or.inl h
      · subst h
        rw [number, number, lt_iff_ofDigits_lt hds hes (hcLength.trans hdLength.symm)]
        simp
      · have hbase := base_add_le_base hdHead hcHead h
        constructor
        · intro h
          rcases h with h' | ⟨rfl, -⟩
          · exact absurd h' (lt_asymm h)
          · exact absurd h (lt_irrefl c)
        · intro _
          omega

/-- Different integer parts denote different numbers. -/
theorem number_inj (hx : IsInteger x) (hy : IsInteger y) (h : number x = number y) : x = y := by
  rcases lt_trichotomy x y with hlt | heq | hlt
  · have hlt' := (lt_iff_number_lt hx hy).mp hlt
    omega
  · exact heq
  · have hlt' := (lt_iff_number_lt hy hx).mp hlt
    omega

end parts

theorem isInteger_smallest : IsInteger smallestInteger := by
  refine ⟨by decide, ?_⟩
  intro c hc
  obtain rfl := List.eq_of_mem_replicate hc
  exact zero_mem

/-- Where the numbers begin and end, and where the lengths grow to both sides. -/
theorem number_ends :
    number smallestInteger = -(span 26 : Int) ∧ base 'A' = -(span 26 : Int) ∧
    number ['Z', 'z'] + 1 = base 'a' ∧ number ['a', '0'] = base 'Z' + 62 ^ width 'Z' ∧
    base 'z' + 62 ^ width 'z' = span 26 := by
  decide +kernel

theorem number_smallest : number smallestInteger = -(span 26 : Int) := number_ends.1

/-! ## Section 3: The next and the previous integer part -/

/-- Without its last digit, a row that denotes zero denotes zero. -/
theorem ofDigits_dropLast_of_zero {ds : Text} (hne : ds ≠ []) (h : ofDigits ds = 0) :
    ofDigits ds.dropLast = 0 := by
  have hconcat := ofDigits_concat ds.dropLast (ds.getLast hne)
  rw [List.dropLast_append_getLast hne, h] at hconcat
  omega

/-- Without its last digit, the last row of a length is the last one of the length before. -/
theorem ofDigits_dropLast_of_last {ds : Text} (hds : IsDigits ds) (hne : ds ≠ [])
    (h : ofDigits ds + 1 = 62 ^ ds.length) :
    ofDigits ds.dropLast + 1 = 62 ^ (ds.length - 1) := by
  have hconcat := ofDigits_concat ds.dropLast (ds.getLast hne)
  rw [List.dropLast_append_getLast hne] at hconcat
  have hlast := value_lt (hds _ (List.getLast_mem hne))
  have hlength : ds.length = ds.length - 1 + 1 :=
    (Nat.sub_add_cancel (List.length_pos_of_ne_nil hne)).symm
  rw [hlength, pow_succ] at h
  omega

theorem IsDigits.dropLast {ds : Text} (hds : IsDigits ds) : IsDigits ds.dropLast :=
  fun c hc => hds c (List.dropLast_subset ds hc)

section steps
variable {c : Char} {ds next : Text}

/-- Carried out of the last row of a head, the next number is the first one of the next
    head. -/
theorem incrementInteger?_of_carry (hcarry : incrementDigits ds = (next, true))
    (hc : isHead c = true) (hnext : IsDigits next) (hlen : next.length = width c)
    (hzero : ofDigits next = 0) :
    match incrementInteger? (c :: ds) with
    | some y => IsInteger y ∧ number y = base c + 62 ^ width c
    | none => base c + 62 ^ width c = span 26 := by
  simp only [incrementInteger?, hcarry]
  -- `Z` is followed by `a`, nothing follows `z`, and any other head by the next letter
  by_cases hZ : c = 'Z'
  · subst hZ
    rw [if_pos rfl]
    exact ⟨isInteger_cons.mpr ⟨by decide, by decide, isDigits_singleton.mpr zero_mem⟩,
      number_ends.2.2.2.1⟩
  · rw [if_neg hZ]
    by_cases hz : c = 'z'
    · subst hz
      rw [if_pos rfl]
      exact number_ends.2.2.2.2
    · rw [if_neg hz]
      obtain ⟨hhead, hbase, hwidth⟩ := next_head hc hZ hz
      have hpos := width_pos hc
      by_cases hlonger : 'a' < Char.ofNat (c.toNat + 1)
      · rw [if_pos hlonger] at hwidth ⊢
        refine ⟨isInteger_cons.mpr ⟨hhead, ?_, ?_⟩, ?_⟩
        · show (next ++ ['0']).length = _
          rw [List.length_append, List.length_singleton, hlen, hwidth]
        · exact isDigits_append.mpr ⟨hnext, isDigits_singleton.mpr zero_mem⟩
        · show base _ + (ofDigits (next ++ ['0']) : Int) = _
          rw [hbase, ofDigits_concat, hzero, value_zero]
          omega
      · rw [if_neg hlonger] at hwidth ⊢
        have hne : next ≠ [] := List.ne_nil_of_length_pos (by omega)
        refine ⟨isInteger_cons.mpr ⟨hhead, ?_, hnext.dropLast⟩, ?_⟩
        · rw [List.length_dropLast, hlen]
          omega
        · rw [number, hbase, ofDigits_dropLast_of_zero hne hzero]
          omega

/-- Borrowed from the first row of a head, the previous number is the last one of the previous
    head. -/
theorem decrementInteger?_of_borrow (hborrow : decrementDigits ds = (next, true))
    (hc : isHead c = true) (hnext : IsDigits next) (hlen : next.length = width c)
    (hlast : ofDigits next + 1 = 62 ^ next.length) :
    match decrementInteger? (c :: ds) with
    | some y => IsInteger y ∧ number y + 1 = base c
    | none => base c = -(span 26 : Int) := by
  simp only [decrementInteger?, hborrow]
  -- `a` comes after `Z`, nothing before `A`, and any other head after the previous letter
  by_cases ha : c = 'a'
  · subst ha
    rw [if_pos rfl]
    exact ⟨isInteger_cons.mpr ⟨by decide, by decide, isDigits_singleton.mpr z_mem⟩,
      number_ends.2.2.1⟩
  · rw [if_neg ha]
    by_cases hA : c = 'A'
    · subst hA
      rw [if_pos rfl]
      exact number_ends.2.1
    · rw [if_neg hA]
      obtain ⟨hhead, hbase, hwidth⟩ := previous_head hc ha hA
      have hpos := width_pos hc
      by_cases hlonger : Char.ofNat (c.toNat - 1) < 'Z'
      · rw [if_pos hlonger] at hwidth ⊢
        refine ⟨isInteger_cons.mpr ⟨hhead, ?_, ?_⟩, ?_⟩
        · show (next ++ ['z']).length = _
          rw [List.length_append, List.length_singleton, hlen, hwidth]
        · exact isDigits_append.mpr ⟨hnext, isDigits_singleton.mpr z_mem⟩
        · have hrow : ofDigits (next ++ ['z']) + 1 = 62 ^ width (Char.ofNat (c.toNat - 1)) := by
            rw [ofDigits_concat, value_z, hwidth, ← hlen, pow_succ]
            omega
          have hrow' : (ofDigits (next ++ ['z']) : Int) + 1 =
              62 ^ width (Char.ofNat (c.toNat - 1)) := by exact_mod_cast hrow
          show base _ + (ofDigits (next ++ ['z']) : Int) + 1 = _
          omega
      · rw [if_neg hlonger] at hwidth ⊢
        have hne : next ≠ [] := List.ne_nil_of_length_pos (by omega)
        have hwidth' : width (Char.ofNat (c.toNat - 1)) = next.length - 1 := by omega
        refine ⟨isInteger_cons.mpr ⟨hhead, ?_, hnext.dropLast⟩, ?_⟩
        · rw [List.length_dropLast, hwidth']
        · have hrow : (ofDigits next.dropLast : Int) + 1 =
              62 ^ width (Char.ofNat (c.toNat - 1)) := by
            rw [hwidth']
            exact_mod_cast ofDigits_dropLast_of_last hnext hne hlast
          rw [number]
          omega

end steps

/-- **The next integer part denotes the next number**; there is none after the last alone. -/
theorem incrementInteger?_spec {x : Text} (hx : IsInteger x) :
    match incrementInteger? x with
    | some y => IsInteger y ∧ number y = number x + 1
    | none => number x + 1 = span 26 := by
  cases hx with
  | @intro c ds hc hds =>
    obtain ⟨hhead, hlength, -⟩ := isInteger_cons.mp ⟨hc, hds⟩
    obtain ⟨hnext, hlen, hsum⟩ := incrementDigits_spec hds
    rcases hcarry : incrementDigits ds with ⟨next, carry⟩
    rw [hcarry] at hnext hlen hsum
    dsimp only at hnext hlen hsum
    rw [hlength] at hlen hsum
    cases carry with
    | false =>
      rw [Bool.toNat_false, Nat.zero_mul, Nat.add_zero] at hsum
      simp only [incrementInteger?, hcarry]
      refine ⟨isInteger_cons.mpr ⟨hhead, hlen, hnext⟩, ?_⟩
      rw [number, number]
      omega
    | true =>
      rw [Bool.toNat_true, Nat.one_mul] at hsum
      -- the row was the last of its length, so the next one has zeros only
      have hlt := ofDigits_lt hds
      rw [hlength] at hlt
      have hend : number (c :: ds) + 1 = base c + 62 ^ width c := by
        have hlast : (ofDigits ds : Int) + 1 = 62 ^ width c := by
          exact_mod_cast (by omega : ofDigits ds + 1 = 62 ^ width c)
        rw [number]
        omega
      rw [hend]
      exact incrementInteger?_of_carry hcarry hhead hnext hlen (by omega)

/-- **The previous integer part denotes the previous number**; there is none before the first
    alone. -/
theorem decrementInteger?_spec {x : Text} (hx : IsInteger x) :
    match decrementInteger? x with
    | some y => IsInteger y ∧ number y + 1 = number x
    | none => number x = -(span 26 : Int) := by
  cases hx with
  | @intro c ds hc hds =>
    obtain ⟨hhead, hlength, -⟩ := isInteger_cons.mp ⟨hc, hds⟩
    obtain ⟨hnext, hlen, hsum⟩ := decrementDigits_spec hds
    rcases hborrow : decrementDigits ds with ⟨next, borrow⟩
    rw [hborrow] at hnext hlen hsum
    dsimp only at hnext hlen hsum
    cases borrow with
    | false =>
      rw [Bool.toNat_false, Nat.zero_mul, Nat.add_zero] at hsum
      simp only [decrementInteger?, hborrow]
      refine ⟨isInteger_cons.mpr ⟨hhead, hlen.trans hlength, hnext⟩, ?_⟩
      rw [number, number]
      omega
    | true =>
      rw [Bool.toNat_true, Nat.one_mul] at hsum
      -- the row had zeros only, so the previous one is the last of its length
      have hlt := ofDigits_lt hnext
      rw [hlen] at hlt
      have hlast : ofDigits next + 1 = 62 ^ next.length := by
        rw [hlen]
        omega
      have hstart : number (c :: ds) = base c := by
        have hzero : ofDigits ds = 0 := by omega
        rw [number, hzero]
        simp
      rw [hstart]
      exact decrementInteger?_of_borrow hborrow hhead hnext (hlen.trans hlength) hlast

end Agenda.SortKey
