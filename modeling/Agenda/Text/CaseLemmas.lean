import Agenda.Text.Case

/-! # Small letters are settled

    Putting a text into small letters a second time changes nothing, and blanks neither appear
    nor vanish at its ends.  Both rest on one check of the table of runs: no run leads into a
    run, or to a blank.  Changing the case of ASCII letters does not change the small letters of
    a text, and the small letters of most words of ASCII tell their capital letters
    (`upper_of_lower`).  What the tables are checked for stands in `TablesChecked`, and the
    rest of the module argues from that. -/

namespace Agenda.Text

/-! ## Section 1: The table -/

/-- The image of the first code point of a run. -/
def CaseRun.low (r : CaseRun) : Nat := ((r.first : Int) + r.shift).toNat

/-- The image of the last code point of a run. -/
def CaseRun.high (r : CaseRun) : Nat := ((r.last : Int) + r.shift).toNat

/-- Do the images of `r` lie outside of the range? -/
def CaseRun.keepsOutOf (r : CaseRun) (range : Nat × Nat) : Bool :=
  Nat.ble (range.2 + 1) r.low || Nat.ble (r.high + 1) range.1

/-- Are the images of the run characters, and no blanks? -/
def CaseRun.settles (r : CaseRun) : Bool :=
  blankRanges.all r.keepsOutOf && r.keepsOutOf (0xD800, 0xDFFF) && Nat.ble r.high 0x10FFFF

/-- The code points of the run. -/
def CaseRun.codes (r : CaseRun) : List Nat :=
  (List.range ((r.last - r.first) / r.stride + 1)).map fun i => r.first + i * r.stride

/-- What they are mapped to. -/
def CaseRun.images (r : CaseRun) : List Nat :=
  r.codes.map fun (m : Nat) => ((m : Int) + r.shift).toNat

/-- The numbers in the lists, as the bits of one number: two such sets are compared in one
    step, where to compare run with run takes tens of thousands. -/
def bits (lists : List (List Nat)) : Nat :=
  lists.foldr (fun ns m => ns.foldr (fun n m => 1 <<< n ||| m) 0 ||| m) 0

/-- The capital letters of ASCII. -/
def asciiCapitals : Text := (List.range 26).map fun i => Char.ofNat (65 + i)

/-- The small letters of ASCII but `k`, and the underscore: no letter outside of ASCII has one of
    them for its only small letter. -/
def plainLetters : Text := "abcdefghijlmnopqrstuvwxyz_".toList

/-- Do the images of the run keep out of the plain letters?  The capitals of ASCII do not, nor
    does the dotted capital I, which has two small letters in a text. -/
def CaseRun.isForeign (r : CaseRun) : Bool :=
  decide (r.first = 65 ∧ r.last = 90 ∧ r.shift = 32) || decide (r.first = 304 ∧ r.last = 304) ||
    plainLetters.all fun d => Nat.ble (r.high + 1) d.toNat || Nat.ble (d.toNat + 1) r.low

/-- What the kernel checks the tables for. -/
structure TablesChecked : Prop where
  /-- No run leads into a run, -/
  apart : bits (lowerRuns.map CaseRun.codes) &&& bits (lowerRuns.map CaseRun.images) = 0
  /-- nor to a blank. -/
  settle : lowerRuns.all CaseRun.settles = true
  /-- The only images among the plain letters are those of the capitals of ASCII. -/
  foreign : lowerRuns.all CaseRun.isForeign = true
  /-- No small letter stands before `a`, -/
  fromA : (lowerRuns.all fun r => Nat.ble 97 r.low) = true
  /-- nor does a representative of letters that match. -/
  foldFromA : (foldExceptions.all fun e => decide (97 ≤ (Char.ofNat e.2).toNat)) = true
  /-- No letter of ASCII is passed over next to a sigma, -/
  ignorable : (caseIgnorableRanges.all fun r =>
    Nat.ble r.2 64 || Nat.ble 123 r.1 || (Nat.ble 91 r.1 && Nat.ble r.2 96)) = true
  /-- and none has several capital letters. -/
  expansions : (upperExpansions.all fun e => Nat.ble 123 e.1) = true
  capitals : (asciiCapitals.all fun c =>
    Nat.ble 65 c.toNat && Nat.ble c.toNat 90 && (c.toLower.toNat == c.toNat + 32)) = true
  cased : (asciiCapitals.all fun c => isCased c.toLower = isCased c) = true
  /-- One run of each table is about ASCII, and does not tell capital from small letters. -/
  lowerFar : ((lowerRuns.drop 1).all fun r => Nat.ble 123 r.first) = true
  lowerNear : (asciiCapitals.all fun c =>
    mapRuns (lowerRuns.take 1) c.toLower = mapRuns (lowerRuns.take 1) c) = true
  upperFar : ((upperRuns.drop 1).all fun r => Nat.ble 123 r.first) = true
  upperNear : (asciiCapitals.all fun c =>
    mapRuns (upperRuns.take 1) c.toLower = mapRuns (upperRuns.take 1) c) = true
  plain : (plainLetters.all fun d => d.toLower == d) = true
  /-- What `Σ` and `İ` are written with has no small letters of its own, -/
  small : (['ς', 'σ', 'i', '\u0307'].all fun d =>
    lowerRuns.all (fun r => (r.image? d.toNat).isNone) && !isBlank d) = true
  /-- and but for the `i` it is not plain. -/
  strangers : (['ς', 'σ', '\u0307'].all fun d => !plainLetters.contains d) = true
  /-- The two are in the runs, and are no letters of ASCII. -/
  special : (['Σ', 'İ'].all fun d => lowerRuns.any (fun r => (r.image? d.toNat).isSome) &&
    !asciiCapitals.contains d && !(asciiCapitals.map Char.toLower).contains d) = true

-- A field is taken as `TablesChecked.apart tables_checked`: the name `tables_checked.apart` would
-- be looked up below that of a theorem, which waits until the kernel is done with it.
theorem tables_checked : TablesChecked where
  apart := by decide +kernel
  settle := by decide +kernel
  foreign := by decide +kernel
  fromA := by decide +kernel
  foldFromA := by decide +kernel
  ignorable := by decide +kernel
  expansions := by decide +kernel
  capitals := by decide +kernel
  cased := by decide +kernel
  lowerFar := by decide +kernel
  lowerNear := by decide +kernel
  upperFar := by decide +kernel
  upperNear := by decide +kernel
  plain := by decide +kernel
  small := by decide +kernel
  strangers := by decide +kernel
  special := by decide +kernel

/-! ## Section 2: Runs -/

theorem CaseRun.image?_eq_some_iff {r : CaseRun} {m n : Nat} :
    r.image? m = some n ↔
      (r.first ≤ m ∧ m ≤ r.last ∧ (m - r.first) % r.stride = 0) ∧
        n = ((m : Int) + r.shift).toNat := by
  unfold CaseRun.image?
  split <;> simp_all [eq_comm]

theorem CaseRun.low_le_of_image {r : CaseRun} {m n : Nat} (h : r.image? m = some n) :
    r.low ≤ n ∧ n ≤ r.high := by
  obtain ⟨⟨h1, h2, -⟩, rfl⟩ := CaseRun.image?_eq_some_iff.mp h
  unfold CaseRun.low CaseRun.high
  omega

theorem testBit_foldr {ns : List Nat} {n : Nat} (h : n ∈ ns) :
    (ns.foldr (fun n m => 1 <<< n ||| m) 0).testBit n = true := by
  induction h with
  | head ns => simp [Nat.testBit_or, Nat.one_shiftLeft, Nat.testBit_two_pow_self]
  | tail k _ ih => simp [Nat.testBit_or, ih]

theorem testBit_bits {lists : List (List Nat)} {ns : List Nat} {n : Nat} (hns : ns ∈ lists)
    (h : n ∈ ns) : (bits lists).testBit n = true := by
  induction hns with
  | head lists => simp [bits, Nat.testBit_or, testBit_foldr h]
  | tail ms _ ih =>
    simp only [bits, List.foldr_cons, Nat.testBit_or, Bool.or_eq_true] at ih ⊢
    exact Or.inr ih

theorem CaseRun.mem_codes {r : CaseRun} {m n : Nat} (h : r.image? m = some n) : m ∈ r.codes := by
  obtain ⟨⟨hfirst, hlast, hstride⟩, -⟩ := CaseRun.image?_eq_some_iff.mp h
  refine List.mem_map.mpr ⟨(m - r.first) / r.stride, ?_, ?_⟩
  · rw [List.mem_range, Nat.lt_succ_iff]
    exact Nat.div_le_div_right (by omega)
  · rw [Nat.div_mul_cancel (Nat.dvd_of_mod_eq_zero hstride)]
    omega

/-- What a run leads to is in no run. -/
theorem image?_of_image {r s : CaseRun} {m n : Nat} (hr : r ∈ lowerRuns) (hs : s ∈ lowerRuns)
    (h : r.image? m = some n) : s.image? n = none := by
  cases himage : s.image? n with
  | none => rfl
  | some k =>
    have hcode := testBit_bits (List.mem_map_of_mem hs) (CaseRun.mem_codes himage)
    have hn : n ∈ r.images :=
      List.mem_map.mpr ⟨m, CaseRun.mem_codes h, (CaseRun.image?_eq_some_iff.mp h).2.symm⟩
    have himages := testBit_bits (List.mem_map_of_mem hr) hn
    have hboth := congrArg (Nat.testBit · n) (TablesChecked.apart tables_checked)
    simp [Nat.testBit_and, hcode, himages] at hboth

/-! ## Section 3: Characters -/

/-- A character that is its own small letter in every context. -/
def Settled (c : Char) : Prop := c ≠ 'Σ' ∧ c ≠ 'İ' ∧ lowerChar c = c

theorem lowerInContext_of_settled {c : Char} (h : Settled c) (before after : Text) :
    lowerInContext before c after = [c] := by
  obtain ⟨h1, h2, h3⟩ := h
  simp [lowerInContext, h1, h2, h3]

theorem toNat_ofNat {n : Nat} (h1 : n < 0xD800 ∨ 0xDFFF < n) (h2 : n ≤ 0x10FFFF) :
    (Char.ofNat n).toNat = n := by
  have hv : n.isValidChar := by
    rcases h1 with h1 | h1
    · exact Or.inl h1
    · exact Or.inr ⟨h1, by omega⟩
  rw [Char.ofNat, dif_pos hv]
  rfl

theorem mapRuns_of_none {runs : List CaseRun} {c : Char}
    (h : runs.findSome? (·.image? c.toNat) = none) : mapRuns runs c = c := by
  simp [mapRuns, h]

/-- Either no run holds `c`, or a checked run leads from it to its small letter. -/
theorem lowerChar_run (c : Char) :
    (lowerRuns.findSome? (·.image? c.toNat) = none ∧ lowerChar c = c) ∨
      ∃ r ∈ lowerRuns, r.image? c.toNat = some (lowerChar c).toNat ∧ r.settles = true := by
  cases h : lowerRuns.findSome? (·.image? c.toNat) with
  | none => exact Or.inl ⟨rfl, mapRuns_of_none h⟩
  | some n =>
    right
    have hc : lowerChar c = Char.ofNat n := by simp [lowerChar, mapRuns, h]
    obtain ⟨r, hr, himage⟩ := List.exists_of_findSome?_eq_some h
    have hcheck := List.all_eq_true.mp (TablesChecked.settle tables_checked) r hr
    have hrange := CaseRun.low_le_of_image himage
    have hn : (Char.ofNat n).toNat = n := by
      simp only [CaseRun.settles, CaseRun.keepsOutOf, Bool.and_eq_true, Bool.or_eq_true,
        Nat.ble_eq] at hcheck
      apply toNat_ofNat <;> omega
    rw [hc, hn]
    exact ⟨r, hr, himage, hcheck⟩

/-- Either no run holds `c`, or its small letter is held by none and is no blank. -/
theorem lowerChar_cases (c : Char) :
    (lowerRuns.findSome? (·.image? c.toNat) = none ∧ lowerChar c = c) ∨
      (lowerRuns.findSome? (·.image? (lowerChar c).toNat) = none ∧
        isBlank (lowerChar c) = false) := by
  rcases lowerChar_run c with h | ⟨r, hr, himage, hcheck⟩
  · exact Or.inl h
  · right
    simp only [CaseRun.settles, Bool.and_eq_true] at hcheck
    obtain ⟨⟨hblank, -⟩, -⟩ := hcheck
    have hrange := CaseRun.low_le_of_image himage
    constructor
    · rw [List.findSome?_eq_none_iff]
      intro s hs
      exact image?_of_image hr hs himage
    · simp only [isBlank, inRanges, List.any_eq_false]
      intro range hrange'
      have := List.all_eq_true.mp hblank range hrange'
      simp only [CaseRun.keepsOutOf, Bool.or_eq_true, Nat.ble_eq] at this
      simp only [Bool.and_eq_true, decide_eq_true_eq]
      omega

/-- The characters that have several small letters are in the runs, and not in ASCII. -/
theorem special_spec {d : Char} (h : d ∈ ['Σ', 'İ']) :
    lowerRuns.findSome? (·.image? d.toNat) ≠ none ∧
      d ∉ asciiCapitals ∧ d ∉ asciiCapitals.map Char.toLower := by
  have hcheck := List.all_eq_true.mp (TablesChecked.special tables_checked) d h
  simpa [-List.mem_map, Option.isSome_iff_ne_none, and_assoc] using hcheck

theorem settled_of_no_run {c : Char} (h : lowerRuns.findSome? (·.image? c.toNat) = none) :
    Settled c := by
  refine ⟨?_, ?_, mapRuns_of_none h⟩
  · rintro rfl
    exact (special_spec (by simp)).1 h
  · rintro rfl
    exact (special_spec (by simp)).1 h

/-- What they are written with in small letters is settled. -/
theorem small_spec {d : Char} (h : d ∈ ['ς', 'σ', 'i', '\u0307']) :
    Settled d ∧ isBlank d = false := by
  have hcheck := List.all_eq_true.mp (TablesChecked.small tables_checked) d h
  simp only [Bool.and_eq_true, Bool.not_eq_true', List.all_eq_true, Option.isNone_iff_eq_none]
    at hcheck
  exact ⟨settled_of_no_run (List.findSome?_eq_none_iff.mpr hcheck.1), hcheck.2⟩

theorem settled_lowerChar (c : Char) : Settled (lowerChar c) := by
  rcases lowerChar_cases c with ⟨h, hc⟩ | ⟨h, -⟩
  · rw [hc]; exact settled_of_no_run h
  · exact settled_of_no_run h

/-- Every small letter that a character gets is settled, and a blank only for a blank. -/
theorem lowerInContext_spec (before after : Text) (c d : Char)
    (hd : d ∈ lowerInContext before c after) :
    Settled d ∧ (isBlank c = false → isBlank d = false) := by
  unfold lowerInContext at hd
  split at hd
  · split at hd
    · obtain rfl : d = 'ς' := by simpa using hd
      exact (small_spec (by simp)).imp_right fun h _ => h
    · obtain rfl : d = 'σ' := by simpa using hd
      exact (small_spec (by simp)).imp_right fun h _ => h
  · split at hd
    · rcases List.mem_cons.mp hd with rfl | hd
      · exact (small_spec (by simp)).imp_right fun h _ => h
      · obtain rfl : d = '\u0307' := by simpa using hd
        exact (small_spec (by simp)).imp_right fun h _ => h
    · obtain rfl : d = lowerChar c := by simpa using hd
      refine ⟨settled_lowerChar c, fun hc => ?_⟩
      rcases lowerChar_cases c with ⟨-, h⟩ | ⟨-, h⟩
      · rw [h]; exact hc
      · exact h

theorem lowerInContext_ne_nil (before after : Text) (c : Char) :
    lowerInContext before c after ≠ [] := by
  unfold lowerInContext
  split
  · split <;> simp
  · split <;> simp

/-! ## Section 4: Texts -/

theorem settled_of_mem_lowerFrom (before t : Text) (d : Char) (hd : d ∈ lowerFrom before t) :
    Settled d := by
  induction t generalizing before with
  | nil => simp [lowerFrom] at hd
  | cons c rest ih =>
    rcases List.mem_append.mp hd with hd | hd
    · exact (lowerInContext_spec before rest c d hd).1
    · exact ih _ hd

theorem lowerFrom_of_settled (before t : Text) (h : ∀ d ∈ t, Settled d) :
    lowerFrom before t = t := by
  induction t generalizing before with
  | nil => rfl
  | cons c rest ih =>
    have hc := h c (List.mem_cons_self ..)
    have hrest := ih (c :: before) fun d hd => h d (List.mem_cons_of_mem _ hd)
    simp [lowerFrom, lowerInContext_of_settled hc, hrest]

/-- Between the capitals of ASCII and its end no run has anything. -/
theorem settled_of_small {c : Char} (hlow : 95 ≤ c.toNat) (hhigh : c.toNat ≤ 122) :
    Settled c := by
  have hapart : (lowerRuns.all fun r => Nat.ble r.last 94 || Nat.ble 123 r.first) = true := by
    decide +kernel
  apply settled_of_no_run
  rw [List.findSome?_eq_none_iff]
  intro r hr
  have hout := List.all_eq_true.mp hapart r hr
  simp only [Bool.or_eq_true, Nat.ble_eq] at hout
  apply if_neg
  omega

/-- Is the word written with small letters of ASCII and underscores? -/
def isSmallAscii (w : Text) : Bool := w.all fun c => Nat.ble 95 c.toNat && Nat.ble c.toNat 122

theorem lower_of_small {w : Text} (h : isSmallAscii w = true) : lower w = w := by
  apply lowerFrom_of_settled
  intro c hc
  have hrange := List.all_eq_true.mp h c hc
  rw [Bool.and_eq_true, Nat.ble_eq, Nat.ble_eq] at hrange
  exact settled_of_small hrange.1 hrange.2

/-- A text in small letters is in small letters. -/
theorem lower_lower (t : Text) : lower (lower t) = lower t :=
  lowerFrom_of_settled [] _ (settled_of_mem_lowerFrom [] t)

theorem lowerFrom_eq_nil_iff (before t : Text) : lowerFrom before t = [] ↔ t = [] := by
  cases t with
  | nil => simp [lowerFrom]
  | cons c rest => simp [lowerFrom, lowerInContext_ne_nil]

/-! ## Section 5: Blanks at the ends -/

/-- Neither end of the text is a blank. -/
def Trimmed (t : Text) : Prop :=
  (∀ c ∈ t.head?, isBlank c = false) ∧ (∀ c ∈ t.getLast?, isBlank c = false)

theorem dropWhile_of_head {p : Char → Bool} {t : Text} (h : ∀ c ∈ t.head?, p c = false) :
    t.dropWhile p = t := by
  cases t with
  | nil => rfl
  | cons c rest => simp [h c rfl]

theorem trim_of_trimmed {t : Text} (h : Trimmed t) : trim t = t := by
  unfold trim dropEndWhile
  rw [dropWhile_of_head h.1, dropWhile_of_head (by simpa using h.2), List.reverse_reverse]

theorem head?_dropWhile_not {p : Char → Bool} (t : Text) (c : Char)
    (h : c ∈ (t.dropWhile p).head?) : p c = false := by
  induction t with
  | nil => simp at h
  | cons d rest ih =>
    rw [List.dropWhile_cons] at h
    split at h
    · exact ih h
    · rename_i hd
      obtain rfl : d = c := by simpa using h
      simpa using hd

theorem dropEndWhile_suffix {p : Char → Bool} (t : Text) : ∃ u, t = dropEndWhile p t ++ u := by
  obtain ⟨u, hu⟩ := List.dropWhile_suffix (l := t.reverse) p
  refine ⟨u.reverse, ?_⟩
  rw [dropEndWhile, ← List.reverse_append, hu, List.reverse_reverse]

theorem trimmed_trim (t : Text) : Trimmed (trim t) := by
  unfold trim
  constructor
  · intro c hc
    obtain ⟨u, hu⟩ := dropEndWhile_suffix (p := isBlank) (t.dropWhile isBlank)
    apply head?_dropWhile_not t c
    rw [hu]
    cases hv : dropEndWhile isBlank (t.dropWhile isBlank) with
    | nil => rw [hv] at hc; simp at hc
    | cons a v => rw [hv] at hc; simpa using hc
  · intro c hc
    rw [dropEndWhile, List.getLast?_reverse] at hc
    exact head?_dropWhile_not _ c hc

theorem trimmed_lower {t : Text} (h : Trimmed t) : Trimmed (lower t) := by
  constructor
  · intro d hd
    cases t with
    | nil => simp [lower, lowerFrom] at hd
    | cons c rest =>
      have hc := h.1 c rfl
      have hmem : d ∈ lowerInContext [] c rest := by
        obtain ⟨a, as, ha⟩ := List.exists_cons_of_ne_nil (lowerInContext_ne_nil [] rest c)
        rw [lower, lowerFrom, ha] at hd
        rw [ha]
        simp at hd
        simp [hd]
      exact (lowerInContext_spec [] rest c d hmem).2 hc
  · intro d hd
    have key : ∀ before : Text, d ∈ (lowerFrom before t).getLast? → isBlank d = false := by
      have hlast := h.2
      clear h hd
      induction t with
      | nil => intro before hd; simp [lowerFrom] at hd
      | cons c rest ih =>
        intro before hd
        cases rest with
        | nil =>
          rw [lowerFrom, lowerFrom, List.append_nil] at hd
          exact (lowerInContext_spec before [] c d (List.mem_of_getLast? hd)).2
            (hlast c (by simp))
        | cons e more =>
          have hne : lowerFrom (c :: before) (e :: more) ≠ [] := by
            rw [ne_eq, lowerFrom_eq_nil_iff]; simp
          rw [lowerFrom, List.getLast?_append, Option.or_of_isSome (by simpa using hne)] at hd
          exact ih (by simpa using hlast) (c :: before) hd
    exact key [] hd

/-! ## Section 6: Letters whose case is that of ASCII -/

theorem toLower_cases (c : Char) : c.toLower = c ∨ c ∈ asciiCapitals := by
  unfold Char.toLower
  split
  · next h =>
    right
    have h1 : 65 ≤ c.toNat := h.1
    have h2 : c.toNat ≤ 90 := h.2
    refine List.mem_map.mpr ⟨c.toNat - 65, List.mem_range.mpr (by omega), ?_⟩
    rw [Nat.add_sub_cancel' h1, Char.ofNat_toNat]
  · exact Or.inl rfl

/-- What does not tell the capitals of ASCII from their small letters does not see the case of
    ASCII at all. -/
theorem congr_toLower {α : Type} [DecidableEq α] {f : Char → α}
    (h : (asciiCapitals.all fun c => f c.toLower = f c) = true) (c : Char) :
    f c.toLower = f c := by
  rcases toLower_cases c with hc | hc
  · rw [hc]
  · exact of_decide_eq_true (List.all_eq_true.mp h c hc)

/-- The runs that begin behind the letters of ASCII do not matter to them. -/
theorem mapRuns_take {runs : List CaseRun} {n : Nat} {c : Char}
    (hfar : ((runs.drop n).all fun r => Nat.ble 123 r.first) = true) (hc : c.toNat < 123) :
    mapRuns runs c = mapRuns (runs.take n) c := by
  have hnone : (runs.drop n).findSome? (·.image? c.toNat) = none := by
    rw [List.findSome?_eq_none_iff]
    intro r hr
    have hfirst := Nat.ble_eq.mp (List.all_eq_true.mp hfar r hr)
    rw [CaseRun.image?, if_neg (by omega)]
  calc mapRuns runs c = mapRuns (runs.take n ++ runs.drop n) c := by rw [List.take_append_drop]
    _ = mapRuns (runs.take n) c := by
      unfold mapRuns
      rw [List.findSome?_append, hnone, Option.or_none]

/-- A capital letter of ASCII and its small letter are both in ASCII. -/
theorem toNat_of_capital {c : Char} (h : c ∈ asciiCapitals) :
    65 ≤ c.toNat ∧ c.toNat ≤ 90 ∧ c.toLower.toNat = c.toNat + 32 := by
  have hall := List.all_eq_true.mp (TablesChecked.capitals tables_checked) c h
  simp only [Bool.and_eq_true, Nat.ble_eq, beq_iff_eq] at hall
  exact ⟨hall.1.1, hall.1.2, hall.2⟩

theorem mapRuns_toLower {runs : List CaseRun} {n : Nat}
    (hfar : ((runs.drop n).all fun r => Nat.ble 123 r.first) = true)
    (hnear : (asciiCapitals.all fun c =>
      mapRuns (runs.take n) c.toLower = mapRuns (runs.take n) c) = true) (c : Char) :
    mapRuns runs c.toLower = mapRuns runs c := by
  rcases toLower_cases c with hc | hc
  · rw [hc]
  · obtain ⟨hfrom, hto, hsmall⟩ := toNat_of_capital hc
    rw [mapRuns_take hfar (by omega), mapRuns_take hfar (by omega)]
    exact of_decide_eq_true (List.all_eq_true.mp hnear c hc)

theorem lowerChar_toLower (c : Char) : lowerChar c.toLower = lowerChar c :=
  mapRuns_toLower (TablesChecked.lowerFar tables_checked) (TablesChecked.lowerNear tables_checked) c

theorem isCased_toLower : ∀ c : Char, isCased c.toLower = isCased c :=
  congr_toLower (f := isCased) (TablesChecked.cased tables_checked)

theorem isCaseIgnorable_toLower (c : Char) : isCaseIgnorable c.toLower = isCaseIgnorable c := by
  have hletter : ∀ d : Char, 65 ≤ d.toNat ∧ d.toNat ≤ 90 ∨ 97 ≤ d.toNat ∧ d.toNat ≤ 122 →
      isCaseIgnorable d = false := by
    intro d hd
    rw [isCaseIgnorable, inRanges, List.any_eq_false]
    intro r hr
    have houtside := List.all_eq_true.mp (TablesChecked.ignorable tables_checked) r hr
    simp only [Bool.or_eq_true, Bool.and_eq_true, Nat.ble_eq] at houtside
    simp only [Bool.and_eq_true, decide_eq_true_eq]
    omega
  rcases toLower_cases c with hc | hc
  · rw [hc]
  · obtain ⟨hfrom, hto, hsmall⟩ := toNat_of_capital hc
    rw [hletter c (by omega), hletter c.toLower (by omega)]

/-- No letter outside ASCII is a small letter of one in it. -/
theorem toLower_eq_iff {d : Char} (h : d ∉ asciiCapitals ∧ d ∉ asciiCapitals.map Char.toLower)
    (c : Char) : c.toLower = d ↔ c = d := by
  rcases toLower_cases c with hc | hc
  · rw [hc]
  · refine iff_of_false ?_ ?_
    · rintro rfl
      exact h.2 (List.mem_map_of_mem hc)
    · rintro rfl
      exact h.1 hc

theorem meetsCased_map_toLower (t : Text) : meetsCased (t.map Char.toLower) = meetsCased t := by
  induction t with
  | nil => rfl
  | cons c rest ih =>
    simp only [meetsCased, List.map_cons, List.dropWhile_cons, isCaseIgnorable_toLower] at ih ⊢
    cases isCaseIgnorable c with
    | true => exact ih
    | false => exact isCased_toLower c

theorem lowerFrom_map_toLower (before t : Text) :
    lowerFrom (before.map Char.toLower) (t.map Char.toLower) = lowerFrom before t := by
  induction t generalizing before with
  | nil => rfl
  | cons c rest ih =>
    have hcontext : lowerInContext (before.map Char.toLower) c.toLower (rest.map Char.toLower) =
        lowerInContext before c rest := by
      simp only [lowerInContext, toLower_eq_iff (special_spec (d := 'Σ') (by simp)).2,
        toLower_eq_iff (special_spec (d := 'İ') (by simp)).2, meetsCased_map_toLower,
        lowerChar_toLower]
    rw [List.map_cons, lowerFrom, lowerFrom, hcontext, ← List.map_cons, ih]

/-- Texts that differ in the case of ASCII letters only have the same small letters. -/
theorem lower_eq_of_map_toLower {t t' : Text} (h : t'.map Char.toLower = t.map Char.toLower) :
    lower t' = lower t := by
  have hsmall : ∀ u : Text, lower (u.map Char.toLower) = lower u := lowerFrom_map_toLower []
  rw [← hsmall t', h, hsmall]

/-! ## Section 7: Characters without case -/

/-- A character before `a` in the order of code points is a small letter of none other. -/
theorem eq_of_lowerChar_eq {c d : Char} (hd : d.toNat < 97) (h : lowerChar c = d) : c = d := by
  rcases lowerChar_run c with ⟨-, hc⟩ | ⟨r, hr, himage, -⟩
  · rw [← h, hc]
  · have hlow := (CaseRun.low_le_of_image himage).1
    have hfrom : 97 ≤ r.low :=
      Nat.ble_eq.mp (List.all_eq_true.mp (TablesChecked.fromA tables_checked) r hr)
    rw [h] at hlow
    omega

/-- Nor does it match another when case does not count. -/
theorem eq_of_fold_eq {c d : Char} (hd : d.toNat < 97) (h : fold c = d) : c = d := by
  simp only [fold] at h
  split at h
  · next k n hfind =>
    have hmem : (k, n) ∈ foldExceptions := List.mem_of_find?_eq_some hfind
    have hfrom : 97 ≤ (Char.ofNat n).toNat :=
      of_decide_eq_true (List.all_eq_true.mp (TablesChecked.foldFromA tables_checked) (k, n) hmem)
    rw [h] at hfrom
    omega
  · exact eq_of_lowerChar_eq hd h

/-! ## Section 8: Words of ASCII -/

/-- Only a letter of ASCII has a plain small letter. -/
theorem toLower_of_lowerChar {c d : Char} (hd : d ∈ plainLetters) (hc : c ≠ 'İ')
    (h : lowerChar c = d) : c.toLower = d := by
  rcases lowerChar_run c with ⟨-, hsame⟩ | ⟨r, hr, himage, -⟩
  · have hlower := List.all_eq_true.mp (TablesChecked.plain tables_checked) d hd
    rw [← hsame, h]
    exact beq_iff_eq.mp hlower
  · have hrange := CaseRun.low_le_of_image himage
    obtain ⟨⟨hfirst, hlast, -⟩, himage⟩ := CaseRun.image?_eq_some_iff.mp himage
    have hforeign := List.all_eq_true.mp (TablesChecked.foreign tables_checked) r hr
    simp only [CaseRun.isForeign, Bool.or_eq_true, decide_eq_true_eq] at hforeign
    rw [h] at himage hrange
    rcases hforeign with (⟨h1, h2, h3⟩ | ⟨h1, h2⟩) | hout
    · have hcapital : c.toLower.toNat = c.toNat + 32 := by
        have hupper : c.val ≥ 'A'.val ∧ c.val ≤ 'Z'.val := ⟨by
          show 65 ≤ c.toNat
          omega, by
          show c.toNat ≤ 90
          omega⟩
        unfold Char.toLower
        rw [dif_pos hupper]
        have hval : c.val.toNat = c.toNat := rfl
        have hshift : (32 : UInt32).toNat = 32 := rfl
        show (c.val + 32).toNat = _
        rw [UInt32.toNat_add]
        omega
      exact Char.toNat_inj.mp (by omega)
    · have hdotted : c.toNat = 'İ'.toNat := by
        show c.toNat = 304
        omega
      exact absurd (Char.toNat_inj.mp hdotted) hc
    · have hkeeps := List.all_eq_true.mp hout d hd
      simp only [Bool.or_eq_true, Nat.ble_eq] at hkeeps
      omega

theorem map_toLower_of_lowerFrom {before w p : Text} (h : lowerFrom before w = p)
    (hp : ∀ d ∈ p, d ∈ plainLetters) : w.map Char.toLower = p := by
  have hstrange : ∀ d ∈ ['ς', 'σ', '\u0307'], d ∉ plainLetters := by
    intro d hd
    simpa using List.all_eq_true.mp (TablesChecked.strangers tables_checked) d hd
  induction w generalizing before p with
  | nil => exact h
  | cons c w ih =>
    rw [lowerFrom] at h
    have hin : ∀ d ∈ lowerInContext before c w, d ∈ plainLetters := fun d hd =>
      hp d (h ▸ List.mem_append_left _ hd)
    have hrest : w.map Char.toLower = lowerFrom (c :: before) w :=
      ih rfl fun d hd => hp d (h ▸ List.mem_append_right _ hd)
    -- what has small letters of its own has none that is plain
    have hsigma : c ≠ 'Σ' := by
      rintro rfl
      simp only [lowerInContext, if_true] at hin
      split at hin
      · exact hstrange 'ς' (by simp) (hin _ List.mem_cons_self)
      · exact hstrange 'σ' (by simp) (hin _ List.mem_cons_self)
    have hdotted : c ≠ 'İ' := by
      rintro rfl
      exact hstrange '\u0307' (by simp) (hin _ (by simp [lowerInContext]))
    have hsingle : lowerInContext before c w = [lowerChar c] := by
      simp [lowerInContext, hsigma, hdotted]
    rw [hsingle] at h hin
    rw [List.map_cons, hrest, toLower_of_lowerChar (hin _ List.mem_cons_self) hdotted rfl, ← h]
    rfl

theorem upperChar_toLower (c : Char) : upperChar c.toLower = upperChar c := by
  have hplain : ∀ d : Char, d.toNat < 123 → upperChar d = [mapRuns upperRuns d] := by
    intro d hd
    have hnone : upperExpansions.find? (·.1 == d.toNat) = none := by
      rw [List.find?_eq_none]
      intro e he
      have hfrom :=
        Nat.ble_eq.mp (List.all_eq_true.mp (TablesChecked.expansions tables_checked) e he)
      rw [beq_iff_eq]
      omega
    rw [upperChar, hnone]
  rcases toLower_cases c with hc | hc
  · rw [hc]
  · obtain ⟨hfrom, hto, hsmall⟩ := toNat_of_capital hc
    have hruns : mapRuns upperRuns c.toLower = mapRuns upperRuns c :=
      mapRuns_toLower (TablesChecked.upperFar tables_checked)
        (TablesChecked.upperNear tables_checked) c
    rw [hplain c (by omega), hplain c.toLower (by omega), hruns]

/-- Is the word written with plain letters only? -/
def hasPlainLetters (w : Text) : Bool := w.all plainLetters.contains

/-- A word with plain small letters has their capital letters. -/
theorem upper_of_lower {w p : Text} (h : lower w = p) (hp : hasPlainLetters p = true) :
    upper w = upper p := by
  have hmem : ∀ d ∈ p, d ∈ plainLetters := fun d hd =>
    List.contains_iff_mem.mp (List.all_eq_true.mp hp d hd)
  rw [← map_toLower_of_lowerFrom h hmem]
  simp only [upper, List.flatMap_map, upperChar_toLower]

end Agenda.Text
