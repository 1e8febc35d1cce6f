import Agenda.Proofs.Title.Segments
import Mathlib.Data.List.TakeWhile

/-! # Links and tokens by their text

    A link is a label in brackets and a target behind it (`IsLink`).  The links of a title stand
    apart, each where its text stands (`mem_links`).  What a place begins with can be read off
    the characters there and the one before it: a reference (`tokenAt?_project_iff`,
    `tokenAt?_tag_iff`) or an address (`addressAt?_shape`). -/

namespace Agenda

/-! ## Section 1: Characters -/

namespace Text

theorem blankRanges_alphanumericRanges : (blankRanges.all fun r =>
    alphanumericRanges.all fun s => Nat.ble (s.2 + 1) r.1 || Nat.ble (r.2 + 1) s.1) = true := by
  decide +kernel

/-- No letter and no numeral is blank. -/
theorem isAlphanumeric_of_isBlank {c : Char} (h : isBlank c = true) :
    isAlphanumeric c = false := by
  simp only [isBlank, inRanges, List.any_eq_true, Bool.and_eq_true, decide_eq_true_eq] at h
  obtain ⟨range, hrange, hlow, hhigh⟩ := h
  have hall := List.all_eq_true.mp blankRanges_alphanumericRanges range hrange
  rw [List.all_eq_true] at hall
  simp only [isAlphanumeric, inRanges, List.any_eq_false, Bool.and_eq_true, decide_eq_true_eq]
  intro other hother hin
  have hapart := hall other hother
  simp only [Bool.or_eq_true, Nat.ble_eq] at hapart
  omega

/-- The letters of ASCII by their codes. -/
theorem isAlpha_iff {c : Char} : c.isAlpha = true ↔
    (65 ≤ c.toNat ∧ c.toNat ≤ 90) ∨ (97 ≤ c.toNat ∧ c.toNat ≤ 122) := by
  show (decide (c.val ≥ 65 ∧ c.val ≤ 90) ||
    (decide (c.val ≥ 97) && decide (c.val ≤ 122))) = true ↔ _
  simp only [Bool.or_eq_true, Bool.and_eq_true, decide_eq_true_eq, ge_iff_le,
    UInt32.le_iff_toNat_le]
  exact Iff.rfl

theorem isAlphanum_of_isBlank {c : Char} (h : isBlank c = true) : c.isAlphanum = false := by
  simp only [isBlank, inRanges, blankRanges, List.any_cons, List.any_nil, Bool.or_eq_true,
    Bool.and_eq_true, decide_eq_true_eq, Bool.or_false] at h
  rw [Bool.eq_false_iff]
  intro hc
  rw [Char.isAlphanum, Bool.or_eq_true, isAlpha_iff, Char.isDigit_iff_toNat] at hc
  have hzero : '0'.toNat = 48 := rfl
  have hnine : '9'.toNat = 57 := rfl
  omega

end Text

namespace Title

section classes
variable {c : Char}

theorem notMem_of_isBlank {marks : List Char}
    (hmarks : (marks.all fun d => !Text.isBlank d) = true) (h : Text.isBlank c = true) :
    c ∉ marks := by
  intro hc
  have hblank := List.all_eq_true.mp hmarks c hc
  rw [h] at hblank
  cases hblank

theorem isTagChar_of_isBlank (h : Text.isBlank c = true) : isTagChar c = false := by
  have hmark : c ∉ ":.-_".toList := notMem_of_isBlank (by decide +kernel) h
  simp only [isTagChar, Text.isAlphanumeric_of_isBlank h, Bool.false_or]
  simpa using hmark

theorem isSchemeChar_of_isBlank (h : Text.isBlank c = true) : isSchemeChar c = false := by
  have hmark : c ∉ "+.-".toList := notMem_of_isBlank (by decide +kernel) h
  simp only [isSchemeChar, Text.isAlphanum_of_isBlank h, Bool.false_or]
  simpa using hmark

theorem chars_of_isTagChar (h : isTagChar c = true) : Text.isBlank c = false ∧ c ≠ '[' := by
  constructor
  · rw [Bool.eq_false_iff]
    intro hblank
    rw [isTagChar_of_isBlank hblank] at h
    cases h
  · rintro rfl
    have hno : isTagChar '[' = false := by decide +kernel
    rw [hno] at h
    cases h

theorem chars_of_isSchemeChar (h : isSchemeChar c = true) : Text.isBlank c = false ∧ c ≠ '[' := by
  constructor
  · rw [Bool.eq_false_iff]
    intro hblank
    rw [isSchemeChar_of_isBlank hblank] at h
    cases h
  · rintro rfl
    cases h

theorem chars_of_isAddressChar (h : isAddressChar c = true) :
    Text.isBlank c = false ∧ c ≠ '[' := by
  simp only [isAddressChar, Bool.and_eq_true, Bool.not_eq_true'] at h
  refine ⟨h.1, ?_⟩
  rintro rfl
  cases h.2

end classes

/-! ## Section 2: Links -/

/-- The text is a link: a label in brackets and, right after it, a target in parentheses. -/
def IsLink (t : Text) : Prop := ∃ label target : Text,
  t = '[' :: label ++ "](".toList ++ target ++ [')'] ∧
    ']' ∉ label ∧ ')' ∉ target ∧ target ≠ []

section lengths
variable {label target after t : Text} {n : Nat}

/-- A text up to a character that it does not hold. -/
theorem takeWhile_ne_append {x : Char} (h : x ∉ label) (after : Text) :
    (label ++ x :: after).takeWhile (· ≠ x) = label ∧
      (label ++ x :: after).dropWhile (· ≠ x) = x :: after := by
  have hall : ∀ c ∈ label, decide (c ≠ x) = true := by
    intro c hc
    rw [decide_eq_true_eq]
    rintro rfl
    exact h hc
  rw [List.takeWhile_append_of_pos hall, List.dropWhile_append_of_pos hall]
  simp

/-- What comes up short of the end of a text is stopped by the character. -/
theorem exists_dropWhile_ne {x : Char} (h : (after.takeWhile (· ≠ x)).length < after.length) :
    ∃ tail, after.dropWhile (· ≠ x) = x :: tail := by
  cases hstop : after.dropWhile (· ≠ x) with
  | nil =>
    have hafter := List.takeWhile_append_dropWhile (p := (· ≠ x)) (l := after)
    rw [hstop, List.append_nil] at hafter
    rw [hafter] at h
    exact absurd h (Nat.lt_irrefl _)
  | cons c tail =>
    have hc : decide (c ≠ x) = false := Text.head?_dropWhile_not after c (by rw [hstop]; rfl)
    obtain rfl : c = x := by simpa using hc
    exact ⟨tail, rfl⟩

/-- **A text that begins with a link** has a link in front, and its length is the length found. -/
theorem linkLength?_eq_some_iff :
    linkLength? t = some n ↔ ∃ link after, IsLink link ∧ t = link ++ after ∧ n = link.length := by
  constructor
  · intro h
    unfold linkLength? at h
    split at h
    · next rest =>
      split at h
      · next after hdrop =>
        dsimp only at h
        split at h
        · next hcond =>
          obtain ⟨hne, hlt⟩ := hcond
          obtain ⟨tail, htail⟩ := exists_dropWhile_ne hlt
          have hrest := List.takeWhile_append_dropWhile (p := (· ≠ ']')) (l := rest)
          have hafter := List.takeWhile_append_dropWhile (p := (· ≠ ')')) (l := after)
          rw [htail] at hafter
          rw [hdrop] at hrest
          refine ⟨'[' :: rest.takeWhile (· ≠ ']') ++ "](".toList ++ after.takeWhile (· ≠ ')') ++
            [')'], tail, ⟨_, _, rfl, ?_, ?_, hne⟩, ?_, ?_⟩
          · intro hmem
            simpa using List.mem_takeWhile_imp hmem
          · intro hmem
            simpa using List.mem_takeWhile_imp hmem
          · calc '[' :: rest = '[' :: (rest.takeWhile (· ≠ ']') ++ ']' :: '(' ::
                  (after.takeWhile (· ≠ ')') ++ ')' :: tail)) := by rw [hafter, hrest]
              _ = _ := by simp
          · obtain rfl := Option.some.inj h
            simp
            omega
        · cases h
      · cases h
    · cases h
  · rintro ⟨link, after, ⟨label, target, rfl, hlabel, htarget, hne⟩, rfl, rfl⟩
    -- with the label and the target cut off, the search runs as it is written
    have htext : '[' :: label ++ "](".toList ++ target ++ [')'] ++ after =
        '[' :: (label ++ ']' :: '(' :: (target ++ ')' :: after)) := by simp
    obtain ⟨htake, hdrop⟩ := takeWhile_ne_append hlabel ('(' :: (target ++ ')' :: after))
    obtain ⟨htake', -⟩ := takeWhile_ne_append htarget after
    rw [htext]
    simp only [linkLength?, hdrop, htake, htake']
    rw [if_pos ⟨hne, by simp⟩]
    simp
    omega

end lengths

section placed
variable {pos skip : Nat} {t title : Text} {link : Link}

/-- A link that has been found stands behind those before it, where its text stands. -/
theorem mem_linksFrom (h : link ∈ linksFrom pos skip t) : pos + skip ≤ link.start ∧
    ∃ d, link.start = pos + d ∧ linkLength? (t.drop d) = some (link.stop - link.start) := by
  -- on the search, one character at a time
  induction t generalizing pos skip with
  | nil => cases h
  | cons c rest ih =>
    have hlater : ∀ skip', link ∈ linksFrom (pos + 1) skip' rest → pos + 1 + skip' ≤ link.start ∧
        ∃ d, link.start = pos + d ∧
          linkLength? ((c :: rest).drop d) = some (link.stop - link.start) := by
      intro skip' hmem
      obtain ⟨hfrom, d, hstart, hlength⟩ := ih hmem
      exact ⟨hfrom, d + 1, by omega, hlength⟩
    cases skip with
    | succ skip =>
      obtain ⟨hfrom, hplace⟩ := hlater skip h
      exact ⟨by omega, hplace⟩
    | zero =>
      unfold linksFrom at h
      dsimp only at h
      split at h
      · next n hn =>
        rcases List.mem_cons.mp h with rfl | hmem
        · refine ⟨Nat.le_refl _, 0, rfl, ?_⟩
          show linkLength? (c :: rest) = some (pos + n - pos)
          rw [hn, Nat.add_sub_cancel_left]
        · obtain ⟨hfrom, hplace⟩ := hlater _ hmem
          exact ⟨by omega, hplace⟩
      · obtain ⟨hfrom, hplace⟩ := hlater 0 h
        exact ⟨by omega, hplace⟩

/-- The links stand apart, one behind the other. -/
theorem pairwise_linksFrom (pos skip : Nat) (t : Text) :
    (linksFrom pos skip t).Pairwise fun a b => a.stop ≤ b.start := by
  induction t generalizing pos skip with
  | nil => exact List.Pairwise.nil
  | cons c rest ih =>
    cases skip with
    | succ skip => exact ih (pos + 1) skip
    | zero =>
      unfold linksFrom
      dsimp only
      split
      · next n hn =>
        refine List.pairwise_cons.mpr ⟨?_, ih _ _⟩
        intro other hother
        have hfrom := (mem_linksFrom hother).1
        have hpos := linkLength?_pos hn
        show pos + n ≤ other.start
        omega
      · exact ih _ _

/-- **A link of a title** stands in it as it is written. -/
theorem mem_links (h : link ∈ links title) : link.stop ≤ title.length ∧
    IsLink (title.extract link.start link.stop) := by
  obtain ⟨-, d, hstart, hlength⟩ := mem_linksFrom h
  obtain rfl : link.start = d := by omega
  obtain ⟨shown, after, hlink, hdrop, hlen⟩ := linkLength?_eq_some_iff.mp hlength
  have hlt := link.start_lt_stop
  have htotal := congrArg List.length hdrop
  rw [List.length_drop, List.length_append] at htotal
  refine ⟨by omega, ?_⟩
  have hshown : title.extract link.start link.stop = shown := by
    rw [List.extract_eq_take_drop, hdrop, hlen, List.take_left']
    rfl
  rwa [hshown]

/-- Two links of a title that share a place are the same. -/
theorem links_unique {other : Link} (h : link ∈ links title) (hother : other ∈ links title)
    (hlt : link.start < other.stop) (hlt' : other.start < link.stop) : link = other := by
  obtain ⟨i, hi, rfl⟩ := List.getElem_of_mem h
  obtain ⟨j, hj, rfl⟩ := List.getElem_of_mem hother
  have hpair := List.pairwise_iff_getElem.mp (pairwise_linksFrom 0 0 title)
  rcases Nat.lt_trichotomy i j with hij | rfl | hij
  · have hapart := hpair i j hi hj hij
    exact absurd hlt' (Nat.not_lt.mpr hapart)
  · rfl
  · have hapart := hpair j i hj hi hij
    exact absurd hlt (Nat.not_lt.mpr hapart)

/-- A link begins with its bracket. -/
theorem getElem?_link_start (h : link ∈ links title) : title[link.start]? = some '[' := by
  obtain ⟨-, d, hstart, hlength⟩ := mem_linksFrom h
  obtain rfl : link.start = d := by omega
  obtain ⟨shown, after, ⟨label, target, rfl, -⟩, hdrop, -⟩ := linkLength?_eq_some_iff.mp hlength
  have hhead : (title.drop link.start).head? = some '[' := by rw [hdrop]; rfl
  rwa [List.head?_drop] at hhead

end placed

/-! ## Section 3: Tokens -/

section tokens
variable {prev : Option Char} {t name address : Text}

/-- **Where a project begins**: at its sign, at the start of a word and in front of a name. -/
theorem tokenAt?_project_iff : tokenAt? prev t = some (.project name) ↔
    atWordStart prev = true ∧ t.head? = some '@' ∧
      t.tail.takeWhile (!Text.isBlank ·) = name ∧ name ≠ [] := by
  cases t with
  | nil => simp [tokenAt?]
  | cons c rest =>
    simp only [tokenAt?, List.head?_cons, List.tail_cons, Option.some.injEq]
    constructor
    · intro h
      split at h
      · next hproject =>
        obtain ⟨hstart, rfl, hne⟩ := hproject
        cases h
        exact ⟨hstart, rfl, rfl, hne⟩
      · split at h <;> simp at h
    · rintro ⟨hstart, rfl, rfl, hne⟩
      rw [if_pos ⟨hstart, rfl, hne⟩]

/-- **Where a tag begins.** -/
theorem tokenAt?_tag_iff : tokenAt? prev t = some (.tag name) ↔
    atWordStart prev = true ∧ t.head? = some '#' ∧ t.tail.takeWhile isTagChar = name ∧
      name ≠ [] := by
  cases t with
  | nil => simp [tokenAt?]
  | cons c rest =>
    simp only [tokenAt?, List.head?_cons, List.tail_cons, Option.some.injEq]
    constructor
    · intro h
      split at h
      · simp at h
      · split at h
        · next htag =>
          obtain ⟨hstart, rfl, hne⟩ := htag
          cases h
          exact ⟨hstart, rfl, rfl, hne⟩
        · simp at h
    · rintro ⟨hstart, rfl, rfl, hne⟩
      rw [if_neg (by simp), if_pos ⟨hstart, rfl, hne⟩]

theorem addressAt?_of_tokenAt? (h : tokenAt? prev t = some (.url address)) :
    addressAt? prev t = some address := by
  cases t with
  | nil => cases h
  | cons c rest =>
    dsimp only [tokenAt?] at h
    split at h
    · cases h
    · split at h
      · cases h
      · obtain ⟨found, hfound, heq⟩ := Option.map_eq_some_iff.mp h
        cases heq
        exact hfound

/-- **What an address is**: a scheme, `://` and a body that does not end in punctuation.  It
    does not end in `://`, and starts neither inside a word nor behind a sign of a scheme. -/
theorem addressAt?_shape (h : addressAt? prev t = some address) : ∃ scheme body : Text,
    address = scheme ++ "://".toList ++ body ∧ (∀ c ∈ scheme, isSchemeChar c = true) ∧
      body ≠ [] ∧ (∀ c ∈ body, isAddressChar c = true) ∧
      (∀ c ∈ body.getLast?, isTrailing c = false) ∧ ¬ "://".toList <:+ address ∧
      mayStartAddress prev = true := by
  unfold addressAt? at h
  split at h
  · next rest hrest =>
    dsimp only at h
    split at h
    · next hcond =>
      obtain ⟨hprev, -, hend⟩ := hcond
      obtain rfl := Option.some.inj h
      have hend' : ¬ "://".toList <:+ t.takeWhile isSchemeChar ++ "://".toList ++
          Text.dropEndWhile isTrailing (rest.takeWhile isAddressChar) := by
        rwa [← List.isSuffixOf_iff_suffix]
      refine ⟨_, _, rfl, fun c => List.mem_takeWhile_imp, ?_, ?_, ?_, hend', hprev⟩
      · intro hnil
        rw [hnil, List.append_nil] at hend'
        exact hend' (List.suffix_append _ _)
      · intro c hc
        obtain ⟨cut, hcut⟩ := Text.dropEndWhile_suffix (p := isTrailing)
          (rest.takeWhile isAddressChar)
        apply List.mem_takeWhile_imp (l := rest)
        rw [hcut]
        exact List.mem_append_left _ hc
      · intro c hc
        rw [Text.dropEndWhile, List.getLast?_reverse] at hc
        exact Text.head?_dropWhile_not _ c hc
    · cases h
  · cases h

/-- An address holds neither a blank nor a bracket that opens. -/
theorem chars_of_addressAt? {c : Char} (h : addressAt? prev t = some address) (hc : c ∈ address) :
    Text.isBlank c = false ∧ c ≠ '[' := by
  obtain ⟨scheme, body, rfl, hscheme, -, hbody, -⟩ := addressAt?_shape h
  have hmark : ("://".toList.all fun d => !Text.isBlank d && d != '[') = true := by decide +kernel
  rcases List.mem_append.mp hc with hc | hc
  · rcases List.mem_append.mp hc with hc | hc
    · exact chars_of_isSchemeChar (hscheme c hc)
    · simpa using List.all_eq_true.mp hmark c hc
  · exact chars_of_isAddressChar (hbody c hc)

end tokens

end Title

end Agenda
