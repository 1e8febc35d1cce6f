import Agenda.Proofs.Filter.Lexing
import Agenda.Text.CaseLemmas

/-! # The shape of each token

    What is cut from a text has one of six shapes, and what follows decides only where it ends
    (`scan_eq_ok_iff`).  So a token stays as it is when what follows it changes into something
    that ends it as well (`Shape.congr`).  Where nothing can be cut, the error has a span in the
    text, and is the same in a longer text unless it stands at the very end
    (`scan_error_spec`). -/

namespace Agenda.Filter

open Token

/-! ## Section 1: Runs of characters -/

section runs
variable {p : Char → Bool} {x r : Text}

theorem dropWhile_of_endsRun (hx : x.all p = true) (hr : EndsRun p r) :
    (x ++ r).dropWhile p = r := by
  rw [List.dropWhile_append_of_pos (List.all_eq_true.mp hx)]
  exact Text.dropWhile_of_head hr

/-- Every text is a run of the class and what ends it. -/
theorem exists_run (p : Char → Bool) (t : Text) :
    ∃ x r, t = x ++ r ∧ x.all p = true ∧ EndsRun p r ∧ t.takeWhile p = x ∧ t.dropWhile p = r :=
  ⟨t.takeWhile p, t.dropWhile p, List.takeWhile_append_dropWhile.symm, List.all_takeWhile,
    Text.head?_dropWhile_not t, rfl, rfl⟩

end runs

/-! ## Section 2: Classes of characters -/

theorem digitRanges_alphanumeric : (Text.digitRanges.all fun r =>
    Text.alphanumericRanges.any fun s => Nat.ble s.1 r.1 && Nat.ble r.2 s.2) = true := by
  decide +kernel

/-- Digits are numerals. -/
theorem isAlphanumeric_of_isDigit {c : Char} (h : Text.isDigit c = true) :
    Text.isAlphanumeric c = true := by
  simp only [Text.isDigit, Text.inRanges, List.any_eq_true, Bool.and_eq_true,
    decide_eq_true_eq] at h
  obtain ⟨range, hrange, hlow, hhigh⟩ := h
  have hall := List.all_eq_true.mp digitRanges_alphanumeric range hrange
  simp only [List.any_eq_true, Bool.and_eq_true, Nat.ble_eq] at hall
  obtain ⟨wide, hwide, hlow', hhigh'⟩ := hall
  simp only [Text.isAlphanumeric, Text.inRanges, List.any_eq_true, Bool.and_eq_true,
    decide_eq_true_eq]
  exact ⟨wide, hwide, by omega, by omega⟩

theorem mem_of_punctuation? {c : Char} {l : Lexeme} (h : punctuation? c = some l) :
    c ∈ "()[],".toList := by
  unfold punctuation? at h
  split at h <;> simp_all

theorem punctuation?_of_beginsOperator {c : Char} (h : beginsOperator c = true) :
    punctuation? c = none := by
  simp only [beginsOperator, List.contains_iff_mem] at h
  simp at h
  rcases h with rfl | rfl | rfl | rfl <;> rfl

theorem classes_of_isQuote {c : Char} (h : isQuote c = true) :
    punctuation? c = none ∧ beginsOperator c = false := by
  simp only [isQuote, Bool.or_eq_true, beq_iff_eq] at h
  rcases h with rfl | rfl <;> exact ⟨rfl, rfl⟩

theorem marks_isNumeral : (("()[],".toList ++ "=!<>".toList ++ ['\'', '"']).all fun c =>
    !(Text.isDigit c || c == '-')) = true := by
  decide +kernel

/-- What a number begins with begins nothing else. -/
theorem classes_of_beginsNumber {c : Char} (h : (Text.isDigit c || c == '-') = true) :
    punctuation? c = none ∧ beginsOperator c = false ∧ isQuote c = false := by
  have hmark : c ∉ "()[],".toList ++ "=!<>".toList ++ ['\'', '"'] := by
    intro hc
    have hno := List.all_eq_true.mp marks_isNumeral c hc
    rw [h] at hno
    cases hno
  simp only [List.mem_append, not_or] at hmark
  obtain ⟨⟨hpunct, hop⟩, hquote⟩ := hmark
  refine ⟨?_, ?_, ?_⟩
  · cases hl : punctuation? c with
    | none => rfl
    | some l => exact absurd (mem_of_punctuation? hl) hpunct
  · simpa [beginsOperator] using hop
  · simpa [isQuote] using hquote

/-! ## Section 3: Shapes -/

theorem operator?_symbol {c : Char} {next : Option Char} {o : Operator}
    (h : operator? c next = some o) :
    o.symbol = [c] ∨ ∃ d, next = some d ∧ o.symbol = [c, d] := by
  unfold operator? at h
  split at h
  all_goals first
    | contradiction
    | obtain rfl := Option.some.inj h
      first
        | exact Or.inl rfl
        | exact Or.inr ⟨_, rfl, rfl⟩

/-- Reading up to the closing quote looks at nothing behind it. -/
theorem unquote?_split {q : Char} {t v : Text} {n : Nat} (hq : q ≠ '\\')
    (h : unquote? q t = some (v, n)) :
    ∃ x r, t = x ++ r ∧ n = x.length ∧ ∀ r', unquote? q (x ++ r') = some (v, n) := by
  fun_induction unquote? q t generalizing v n with
  | case1 => cases h
  | case2 c rest ih =>
    obtain ⟨⟨v', n'⟩, hrest, heq⟩ := Option.map_eq_some_iff.mp h
    obtain ⟨x, r, rfl, rfl, hx⟩ := ih hrest
    obtain ⟨rfl, rfl⟩ := Prod.mk.inj heq
    exact ⟨'\\' :: c :: x, r, rfl, rfl, fun r' => by simp [unquote?, hx]⟩
  | case3 rest hback =>
    obtain ⟨rfl, rfl⟩ := Prod.mk.inj (Option.some.inj h)
    refine ⟨[q], rest, rfl, rfl, fun r' => ?_⟩
    rw [List.singleton_append, unquote?, if_pos rfl]
    intro c t hback'
    exact absurd hback' hq
  | case4 c rest hback hc ih =>
    obtain ⟨⟨v', n'⟩, hrest, heq⟩ := Option.map_eq_some_iff.mp h
    -- a backslash at the very end escapes nothing, and no quote follows it
    have hc' : c ≠ '\\' := by
      rintro rfl
      cases rest with
      | nil => cases hrest
      | cons d rest => exact hback d rest rfl rfl
    obtain ⟨x, r, rfl, rfl, hx⟩ := ih hrest
    obtain ⟨rfl, rfl⟩ := Prod.mk.inj heq
    refine ⟨c :: x, r, rfl, rfl, fun r' => ?_⟩
    rw [List.cons_append, unquote?, if_neg hc, hx]
    · rfl
    · intro d t hback'
      exact absurd hback' hc'

/-- Here goes on a day or a moment. -/
theorem continuesDay_iff {t : Text} :
    continuesDay t = true ↔ ∃ d r, t = '-' :: d :: r ∧ Text.isDigit d = true := by
  unfold continuesDay
  split
  · next d r => simp
  · next hno =>
    simp only [Bool.false_eq_true, false_iff, not_exists, not_and]
    rintro d r rfl
    exact absurd rfl (hno d r)

/-- `c` and `x` after it are the token `l` where `r` follows. -/
inductive Shape (c : Char) : Text → Lexeme → Text → Prop where
  | punctuation {l : Lexeme} (r : Text) (hc : punctuation? c = some l) : Shape c [] l r
  | symbol {x r : Text} {o : Operator} (hc : beginsOperator c = true)
      (ho : operator? c (x ++ r).head? = some o) (hx : o.symbol = c :: x) : Shape c x (.op o) r
  | quoted {x v : Text} (r : Text) (hc : isQuote c = true)
      (hx : ∀ r', unquote? c (x ++ r') = some (v, x.length)) : Shape c x (.string v) r
  | time {x y r : Text} (hc : Text.isDigit c = true) (hx : x.all isNumberChar = true)
      (hy : y.all isTimeChar = true) (hday : continuesDay y = true)
      (hr : EndsRun isTimeChar r) : Shape c (x ++ y) (.string (c :: x ++ y)) r
  | number {x r : Text} (hc : (Text.isDigit c || c == '-') = true)
      (hx : x.all isNumberChar = true) (hr : EndsRun isNumberChar r)
      (hday : c = '-' ∨ continuesDay r = false)
      (hnum : isNumeral (if c = '-' then x else c :: x) = true) : Shape c x (.number (c :: x)) r
  | word {x r : Text} (hx : isWholeWord (c :: x) = true) (hr : EndsRun isWordChar r) :
      Shape c x (.word (c :: x)) r

theorem not_isDigit_hyphen : Text.isDigit '-' = false := by decide +kernel

theorem not_isNumberChar_hyphen : isNumberChar '-' = false := by decide +kernel

theorem isTimeChar_hyphen : isTimeChar '-' = true := by decide +kernel

/-- What goes on as a day is no more of the year, and is a day's own characters. -/
theorem endsRun_of_continuesDay {t : Text} (h : continuesDay t = true) :
    EndsRun isNumberChar t := by
  obtain ⟨d, r, rfl, -⟩ := continuesDay_iff.mp h
  rintro c ⟨⟩
  exact not_isNumberChar_hyphen

theorem continuesDay_takeWhile {t : Text} (h : continuesDay t = true) :
    continuesDay (t.takeWhile isTimeChar) = true := by
  obtain ⟨d, r, rfl, hd⟩ := continuesDay_iff.mp h
  have htime : isTimeChar d = true := by
    rw [isTimeChar, isAlphanumeric_of_isDigit hd, Bool.true_or]
  refine continuesDay_iff.mpr ⟨d, r.takeWhile isTimeChar, ?_, hd⟩
  simp [isTimeChar_hyphen, htime]

theorem continuesDay_append {t : Text} (h : continuesDay t = true) (r : Text) :
    continuesDay (t ++ r) = true := by
  obtain ⟨d, r', rfl, hd⟩ := continuesDay_iff.mp h
  exact continuesDay_iff.mpr ⟨d, r' ++ r, rfl, hd⟩

section scan
variable {c : Char} {rest : Text} {pos n : Nat} {l : Lexeme}

theorem scanNumber_eq_ok (hc : (Text.isDigit c || c == '-') = true)
    (h : scanNumber c rest pos = .ok (l, n)) :
    ∃ x r, rest = x ++ r ∧ n = x.length ∧ Shape c x l r := by
  obtain ⟨run, after, hrest, hrun, hafter, htake, hdrop⟩ := exists_run isNumberChar rest
  obtain ⟨more, r, hmore, hall, hr, htake', hdrop'⟩ := exists_run isTimeChar after
  unfold scanNumber at h
  dsimp only at h
  rw [htake, hdrop, htake'] at h
  by_cases hday : (c != '-' && continuesDay after) = true
  · -- a day or a moment
    rw [if_pos hday] at h
    obtain ⟨rfl, rfl⟩ := Prod.mk.inj (Except.ok.inj h)
    simp only [Bool.and_eq_true, bne_iff_ne, ne_eq] at hday
    have hdigit : Text.isDigit c = true := by simpa [hday.1] using hc
    have hday' := htake' ▸ continuesDay_takeWhile hday.2
    refine ⟨run ++ more, r, by rw [hrest, hmore, List.append_assoc], by simp, ?_⟩
    exact .time hdigit hrun hall hday' hr
  · -- a number, if it is one
    rw [if_neg hday] at h
    by_cases hnum : isNumeral (if c = '-' then run else c :: run) = true
    · rw [if_pos hnum] at h
      obtain ⟨rfl, rfl⟩ := Prod.mk.inj (Except.ok.inj h)
      refine ⟨run, after, hrest, rfl, .number hc hrun hafter ?_ hnum⟩
      by_cases hminus : c = '-'
      · exact Or.inl hminus
      · exact Or.inr (by simpa [hminus] using hday)
    · rw [if_neg hnum] at h
      cases h

theorem scan_eq_ok (hblank : Text.isBlank c = false) (h : scan c rest pos = .ok (l, n)) :
    ∃ x r, rest = x ++ r ∧ n = x.length ∧ Shape c x l r := by
  unfold scan at h
  split at h
  · next l' hl =>
    obtain ⟨rfl, rfl⟩ := Prod.mk.inj (Except.ok.inj h)
    exact ⟨[], rest, rfl, rfl, .punctuation rest hl⟩
  · next hpunct =>
    split_ifs at h with hop hquote hnumber hword
    · split at h
      · next o ho =>
        obtain ⟨rfl, rfl⟩ := Prod.mk.inj (Except.ok.inj h)
        -- an operator of two characters takes the next one
        rcases operator?_symbol ho with hsymbol | ⟨d, hd, hsymbol⟩
        · exact ⟨[], rest, rfl, by rw [hsymbol]; rfl, .symbol hop ho hsymbol⟩
        · obtain ⟨r, rfl⟩ := List.head?_eq_some_iff.mp hd
          exact ⟨[d], r, rfl, by rw [hsymbol]; rfl, .symbol hop ho hsymbol⟩
      · cases h
    · split at h
      · next v m hv =>
        obtain ⟨rfl, rfl⟩ := Prod.mk.inj (Except.ok.inj h)
        have hback : c ≠ '\\' := by
          rintro rfl
          cases hquote
        obtain ⟨x, r, rfl, rfl, hx⟩ := unquote?_split hback hv
        exact ⟨x, r, rfl, rfl, .quoted r hquote hx⟩
      · cases h
    · exact scanNumber_eq_ok hnumber h
    · obtain ⟨rfl, rfl⟩ := Prod.mk.inj (Except.ok.inj h)
      obtain ⟨x, r, hrest, hx, hr, htake, -⟩ := exists_run isWordChar rest
      rw [htake]
      refine ⟨x, r, hrest, rfl, .word ?_ hr⟩
      simp [isWholeWord, beginsWord, hblank, hpunct, hop, hquote, hnumber, hword, hx]

theorem scanNumber_of_time {x y r : Text} (hc : Text.isDigit c = true)
    (hx : x.all isNumberChar = true) (hy : y.all isTimeChar = true)
    (hday : continuesDay y = true) (hr : EndsRun isTimeChar r) (pos : Nat) :
    scanNumber c (x ++ (y ++ r)) pos = .ok (.string (c :: x ++ y), (x ++ y).length) := by
  have hends := endsRun_of_continuesDay (continuesDay_append hday r)
  have hminus : c ≠ '-' := by
    rintro rfl
    rw [not_isDigit_hyphen] at hc
    cases hc
  unfold scanNumber
  dsimp only
  rw [takeWhile_of_endsRun hx hends, dropWhile_of_endsRun hx hends, takeWhile_of_endsRun hy hr,
    if_pos (by simp [hminus, continuesDay_append hday]), List.length_append]

theorem scanNumber_of_number {x r : Text} (hx : x.all isNumberChar = true)
    (hr : EndsRun isNumberChar r) (hday : c = '-' ∨ continuesDay r = false)
    (hnum : isNumeral (if c = '-' then x else c :: x) = true) (pos : Nat) :
    scanNumber c (x ++ r) pos = .ok (.number (c :: x), x.length) := by
  unfold scanNumber
  dsimp only
  rw [takeWhile_of_endsRun hx hr, dropWhile_of_endsRun hx hr, if_neg, if_pos hnum]
  rcases hday with rfl | hday
  · simp
  · simp [hday]

/-- What has a shape is cut as such. -/
theorem Shape.scan_eq {x r : Text} (h : Shape c x l r) (pos : Nat) :
    scan c (x ++ r) pos = .ok (l, x.length) := by
  cases h with
  | punctuation r hc => simp [scan, hc]
  | symbol hc ho hx =>
    simp only [scan, punctuation?_of_beginsOperator hc, hc, ho, hx, if_true]
    rfl
  | quoted r hc hx =>
    obtain ⟨hpunct, hop⟩ := classes_of_isQuote hc
    simp [scan, hpunct, hop, hc, hx]
  | @time x y r hc hx hy hday hr =>
    have hnumber : (Text.isDigit c || c == '-') = true := by rw [hc, Bool.true_or]
    obtain ⟨hpunct, hop, hquote⟩ := classes_of_beginsNumber hnumber
    rw [List.append_assoc]
    simp only [scan, hpunct, hop, hquote, hnumber, Bool.false_eq_true, if_false, if_true]
    exact scanNumber_of_time hc hx hy hday hr pos
  | number hc hx hr hday hnum =>
    obtain ⟨hpunct, hop, hquote⟩ := classes_of_beginsNumber hc
    simp only [scan, hpunct, hop, hquote, hc, Bool.false_eq_true, if_false, if_true]
    exact scanNumber_of_number hx hr hday hnum pos
  | word hx hr =>
    simp only [isWholeWord, beginsWord, Bool.and_eq_true, Bool.not_eq_true',
      Option.isNone_iff_eq_none] at hx
    obtain ⟨⟨⟨⟨⟨⟨-, hpunct⟩, hop⟩, hquote⟩, hdigit⟩, halnum⟩, hx⟩ := hx
    simp only [scan, hpunct, hop, hquote, hdigit, halnum, Bool.false_eq_true, if_false, if_true,
      takeWhile_of_endsRun hx hr]

/-- **What is cut has a shape**, and what has a shape is cut: the token takes a front `x` of
    what stands after its first character, and `l` is the lexeme that `c` and `x` make where
    the rest follows. -/
theorem scan_eq_ok_iff (hblank : Text.isBlank c = false) :
    scan c rest pos = .ok (l, n) ↔ ∃ x r, rest = x ++ r ∧ n = x.length ∧ Shape c x l r := by
  constructor
  · exact scan_eq_ok hblank
  · rintro ⟨x, r, rfl, rfl, h⟩
    exact h.scan_eq pos

end scan

/-! ## Section 4: What follows a token -/

/-- Whatever token `r` ends, `r'` ends as well. -/
structure EndsAs (r r' : Text) : Prop where
  word     : EndsRun isWordChar r → EndsRun isWordChar r'
  time     : EndsRun isTimeChar r → EndsRun isTimeChar r'
  number   : EndsRun isNumberChar r → EndsRun isNumberChar r'
  day      : continuesDay r = false → continuesDay r' = false
  operator : ∀ d ∈ r'.head?, d = '=' ∨ d = '~' → r.head? = some d

theorem operator?_of_one {c : Char} {next next' : Option Char} {o : Operator}
    (h : operator? c next = some o) (ho : o.symbol = [c])
    (hnext : ∀ d ∈ next', d = '=' ∨ d = '~' → next = some d) : operator? c next' = some o := by
  unfold operator? at h
  split at h
  all_goals first
    | contradiction
    | obtain rfl := Option.some.inj h
  all_goals first
    -- an operator of two characters
    | exact absurd (congrArg List.length ho) (by decide)
    -- an operator of one character, which no other goes on
    | unfold operator?
      split <;> simp_all

/-- A token stays as it is where something else follows that ends it. -/
theorem Shape.congr {c : Char} {x r r' : Text} {l : Lexeme} (h : Shape c x l r)
    (hends : EndsAs r r') : Shape c x l r' := by
  cases h with
  | punctuation r hc => exact .punctuation r' hc
  | @symbol x r o hc ho hx =>
    refine .symbol hc ?_ hx
    cases x with
    | nil => exact operator?_of_one ho hx hends.operator
    | cons d x => exact ho
  | quoted r hc hx => exact .quoted r' hc hx
  | time hc hx hy hday hr => exact .time hc hx hy hday (hends.time hr)
  | number hc hx hr hday hnum =>
    exact .number hc hx (hends.number hr) (hday.imp_right hends.day) hnum
  | word hx hr => exact .word hx (hends.word hr)

theorem continuesDay_of_ne {c : Char} (hc : c ≠ '-') (r : Text) :
    continuesDay (c :: r) = false := by
  rw [← Bool.not_eq_true, continuesDay_iff]
  rintro ⟨d, r', heq, -⟩
  exact hc (List.cons.inj heq).1

theorem continuesDay_cons (c d : Char) (r : Text) :
    continuesDay (c :: d :: r) = (c == '-' && Text.isDigit d) := by
  by_cases hc : c = '-'
  · subst hc
    rfl
  · simp [continuesDay_of_ne hc, hc]

/-- Two characters decide what ends a token, and one does unless it is a hyphen. -/
theorem EndsAs.append_left {a : Text} (hne : a ≠ []) (hhyphen : a ≠ ['-']) (r r' : Text) :
    EndsAs (a ++ r) (a ++ r') := by
  match a, hne with
  | [c], _ =>
    have hc : c ≠ '-' := fun hc => hhyphen (by rw [hc])
    refine ⟨fun h => h, fun h => h, fun h => h, ?_, fun d hd _ => hd⟩
    exact fun _ => continuesDay_of_ne hc r'
  | c :: d :: a, _ =>
    refine ⟨fun h => h, fun h => h, fun h => h, ?_, fun d hd _ => hd⟩
    intro hday
    rw [List.cons_append, List.cons_append, continuesDay_cons] at hday ⊢
    exact hday

theorem endsAs_append {r : Text} (h : 2 ≤ r.length) (u : Text) : EndsAs r (r ++ u) := by
  have hne : r ≠ [] := by
    rintro rfl
    cases h
  have hhyphen : r ≠ ['-'] := by
    rintro rfl
    exact absurd h (by decide)
  simpa using EndsAs.append_left hne hhyphen [] u

/-- A blank ends every token. -/
theorem endsAs_space (r u : Text) : EndsAs r (r ++ ' ' :: u) := by
  match r with
  | [] =>
    refine ⟨fun _ => .of_cons (by decide +kernel) u, fun _ => .of_cons (by decide +kernel) u,
      fun _ => .of_cons (by decide +kernel) u, fun _ => continuesDay_of_ne (by decide) u, ?_⟩
    rintro d ⟨⟩ (h | h) <;> cases h
  | [c] =>
    by_cases hc : c = '-'
    · subst hc
      refine ⟨fun h => h, fun h => h, fun h => h, fun _ => ?_, fun d hd _ => hd⟩
      show Text.isDigit ' ' = false
      decide +kernel
    · have hends := EndsAs.append_left (List.cons_ne_nil c []) (by simp [hc]) [] (' ' :: u)
      rwa [List.append_nil] at hends
  | c :: d :: r => exact endsAs_append (by simp) _

/-! ## Section 5: What cannot be cut -/

section errors
variable {c : Char} {rest : Text} {pos : Nat} {e : QueryError}

theorem scanNumber_error (h : scanNumber c rest pos = .error e) :
    ∃ x r, rest = x ++ r ∧ e = ⟨.invalidNumber (c :: x), pos, pos + 1 + x.length⟩ ∧
      ∀ r', (EndsRun isNumberChar r → EndsRun isNumberChar r') →
        (continuesDay r = false → continuesDay r' = false) →
        scanNumber c (x ++ r') pos = .error e := by
  obtain ⟨run, after, hrest, hrun, hafter, htake, hdrop⟩ := exists_run isNumberChar rest
  unfold scanNumber at h
  dsimp only at h
  rw [htake, hdrop] at h
  by_cases hday : (c != '-' && continuesDay after) = true
  · rw [if_pos hday] at h
    cases h
  · rw [if_neg hday] at h
    by_cases hnum : isNumeral (if c = '-' then run else c :: run) = true
    · rw [if_pos hnum] at h
      cases h
    · rw [if_neg hnum] at h
      -- the run of the number stops where it did, and a day is no more continued than before
      refine ⟨run, after, hrest, (Except.error.inj h).symm, fun r' hr' hcontinues => ?_⟩
      have hday' : ¬(c != '-' && continuesDay r') = true := by
        rw [Bool.and_eq_true, not_and, Bool.not_eq_true] at hday ⊢
        exact fun hminus => hcontinues (hday hminus)
      unfold scanNumber
      dsimp only
      rw [takeWhile_of_endsRun hrun (hr' hafter), dropWhile_of_endsRun hrun (hr' hafter),
        if_neg hday', if_neg hnum]
      exact h

/-- Where nothing can be cut, the error has a span in the text, and it is the same in a longer
    text unless it reaches to the last character or the one before. -/
theorem scan_error_spec (h : scan c rest pos = .error e) :
    e.start = pos ∧ pos < e.stop ∧ e.stop ≤ pos + 1 + rest.length ∧
      (e.stop < pos + rest.length → ∀ u, scan c (rest ++ u) pos = .error e) := by
  unfold scan at h
  split at h
  · cases h
  · next hpunct =>
    split_ifs at h with hop hquote hnumber hword
    · split at h
      · cases h
      · next ho =>
        obtain rfl := Except.error.inj h
        refine ⟨rfl, Nat.lt_succ_self pos, by simp, fun hlt u => ?_⟩
        cases rest with
        | nil =>
          simp only [List.length_nil] at hlt
          omega
        | cons d rest =>
          simp only [scan, hpunct, hop, if_true]
          have ho' : operator? c (d :: rest ++ u).head? = none := ho
          rw [ho']
    · split at h
      · cases h
      · obtain rfl := Except.error.inj h
        refine ⟨rfl, by dsimp only; omega, Nat.le_refl _, fun hlt => ?_⟩
        dsimp only at hlt
        omega
    · obtain ⟨x, r, rfl, rfl, hx⟩ := scanNumber_error h
      refine ⟨rfl, by dsimp only; omega, by simp, fun hlt u => ?_⟩
      -- an end two characters further on is too far away to change what the numeral runs into
      have hr : 2 ≤ r.length := by
        simp only [List.length_append] at hlt
        omega
      simp only [scan, hpunct, hop, hquote, hnumber, Bool.false_eq_true, if_false, if_true]
      rw [List.append_assoc]
      have hends := endsAs_append hr u
      exact hx _ hends.number hends.day
    · obtain rfl := Except.error.inj h
      refine ⟨rfl, Nat.lt_succ_self pos, by simp, fun _ u => ?_⟩
      simp [scan, hpunct, hop, hquote, hnumber, hword]

end errors

/-! ## Section 6: From token to token -/

section steps
variable {pos : Nat} {c : Char}

theorem lexFrom_nil (pos : Nat) : lexFrom pos [] = { tokens := [], error := none } := by
  rw [lexFrom]

theorem lexFrom_blank (hblank : Text.isBlank c = true) (rest : Text) :
    lexFrom pos (c :: rest) = lexFrom (pos + 1) rest := by
  rw [lexFrom, if_pos hblank]

theorem lexFrom_error {rest : Text} {e : QueryError} (hblank : Text.isBlank c = false)
    (h : scan c rest pos = .error e) :
    lexFrom pos (c :: rest) = { tokens := [], error := some e } := by
  rw [lexFrom, if_neg (by simp [hblank]), h]

theorem lexFrom_shape {x r : Text} {l : Lexeme} (hblank : Text.isBlank c = false)
    (h : Shape c x l r) :
    lexFrom pos (c :: (x ++ r)) =
      { tokens := ⟨l, c :: x, pos, pos + 1 + x.length⟩ ::
          (lexFrom (pos + 1 + x.length) r).tokens,
        error := (lexFrom (pos + 1 + x.length) r).error } := by
  rw [lexFrom, if_neg (by simp [hblank]), h.scan_eq]
  simp only [List.take_left, List.drop_left]

/-- **Induction over how a text is cut**: there is nothing left, or a blank to skip, or
    something that cannot be cut, or a token of some shape. -/
theorem lexFrom_induction {motive : Nat → Text → Prop} (done : ∀ pos, motive pos [])
    (blank : ∀ pos c rest, Text.isBlank c = true → motive (pos + 1) rest →
      motive pos (c :: rest))
    (stuck : ∀ pos c rest e, Text.isBlank c = false → scan c rest pos = .error e →
      motive pos (c :: rest))
    (token : ∀ pos c x r l, Text.isBlank c = false → Shape c x l r →
      motive (pos + 1 + x.length) r → motive pos (c :: (x ++ r)))
    (pos : Nat) (t : Text) : motive pos t := by
  fun_induction lexFrom pos t with
  | case1 pos => exact done pos
  | case2 pos c rest hblank ih => exact blank pos c rest hblank ih
  | case3 pos c rest hblank e hscan =>
    rw [Bool.not_eq_true] at hblank
    exact stuck pos c rest e hblank hscan
  | case4 pos c rest hblank l n hscan first tail ih =>
    rw [Bool.not_eq_true] at hblank
    obtain ⟨x, r, rfl, rfl, hshape⟩ := scan_eq_ok hblank hscan
    rw [List.drop_left] at ih
    exact token pos c x r l hblank hshape ih

end steps

end Agenda.Filter
