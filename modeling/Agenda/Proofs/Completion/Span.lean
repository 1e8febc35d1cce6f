import Agenda.Proofs.Completion.Offers

/-! # The word under the cursor

    What is put in takes the place of the word that ends at the cursor, or of nothing
    (`context_span`).  The scan and the search for an open quotation go through a text
    differently, one piece after another and one character after another, and agree: the scan
    breaks off exactly where a quotation is open (`breaksOff_iff`).  So a word that is completed
    never stands in a quotation. -/

namespace Agenda.Filter.Completion

/-! ## Section 1: Where the scan breaks off -/

/-- The scan of a text comes to a quotation mark that no other of its kind follows. -/
inductive BreaksOff : Text → Prop where
  | here {c : Char} {rest : Text} {pos : Nat} (hc : Text.isBlank c = false)
      (h : pieceAt? c rest pos = none) : BreaksOff (c :: rest)
  | blank {c : Char} {rest : Text} (hc : Text.isBlank c = true) (h : BreaksOff rest) :
      BreaksOff (c :: rest)
  | piece {c : Char} {rest : Text} {pos n : Nat} {p : Option Piece}
      (hc : Text.isBlank c = false) (h : pieceAt? c rest pos = some (p, n))
      (hrest : BreaksOff (rest.drop n)) : BreaksOff (c :: rest)

section quotes
variable {c q : Char} {t rest : Text} {pos n : Nat} {p : Option Piece}

theorem not_isQuote_of_isBlank (h : Text.isBlank c = true) : c ≠ '\'' ∧ c ≠ '"' := by
  constructor <;>
  · rintro rfl
    revert h
    decide +kernel

theorem not_isQuote_of_isNumberChar (h : isNumberChar c = true) : c ≠ '\'' ∧ c ≠ '"' := by
  constructor <;>
  · rintro rfl
    revert h
    decide +kernel

theorem quoteOpen_cons (hc : c ≠ '\'' ∧ c ≠ '"') : quoteOpen none (c :: t) = quoteOpen none t :=
  quoteOpen_append_of_noQuote (t := [c]) (by simpa using hc) t

/-- A quotation that is not closed stays open to the end. -/
theorem quoteOpen_some_of_notMem (h : q ∉ t) : quoteOpen (some q) t = true := by
  induction t with
  | nil => rfl
  | cons c t ih =>
    have hc : c ≠ q := fun heq => h (heq ▸ List.mem_cons_self)
    rw [quoteOpen, if_neg hc]
    exact ih fun hin => h (List.mem_cons_of_mem c hin)

/-- What holds no quotation marks is passed over. -/
theorem quoteOpen_drop {x : Text} (hx : x <+: t) (hno : ∀ d ∈ x, d ≠ '\'' ∧ d ≠ '"') :
    quoteOpen none t = quoteOpen none (t.drop x.length) := by
  obtain ⟨y, rfl⟩ := hx
  rw [List.drop_left]
  exact quoteOpen_append_of_noQuote hno y

/-- **A whole piece leaves no quotation open.** -/
theorem quoteOpen_of_piece (h : pieceAt? c rest pos = some (p, n)) :
    quoteOpen none (c :: rest) = quoteOpen none (rest.drop n) := by
  unfold pieceAt? at h
  split at h
  · next kind hpunct =>
    obtain ⟨-, rfl⟩ := Prod.mk.inj (Option.some.inj h)
    exact quoteOpen_cons (punctuation?_classes hpunct).2.2
  · split_ifs at h with hop hquote hnumber hword
    · -- an operator takes one more character at most
      obtain ⟨-, rfl⟩ := Prod.mk.inj (Option.some.inj h)
      have hc : c = '=' ∨ c = '!' ∨ c = '<' ∨ c = '>' := by simpa using hop
      rw [quoteOpen_cons (by rcases hc with rfl | rfl | rfl | rfl <;> decide)]
      apply quoteOpen_drop ((List.takeWhile_prefix _).trans (List.take_prefix 1 rest))
      intro d hd
      have hmore := List.all_eq_true.mp List.all_takeWhile d hd
      have hd : d = '=' ∨ d = '~' := by simpa using hmore
      rcases hd with rfl | rfl <;> decide
    · -- a string ends with its second mark
      dsimp only at h
      split_ifs at h with hclosed
      obtain ⟨-, rfl⟩ := Prod.mk.inj (Option.some.inj h)
      obtain ⟨body, y, rfl, hbody, hy, htake, -⟩ := exists_run (fun d => decide (d ≠ c)) rest
      rw [htake, List.length_append] at hclosed
      rw [htake]
      have hno : c ∉ body := fun hin => by simpa using List.all_eq_true.mp hbody c hin
      cases y with
      | nil => exact absurd hclosed (by simp)
      | cons e y =>
        obtain rfl : e = c := by simpa using hy e rfl
        rw [quoteOpen, if_pos hquote, quoteOpen_some_append hno, ← List.drop_drop, List.drop_left]
        rfl
    · obtain ⟨-, rfl⟩ := Prod.mk.inj (Option.some.inj h)
      rw [quoteOpen_cons (not_or.mp hquote)]
      apply quoteOpen_drop (List.takeWhile_prefix isNumberChar)
      intro d hd
      exact not_isQuote_of_isNumberChar (List.all_eq_true.mp List.all_takeWhile d hd)
    · obtain ⟨-, rfl⟩ := Prod.mk.inj (Option.some.inj h)
      rw [quoteOpen_cons (not_or.mp hquote)]
      apply quoteOpen_drop (List.takeWhile_prefix isWordChar)
      intro d hd
      exact not_isQuote_of_isWordChar (List.all_eq_true.mp List.all_takeWhile d hd)
    · obtain ⟨-, rfl⟩ := Prod.mk.inj (Option.some.inj h)
      exact quoteOpen_cons (not_or.mp hquote)

theorem quoteOpen_of_open (h : pieceAt? c rest pos = none) :
    quoteOpen none (c :: rest) = true := by
  unfold pieceAt? at h
  split at h
  · cases h
  · dsimp only at h
    split_ifs at h with hop hquote hclosed
    rw [quoteOpen, if_pos hquote]
    apply quoteOpen_some_of_notMem
    intro hin
    obtain ⟨body, y, rfl, hbody, -, htake, -⟩ := exists_run (fun d => decide (d ≠ c)) rest
    rw [htake, List.length_append] at hclosed
    obtain rfl : y = [] := List.eq_nil_of_length_eq_zero (by omega)
    rw [List.append_nil] at hin
    simpa using List.all_eq_true.mp hbody c hin

/-- **The scan breaks off exactly where a quotation is open.** -/
theorem breaksOff_iff (t : Text) : BreaksOff t ↔ quoteOpen none t = true := by
  constructor
  · intro h
    induction h with
    | here hc h => exact quoteOpen_of_open h
    | blank hc h ih => rw [quoteOpen_cons (not_isQuote_of_isBlank hc), ih]
    | piece hc h hrest ih => rw [quoteOpen_of_piece h, ih]
  · intro h
    -- a piece may be of any length, so the induction is on the length of the text
    induction hn : t.length using Nat.strong_induction_on generalizing t with
    | _ n ih =>
      subst hn
      cases t with
      | nil => cases h
      | cons c rest =>
        cases hblank : Text.isBlank c with
        | true =>
          rw [quoteOpen_cons (not_isQuote_of_isBlank hblank)] at h
          exact .blank hblank (ih _ (Nat.lt_succ_self _) rest h rfl)
        | false =>
          cases hpiece : pieceAt? c rest 0 with
          | none => exact .here hblank hpiece
          | some found =>
            obtain ⟨p, n⟩ := found
            rw [quoteOpen_of_piece hpiece] at h
            have hlt : (rest.drop n).length < (c :: rest).length := by
              rw [List.length_drop, List.length_cons]
              omega
            exact .piece hblank hpiece (ih _ hlt _ h rfl)

end quotes

/-! ## Section 2: Words -/

section words
variable {c : Char} {t rest : Text} {pos n : Nat} {p : Piece} {before : List Piece}

theorem isWordChar_of_piece (h : pieceAt? c rest pos = some (some p, n)) (hp : p.isIdent = true) :
    ∀ d ∈ p.text, isWordChar d = true := by
  unfold pieceAt? at h
  split at h
  · next kind hpunct =>
    obtain ⟨hpiece, -⟩ := Prod.mk.inj (Option.some.inj h)
    obtain rfl := Option.some.inj hpiece
    unfold punctuation? at hpunct
    split at hpunct <;> cases hpunct <;> cases hp
  · dsimp only at h
    -- operators, strings and numbers make no words; the two kinds of words are runs
    split_ifs at h with hop hquote hclosed hnumber hword hend
    all_goals
      obtain ⟨hpiece, -⟩ := Prod.mk.inj (Option.some.inj h)
    · obtain rfl := Option.some.inj hpiece
      cases hp
    · obtain rfl := Option.some.inj hpiece
      cases hp
    · obtain rfl := Option.some.inj hpiece
      cases hp
    · obtain rfl := Option.some.inj hpiece
      exact List.forall_mem_cons.mpr ⟨hword, List.all_eq_true.mp List.all_takeWhile⟩
    · obtain rfl := Option.some.inj hpiece
      exact List.forall_mem_cons.mpr ⟨hword, List.all_eq_true.mp List.all_takeWhile⟩
    · cases hpiece

/-- All words that the scan cuts consist of letters, numerals and underscores. -/
theorem isWordChar_of_mem_scanFrom
    (hbefore : ∀ p ∈ before, p.isIdent = true → ∀ d ∈ p.text, isWordChar d = true) :
    ∀ p ∈ scanFrom before pos t, p.isIdent = true → ∀ d ∈ p.text, isWordChar d = true := by
  fun_induction scanFrom before pos t with
  | case1 => exact hbefore
  | case2 before pos c rest hblank ih => exact ih hbefore
  | case3 => exact hbefore
  | case4 before pos c rest hblank piece n hpiece ih =>
    apply ih
    intro p hp hident
    rcases List.mem_append.mp hp with hp | hp
    · obtain rfl := Option.mem_toList.mp hp
      exact isWordChar_of_piece hpiece hident
    · exact hbefore p hp hident

end words

/-! ## Section 3: The span of a context -/

/-- The text from `start` on is the word that is completed, up to its end. -/
structure IsSpanOf (ctx : CompletionContext) (before : Text) : Prop where
  start_le : ctx.start ≤ before.length
  word     : before.drop ctx.start = ctx.partialWord
  chars    : ∀ d ∈ ctx.partialWord, Text.isAlphanumeric d = true ∨ d = '_'

section span
variable {before : Text} {ctx : CompletionContext}

theorem isSpanOf_gap (hword : ctx.partialWord = []) (hstart : ctx.start = before.length) :
    IsSpanOf ctx before := by
  refine ⟨hstart.le, ?_, ?_⟩
  · rw [hstart, hword, List.drop_length]
  · rw [hword]
    exact List.forall_mem_nil _

theorem isSpanOf_word {last : Piece} {prior : List Piece} (hscan : scan before = last :: prior)
    (hkind : last.kind = .partialIdent) : IsSpanOf (wordContext last prior) before := by
  obtain ⟨u, rfl, hstart, -, -⟩ := scanFrom_of_partial 0 before hscan hkind
  rw [Nat.zero_add] at hstart
  refine ⟨?_, ?_, ?_⟩
  · show last.start ≤ _
    rw [hstart, List.length_append]
    omega
  · show (u ++ last.text).drop last.start = last.text
    rw [hstart, List.drop_left]
  · intro d hd
    have hmem : last ∈ scanFrom [] 0 (u ++ last.text) := by
      rw [show scanFrom [] 0 (u ++ last.text) = last :: prior from hscan]
      exact List.mem_cons_self
    have hident : last.isIdent = true := by
      rw [Piece.isIdent, hkind]
      rfl
    have hchar := isWordChar_of_mem_scanFrom (List.forall_mem_nil _) last hmem hident d hd
    simpa [isWordChar] using hchar

theorem length_take_clampCursor (t : Text) (cursor : Option Int) :
    (t.take (clampCursor t cursor)).length = clampCursor t cursor := by
  cases cursor <;> simp [clampCursor]

/-- What is completed ends at the cursor. -/
theorem isSpanOf_context (t : Text) (cursor : Option Int) :
    IsSpanOf (context t cursor) (t.take (clampCursor t cursor)) := by
  have hlength := (length_take_clampCursor t cursor).symm
  unfold context
  dsimp only
  split_ifs with hquote
  · exact isSpanOf_gap rfl hlength
  · split
    · exact isSpanOf_gap rfl hlength
    · next last prior hscan =>
      split_ifs with hkind
      · exact isSpanOf_word hscan hkind
      · exact isSpanOf_gap rfl hlength

end span

/-! ## Section 4: What is put in -/

section cursor
variable {t t' : Text} {cursor cursor' : Option Int}

theorem clampCursor_none (t : Text) : clampCursor t none = t.length := rfl

theorem clampCursor_some (t : Text) (k : Int) :
    (clampCursor t (some k) : Int) = max 0 (min k t.length) := by
  show ((min k.toNat t.length : Nat) : Int) = _
  omega

/-- What is completed depends on the text in front of the cursor alone. -/
theorem context_congr (h : t'.take (clampCursor t' cursor') = t.take (clampCursor t cursor)) :
    context t' cursor' = context t cursor := by
  have hcursor : clampCursor t' cursor' = clampCursor t cursor := by
    rw [← length_take_clampCursor t' cursor', h, length_take_clampCursor]
  unfold context
  dsimp only
  rw [h, hcursor]

/-- In a quotation there is nothing to complete. -/
theorem quoteOpen_of_partialWord (h : (context t cursor).partialWord ≠ []) :
    quoteOpen none (t.take (clampCursor t cursor)) = false := by
  by_contra hopen
  rw [Bool.not_eq_false] at hopen
  apply h
  unfold context
  dsimp only
  rw [if_pos hopen]

end cursor

/-- **Completion takes the place of the word under the cursor**, wherever the cursor is.  The
    text from the start of the context up to the cursor is the word that is completed; a word
    that is not empty has letters, numerals and underscores only and stands in no quotation; what
    is offered begins as the word does and is put in from its start on.  What comes after the
    cursor does not count. -/
theorem context_span (t : Text) (cursor : Option Int) :
    (cursor = none → clampCursor t cursor = t.length) ∧
      (∀ k, cursor = some k → (clampCursor t cursor : Int) = max 0 (min k t.length)) ∧
      IsSpanOf (context t cursor) (t.take (clampCursor t cursor)) ∧
      ((context t cursor).partialWord ≠ [] →
        quoteOpen none (t.take (clampCursor t cursor)) = false ∧
          ¬BreaksOff (t.take (clampCursor t cursor))) ∧
      (∀ tags projects, ∀ s ∈ suggest t cursor tags projects,
        s.start = (context t cursor).start ∧
          Text.lower (context t cursor).partialWord <+: Text.lower s.label) ∧
      (∀ t' cursor', t'.take (clampCursor t' cursor') = t.take (clampCursor t cursor) →
        context t' cursor' = context t cursor) := by
  refine ⟨?_, ?_, isSpanOf_context t cursor, ?_, ?_, fun t' cursor' => context_congr⟩
  · rintro rfl
    exact clampCursor_none t
  · rintro k rfl
    exact clampCursor_some t k
  · intro hword
    have hclosed := quoteOpen_of_partialWord hword
    refine ⟨hclosed, fun hbreaks => ?_⟩
    have hopen := (breaksOff_iff _).mp hbreaks
    rw [hclosed] at hopen
    cases hopen
  · intro tags projects s hs
    obtain ⟨hstart, hbegins, -⟩ := mem_suggestFor hs
    exact ⟨hstart, hbegins⟩

/-- With the cursor in the middle of a text its front alone is looked at. -/
example : context "(sta = OPEN".toList (some 4) = ⟨.fieldName, "sta".toList, 1⟩ := by
  decide +kernel

end Agenda.Filter.Completion
