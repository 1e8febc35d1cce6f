import Mathlib.Tactic.MkIffOfInductiveProp
import Agenda.Proofs.Filter.Grammar
import Agenda.Proofs.Filter.Tiling

/-! # Rows of tokens

    A text is a row of whole tokens in front of another when it is cut there as if it ended
    where the other begins (`Row`).  It stays one when what follows it is exchanged for
    something that ends tokens as well (`Row.congr`), and every place that no token lies across
    cuts a text into two rows (`row_of_cut`).  So the middle of a text can be exchanged
    (`Parts.exchange`). -/

namespace Agenda.Filter

open Token

/-! ## Section 1: What ends every token -/

/-- No token goes on with this character. -/
def separates (c : Char) : Bool :=
  !isWordChar c && !isTimeChar c && !isNumberChar c && c != '-' && c != '=' && c != '~'

theorem EndsAs.of_separates {c : Char} (hc : separates c = true) (r r' : Text) :
    EndsAs r (c :: r') := by
  simp only [separates, Bool.and_eq_true, Bool.not_eq_true', bne_iff_ne, ne_eq] at hc
  obtain ⟨⟨⟨⟨⟨hword, htime⟩, hnumber⟩, hhyphen⟩, heq⟩, htilde⟩ := hc
  refine ⟨fun _ => .of_cons hword r', fun _ => .of_cons htime r', fun _ => .of_cons hnumber r',
    fun _ => continuesDay_of_ne hhyphen r', ?_⟩
  rintro d ⟨⟩ hd
  exact absurd hd (not_or.mpr ⟨heq, htilde⟩)

/-- The blanks of every script. -/
def blanks : Text :=
  Text.blankRanges.flatMap fun range =>
    (List.range' range.1 (range.2 + 1 - range.1)).map Char.ofNat

theorem mem_blanks {c : Char} (hc : Text.isBlank c = true) : c ∈ blanks := by
  simp only [Text.isBlank, Text.inRanges, List.any_eq_true, Bool.and_eq_true,
    decide_eq_true_eq] at hc
  obtain ⟨range, hrange, hlow, hhigh⟩ := hc
  refine List.mem_flatMap.mpr ⟨range, hrange, List.mem_map.mpr ⟨c.toNat, ?_, Char.ofNat_toNat c⟩⟩
  rw [List.mem_range'_1]
  omega

theorem blanks_separate : blanks.all separates = true := by decide +kernel

theorem separates_of_isBlank {c : Char} (hc : Text.isBlank c = true) : separates c = true :=
  List.all_eq_true.mp blanks_separate c (mem_blanks hc)

theorem separates_openParen : separates '(' = true := by decide +kernel

theorem separates_closeParen : separates ')' = true := by decide +kernel

/-! ## Section 2: Rows -/

/-- In front of `r` the text is a row of whole tokens with these lexemes, and of blanks. -/
inductive Row (r : Text) : Text → List Lexeme → Prop where
  | nil : Row r [] []
  | blank {c : Char} {a : Text} {ls : List Lexeme} (hc : Text.isBlank c = true)
      (h : Row r a ls) : Row r (c :: a) ls
  | token {c : Char} {x a : Text} {l : Lexeme} {ls : List Lexeme}
      (hblank : Text.isBlank c = false) (hshape : Shape c x l (a ++ r)) (h : Row r a ls) :
      Row r (c :: (x ++ a)) (l :: ls)

section rows
variable {r r' a : Text} {ls : List Lexeme}

theorem Row.of_blanks (h : a.all Text.isBlank = true) : Row r a [] := by
  induction a with
  | nil => exact .nil
  | cons c a ih =>
    rw [List.all_cons, Bool.and_eq_true] at h
    exact .blank h.1 (ih h.2)

theorem not_shape_hyphen {l : Lexeme} : ¬Shape '-' [] l r := by
  intro h
  generalize hx : ([] : Text) = x at h
  cases h with
  | punctuation r hc => simp [punctuation?] at hc
  | symbol hc ho hx => simp [beginsOperator] at hc
  | quoted r hc hx => simp [isQuote] at hc
  | time hc => simp [not_isDigit_hyphen] at hc
  | number hc hall hr hday hnum =>
    subst hx
    simp [isNumeral] at hnum
  | word hword =>
    subst hx
    simp [isWholeWord, beginsWord] at hword

/-- A hyphen is no token on its own. -/
theorem not_row_hyphen : ¬Row r ['-'] ls := by
  intro h
  generalize ha : ['-'] = a at h
  cases h with
  | nil => cases ha
  | blank hc h =>
    obtain ⟨rfl, -⟩ := List.cons.inj ha
    revert hc
    decide +kernel
  | token hblank hshape h =>
    obtain ⟨rfl, hnil⟩ := List.cons.inj ha
    obtain ⟨rfl, -⟩ := List.append_eq_nil_iff.mp hnil.symm
    exact not_shape_hyphen hshape

/-- A row stays one in front of another text that ends its last token. -/
theorem Row.congr (h : Row r a ls) (hends : EndsAs r r') : Row r' a ls := by
  induction h with
  | nil => exact .nil
  | blank hc h ih => exact .blank hc ih
  | @token c x a l ls hblank hshape h ih =>
    refine .token hblank (hshape.congr ?_) ih
    -- only the last token of the row has anything but the row behind it
    by_cases hne : a = []
    · rw [hne]
      exact hends
    · refine EndsAs.append_left hne ?_ r r'
      rintro rfl
      exact not_row_hyphen h

/-- Two rows make one. -/
theorem Row.append {a' : Text} {ls' : List Lexeme} (h : Row (a' ++ r) a ls) (h' : Row r a' ls') :
    Row r (a ++ a') (ls ++ ls') := by
  induction h with
  | nil => exact h'
  | blank hc h ih => exact .blank hc ih
  | @token c x a l ls hblank hshape h ih =>
    rw [← List.append_assoc] at hshape
    rw [List.cons_append, List.append_assoc]
    exact .token hblank hshape ih

theorem Row.punctuation {c : Char} {l : Lexeme} (hblank : Text.isBlank c = false)
    (hc : punctuation? c = some l) : Row r [c] [l] :=
  .token (x := []) hblank (.punctuation _ hc) .nil

/-- Parentheses around a row, whatever ended it. -/
theorem Row.enclosed (h : Row r a ls) :
    Row r ('(' :: a ++ [')']) (.openParen :: ls ++ [.closeParen]) := by
  have hopen : Row (a ++ [')'] ++ r) ['('] [.openParen] := .punctuation rfl rfl
  have hclose : Row r [')'] [.closeParen] := .punctuation rfl rfl
  have hbody := h.congr (EndsAs.of_separates separates_closeParen r r)
  exact hopen.append (hbody.append hclose)

/-- A row is cut into its lexemes. -/
theorem Row.cuts (h : Row r a ls) : Cuts (a ++ r) ls r := by
  induction h with
  | nil => exact Cuts.nil r
  | blank hc h ih => exact (Cuts.blank hc _).append ih
  | @token c x a l ls hblank hshape h ih =>
    have hfirst : Cuts (c :: (x ++ (a ++ r))) [l] (a ++ r) := fun pos =>
      ⟨[⟨l, c :: x, pos, pos + 1 + x.length⟩], pos + 1 + x.length, rfl,
        lexFrom_shape hblank hshape⟩
    have hall := hfirst.append ih
    rwa [List.cons_append, List.append_assoc]

/-- Nothing is cut from in front of the place where cutting begins. -/
theorem row_nil {pos : Nat} {ts ts' : List Token}
    (htokens : (lexFrom pos r).tokens = ts ++ ts') (hts : ∀ token ∈ ts, token.stop ≤ pos) :
    ts = [] := by
  rw [List.eq_nil_iff_forall_not_mem]
  intro token hmem
  have hspan := lexFrom_token_span pos r token (by rw [htokens]; exact List.mem_append_left _ hmem)
  have hstop := hts token hmem
  omega

end rows

/-- **A place that no token lies across cuts a text into rows.** -/
theorem row_of_cut (pos : Nat) (t : Text) : ∀ {a r : Text} {ts ts' : List Token}, t = a ++ r →
    (lexFrom pos t).tokens = ts ++ ts' → (lexFrom pos t).error = none →
    (∀ token ∈ ts, token.stop ≤ pos + a.length) →
    (∀ token ∈ ts', pos + a.length ≤ token.start) →
      Row r a (ts.map Token.lexeme) ∧ (lexFrom (pos + a.length) r).tokens = ts' ∧
        (lexFrom (pos + a.length) r).error = none := by
  induction pos, t using lexFrom_induction with
  | done pos =>
    intro a r ts ts' heq htokens herror hts hts'
    obtain ⟨rfl, rfl⟩ := List.append_eq_nil_iff.mp heq.symm
    obtain rfl := row_nil htokens hts
    exact ⟨.nil, htokens, herror⟩
  | blank pos c rest hblank ih =>
    intro a r ts ts' heq htokens herror hts hts'
    cases a with
    | nil =>
      subst heq
      obtain rfl := row_nil htokens hts
      exact ⟨.nil, htokens, herror⟩
    | cons d a =>
      obtain ⟨rfl, rfl⟩ := List.cons.inj heq
      rw [lexFrom_blank hblank] at htokens herror
      have hlength : pos + (c :: a).length = pos + 1 + a.length := by
        rw [List.length_cons]
        omega
      rw [hlength] at hts hts' ⊢
      obtain ⟨hrow, hrest⟩ := ih rfl htokens herror hts hts'
      exact ⟨.blank hblank hrow, hrest⟩
  | stuck pos c rest e hblank hscan =>
    intro a r ts ts' heq htokens herror hts hts'
    rw [lexFrom_error hblank hscan] at herror
    cases herror
  | token pos c x r₀ l hblank hshape ih =>
    intro a r ts ts' heq htokens herror hts hts'
    cases a with
    | nil =>
      rw [List.nil_append] at heq
      rw [heq] at htokens herror
      obtain rfl := row_nil htokens hts
      exact ⟨.nil, htokens, herror⟩
    | cons d a =>
      obtain ⟨rfl, hrest⟩ := List.cons.inj heq
      rw [lexFrom_shape hblank hshape] at htokens herror
      -- the first token begins before the cut, so it lies before it as a whole
      cases ts with
      | nil =>
        have hstart := hts' ⟨l, c :: x, pos, pos + 1 + x.length⟩
          (by rw [← List.nil_append ts', ← htokens]; exact List.mem_cons_self)
        rw [List.length_cons] at hstart
        dsimp only at hstart
        omega
      | cons first ts =>
        obtain ⟨rfl, htail⟩ := List.cons.inj htokens
        have hstop := hts _ List.mem_cons_self
        rw [List.length_cons] at hstop
        dsimp only at hstop
        have hle : x.length ≤ a.length := by omega
        -- so what is cut off behind it is cut again
        obtain ⟨a', rfl, rfl⟩ : ∃ a', a = x ++ a' ∧ r₀ = a' ++ r := by
          rcases List.append_eq_append_iff.mp hrest with h | ⟨x', rfl, rfl⟩
          · exact h
          · rw [List.length_append] at hle
            obtain rfl := List.eq_nil_of_length_eq_zero (by omega : x'.length = 0)
            exact ⟨[], by simp, by simp⟩
        have hlength : pos + (c :: (x ++ a')).length = pos + 1 + x.length + a'.length := by
          rw [List.length_cons, List.length_append]
          omega
        rw [hlength] at hts hts' ⊢
        obtain ⟨hrow, hback⟩ := ih rfl htail herror
          (fun token hmem => hts token (List.mem_cons_of_mem _ hmem)) hts'
        exact ⟨.token hblank hshape hrow, hback⟩

theorem row_of_all {pos : Nat} {t : Text} {ts : List Token} (htokens : (lexFrom pos t).tokens = ts)
    (herror : (lexFrom pos t).error = none) : Row [] t (ts.map Token.lexeme) := by
  refine (row_of_cut pos t (List.append_nil t).symm ?_ herror ?_ (List.forall_mem_nil _)).1
  · rw [htokens, List.append_nil]
  · intro token hmem
    rw [← htokens] at hmem
    exact (lexFrom_token_span pos t token hmem).2.2

/-! ## Section 3: The middle of a text -/

/-- The text is cut into tokens in `a`, tokens in `x` and tokens in `b`, and none lies across. -/
@[mk_iff]
structure Parts (a x b : Text) (ts ts' ts'' : List Token) : Prop where
  tokens : (lex (a ++ x ++ b)).tokens = ts ++ ts' ++ ts''
  left   : ∀ token ∈ ts, token.stop ≤ a.length
  middle : ∀ token ∈ ts', a.length ≤ token.start ∧ token.stop ≤ a.length + x.length
  right  : ∀ token ∈ ts'', a.length + x.length ≤ token.start

deriving instance DecidableEq for Lexeme, Token

instance (a x b : Text) (ts ts' ts'' : List Token) : Decidable (Parts a x b ts ts' ts'') :=
  decidable_of_iff' _ (parts_iff a x b ts ts' ts'')

section parts
variable {a x b x' : Text} {ts ts' ts'' : List Token} {ls : List Lexeme}

theorem Parts.rows (h : Parts a x b ts ts' ts'') (herror : (lex (a ++ x ++ b)).error = none) :
    Row (x ++ b) a (ts.map Token.lexeme) ∧ Row b x (ts'.map Token.lexeme) ∧
      Row [] b (ts''.map Token.lexeme) := by
  obtain ⟨htokens, hleft, hmiddle, hright⟩ := h
  have hlex : lex (a ++ x ++ b) = lexFrom 0 (a ++ (x ++ b)) := by rw [List.append_assoc]; rfl
  rw [hlex] at htokens herror
  rw [List.append_assoc] at htokens
  obtain ⟨ha, htokens, herror⟩ := row_of_cut 0 _ rfl htokens herror
    (by simpa using hleft) (by
      intro token hmem
      rcases List.mem_append.mp hmem with hmem | hmem
      · have := (hmiddle token hmem).1
        omega
      · have := hright token hmem
        omega)
  rw [Nat.zero_add] at htokens herror
  obtain ⟨hx, htokens, herror⟩ := row_of_cut a.length _ rfl htokens herror
    (fun token hmem => (hmiddle token hmem).2) hright
  exact ⟨ha, hx, row_of_all htokens herror⟩

/-- **The middle of a text is exchanged** for another row that ends the tokens before it. -/
theorem Parts.exchange (h : Parts a x b ts ts' ts'')
    (herror : (lex (a ++ x ++ b)).error = none) (hends : EndsAs (x ++ b) (x' ++ b))
    (hrow : Row b x' ls) :
    (lex (a ++ x' ++ b)).error = none ∧
      (lex (a ++ x' ++ b)).tokens.map Token.lexeme =
        ts.map Token.lexeme ++ ls ++ ts''.map Token.lexeme := by
  obtain ⟨ha, -, hb⟩ := h.rows herror
  have hfront := (ha.congr hends).cuts
  have hback := hb.cuts
  rw [List.append_nil] at hback
  have hall := hfront.append (hrow.cuts.append hback)
  rw [← List.append_assoc, ← List.append_assoc] at hall
  exact hall.lex_eq

end parts

/-! ## Section 4: Words in a text -/

section words
variable {r a b w w' : Text} {ls : List Lexeme} {c c' : Char}

theorem Row.word (hw : isWholeWord w = true) (hb : EndsRun isWordChar b) :
    Row b w [.word w] := by
  cases w with
  | nil => cases hw
  | cons c x =>
    have hblank : Text.isBlank c = false := by
      simp only [isWholeWord, beginsWord, Bool.and_eq_true, Bool.not_eq_true'] at hw
      exact hw.1.1.1.1.1.1
    have h : Row b (c :: (x ++ [])) [.word (c :: x)] := .token hblank (.word hw hb) .nil
    rwa [List.append_nil] at h

/-- A word consists of the characters that it takes. -/
theorem Shape.of_word {x v : Text} (h : Shape c x (.word v) r) :
    v = c :: x ∧ isWholeWord v = true ∧ EndsRun isWordChar r := by
  generalize hl : Lexeme.word v = l at h
  cases h with
  | punctuation r hc =>
    subst hl
    unfold punctuation? at hc
    split at hc <;> cases hc
  | word hx hr =>
    obtain rfl := Lexeme.word.inj hl
    exact ⟨rfl, hx, hr⟩
  | _ => cases hl

/-- Every word of a row stands in it. -/
theorem Row.length_word_le (h : Row r a ls) : ∀ v, Lexeme.word v ∈ ls → v.length ≤ a.length := by
  induction h with
  | nil => simp
  | blank hc h ih =>
    intro v hv
    exact Nat.le_succ_of_le (ih v hv)
  | token hblank hshape h ih =>
    intro v hv
    rw [List.length_cons, List.length_append]
    rcases List.mem_cons.mp hv with rfl | hv
    · obtain ⟨rfl, -⟩ := hshape.of_word
      rw [List.length_cons]
      omega
    · have hle := ih v hv
      omega

/-- A text that is one word is a whole one, and ends there. -/
theorem Row.of_word (h : Row r w [.word w]) :
    isWholeWord w = true ∧ EndsRun isWordChar r := by
  generalize hls : [Lexeme.word w] = ls at h
  generalize ha : w = a at h
  cases h with
  | nil => cases hls
  | blank hc h =>
    -- behind a blank there is no room for the word
    subst ha hls
    have hle := h.length_word_le _ List.mem_cons_self
    rw [List.length_cons] at hle
    omega
  | @token c x a l ls hblank hshape h =>
    obtain ⟨rfl, rfl⟩ := List.cons.inj hls
    obtain ⟨heq, hw, hr⟩ := hshape.of_word
    have hlength := congrArg List.length (ha.symm.trans heq)
    simp only [List.length_cons, List.length_append] at hlength
    obtain rfl := List.eq_nil_of_length_eq_zero (by omega : a.length = 0)
    rw [← ha]
    exact ⟨hw, hr⟩

/-! ### Where one word begins another can -/

theorem marks_beginsWord : ".-=~".toList.all (fun c => !beginsWord c) = true := by
  decide +kernel

theorem beginsWord_spec (hc : beginsWord c = true) :
    isWordChar c = true ∧ isNumberChar c = false ∧ c ≠ '-' ∧ c ≠ '=' ∧ c ≠ '~' := by
  have hne : ∀ d ∈ ".-=~".toList, c ≠ d := by
    rintro d hd rfl
    have hno := List.all_eq_true.mp marks_beginsWord c hd
    rw [hc] at hno
    cases hno
  have hpoint : c ≠ '.' := hne '.' (by simp)
  simp only [beginsWord, Bool.and_eq_true, Bool.not_eq_true', Bool.or_eq_false_iff] at hc
  obtain ⟨⟨-, hdigit, -⟩, hword⟩ := hc
  refine ⟨?_, ?_, hne '-' (by simp), hne '=' (by simp), hne '~' (by simp)⟩
  · rcases Bool.or_eq_true_iff.mp hword with halnum | hline
    · rw [isWordChar, halnum, Bool.true_or]
    · rw [beq_iff_eq.mp hline]
      decide +kernel
  · simp [isNumberChar, hdigit, hpoint]

theorem EndsAs.of_words (hc : beginsWord c = true) (hc' : beginsWord c' = true)
    (htime : isTimeChar c' = isTimeChar c) (r r' : Text) :
    EndsAs (c :: r) (c' :: r') := by
  obtain ⟨hword, -⟩ := beginsWord_spec hc
  -- a word ends no other word, and ends a number, a day or an operator whatever it is
  obtain ⟨-, hnumber, hhyphen, heq, htilde⟩ := beginsWord_spec hc'
  refine ⟨?_, ?_, fun _ => .of_cons hnumber r', fun _ => continuesDay_of_ne hhyphen r', ?_⟩
  · intro h
    have hc := h c rfl
    rw [hword] at hc
    cases hc
  · exact fun h => .of_cons (htime.trans (h c rfl)) r'
  · rintro d ⟨⟩ hd
    exact absurd hd (not_or.mpr ⟨heq, htilde⟩)

/-! ### The case of ASCII letters -/

theorem beginsWord_toLower : ∀ c : Char, beginsWord c.toLower = beginsWord c :=
  Text.congr_toLower (f := beginsWord) (by decide +kernel)

theorem isWordChar_toLower : ∀ c : Char, isWordChar c.toLower = isWordChar c :=
  Text.congr_toLower (f := isWordChar) (by decide +kernel)

theorem isTimeChar_toLower : ∀ c : Char, isTimeChar c.toLower = isTimeChar c :=
  Text.congr_toLower (f := isTimeChar) (by decide +kernel)

theorem isWholeWord_map_toLower (w : Text) :
    isWholeWord (w.map Char.toLower) = isWholeWord w := by
  cases w with
  | nil => rfl
  | cons c w =>
    have hall : (w.map Char.toLower).all isWordChar = w.all isWordChar := by
      rw [List.all_map]
      exact congrArg w.all (funext isWordChar_toLower)
    rw [List.map_cons, isWholeWord, isWholeWord, beginsWord_toLower, hall]

/-- A word in another case is a word, and begins as the other does. -/
theorem word_of_case (hw : isWholeWord w = true)
    (hcase : w'.map Char.toLower = w.map Char.toLower) :
    isWholeWord w' = true ∧ EndsAs (w ++ b) (w' ++ b) := by
  have hw' : isWholeWord w' = true := by
    rwa [← isWholeWord_map_toLower, hcase, isWholeWord_map_toLower]
  refine ⟨hw', ?_⟩
  match w, w', hw, hw' with
  | c :: x, c' :: x', hw, hw' =>
    simp only [isWholeWord, Bool.and_eq_true] at hw hw'
    have hhead : c'.toLower = c.toLower := (List.cons.inj hcase).1
    refine EndsAs.of_words hw.1 hw'.1 ?_ _ _
    rw [← isTimeChar_toLower c', hhead, isTimeChar_toLower]

/-! ### Names of fields -/

/-- A name of a field is a word in small letters that does not begin with a low line. -/
theorem names_checked (f : Field) : ∀ w ∈ f.name :: f.aliases, Text.isSmallAscii w = true ∧
    isWholeWord w = true ∧ (w.head?.all fun c => isTimeChar c && c != '_') = true := by
  cases f <;> decide +kernel

theorem find?_of_mem_names (f : Field) : ∀ w ∈ f.name :: f.aliases, Field.find? w = some f := by
  intro w hw
  unfold Field.find?
  rw [Text.lower_of_small (names_checked f w hw).1]
  revert w
  cases f <;> decide +kernel

theorem isTimeChar_of_find? {f : Field} {x : Text} (hc : beginsWord c = true)
    (hf : Field.find? (c :: x) = some f) : isTimeChar c = true := by
  have hclass : Text.isAlphanumeric c = true ∨ c = '_' := by
    simp only [beginsWord, Bool.and_eq_true, Bool.or_eq_true, beq_iff_eq] at hc
    exact hc.2
  rcases hclass with halnum | rfl
  · rw [isTimeChar, halnum, Bool.true_or]
  · -- the small letters of a name do not begin with a low line
    have hline : Text.Settled '_' := Text.settled_of_no_run (by decide +kernel)
    obtain ⟨-, -, hhead⟩ := names_checked f _ (lower_mem_of_find? hf)
    rw [Text.lower, Text.lowerFrom, Text.lowerInContext_of_settled hline] at hhead
    simp at hhead

/-- A name of a field is a word, and begins as every other name of a field does. -/
theorem word_of_name {f : Field} (hw : isWholeWord w = true) (hf : Field.find? w = some f)
    (hw' : w' ∈ f.name :: f.aliases) :
    isWholeWord w' = true ∧ EndsAs (w ++ b) (w' ++ b) := by
  obtain ⟨-, hword', hhead⟩ := names_checked f w' hw'
  refine ⟨hword', ?_⟩
  match w, w', hw, hword' with
  | c :: x, c' :: x', hw, hword' =>
    simp only [isWholeWord, Bool.and_eq_true] at hw hword'
    simp only [List.head?_cons, Option.all_some, Bool.and_eq_true] at hhead
    exact EndsAs.of_words hw.1 hword'.1 (hhead.1.trans (isTimeChar_of_find? hw.1 hf).symm) _ _

end words

end Agenda.Filter
