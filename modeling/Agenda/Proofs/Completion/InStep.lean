import Agenda.Proofs.Completion.Finished
import Agenda.Proofs.Filter.Viable

/-! # Pieces in step with tokens

    Completion cuts a text into pieces and the reader cuts it into tokens, and the two may cut
    differently: escapes in strings, words with points or hyphens.  Where both see the same
    spans (`InStep`), the pieces are what the tokens are (`forall₂_matches`), and they show
    where the reader is (`Keeps`), as every token that is taken keeps up
    (`keeps_of_takes`). -/

namespace Agenda.Filter.Completion

open Reader

/-! ## Section 1: The same spans -/

/-- Where a piece ends; the quotation marks of a string are not in its text. -/
def Piece.stop (p : Piece) : Nat :=
  p.start + p.text.length + if p.kind = .string then 2 else 0

/-- The place of a piece. -/
def Piece.span (p : Piece) : Nat × Nat := (p.start, p.stop)

/-- The place of a token. -/
def tokenSpan (token : Token) : Nat × Nat := (token.start, token.stop)

/-- The pieces of the text stand where its tokens do. -/
def InStep (t : Text) : Prop := (scan t).reverse.map Piece.span = (lex t).tokens.map tokenSpan

instance (t : Text) : Decidable (InStep t) := inferInstanceAs (Decidable (_ = _))

/-- The piece is what the token is. -/
def Matches (p : Piece) (token : Token) : Prop :=
  match token.lexeme with
  | .word w => p.isIdent = true ∧ p.text = w
  | .string _ => p.kind = .string ∨ p.kind = .number
  | .number _ => p.kind = .number
  | .op _ => p.kind = .op
  | .openParen => p.kind = .openParen
  | .closeParen => p.kind = .closeParen
  | .openBracket => p.kind = .openBracket
  | .closeBracket => p.kind = .closeBracket
  | .comma => p.kind = .comma
  | .finish => False

section spans
variable {c : Char} {x r t : Text} {l : Lexeme} {p : Piece} {n pos : Nat}

/-- What was cut before only stays in front. -/
theorem scanFrom_append (front before : List Piece) (pos : Nat) (t : Text) :
    scanFrom (front ++ before) pos t = scanFrom front pos t ++ before := by
  fun_induction scanFrom front pos t with
  | case1 front pos => rw [scanFrom_nil]
  | case2 front pos c rest hblank ih => rw [scanFrom_blank hblank, ih]
  | case3 front pos c rest hblank hpiece => rw [scanFrom_open (by simpa using hblank) hpiece]
  | case4 front pos c rest hblank piece n hpiece ih =>
    rw [scanFrom_piece (by simpa using hblank) hpiece, ← List.append_assoc, ih]

theorem scanFrom_eq_append (before : List Piece) (pos : Nat) (t : Text) :
    scanFrom before pos t = scanFrom [] pos t ++ before :=
  scanFrom_append [] before pos t

theorem reverse_scanFrom_piece (hc : Text.isBlank c = false)
    (h : pieceAt? c t pos = some (some p, n)) : (scanFrom [] pos (c :: t)).reverse =
      p :: (scanFrom [] (pos + 1 + n) (t.drop n)).reverse := by
  rw [scanFrom_piece hc h, scanFrom_eq_append, List.reverse_append]
  rfl

theorem punctuation?_eq_none (h : Token.punctuation? c = none) : punctuation? c = none := by
  unfold Token.punctuation? at h
  unfold punctuation?
  split at h <;> simp_all

theorem quote_iff : (c = '\'' ∨ c = '"') ↔ Token.isQuote c = true := by
  simp [Token.isQuote]

theorem pieceAt?_operator (hc : Token.beginsOperator c = true) (t : Text) (pos : Nat) :
    ∃ more, pieceAt? c t pos = some (some ⟨.op, c :: more, pos⟩, more.length) := by
  have hpunct := punctuation?_eq_none (punctuation?_of_beginsOperator hc)
  have hop : "=!<>".toList.contains c = true := hc
  refine ⟨(t.take 1).takeWhile "=~".toList.contains, ?_⟩
  simp only [pieceAt?, hpunct, hop, if_true]

theorem pieceAt?_quote (hc : Token.isQuote c = true) (t : Text) (pos : Nat) :
    pieceAt? c t pos = none ∨
    ∃ body, pieceAt? c t pos = some (some ⟨.string, body, pos⟩, body.length + 1) := by
  obtain ⟨hpunct, hop⟩ := classes_of_isQuote hc
  have hop' : "=!<>".toList.contains c = false := hop
  simp only [pieceAt?, punctuation?_eq_none hpunct, hop', Bool.false_eq_true, if_false,
    if_pos (quote_iff.mpr hc)]
  split_ifs
  · exact Or.inr ⟨_, rfl⟩
  · exact Or.inl rfl

theorem pieceAt?_number (hc : (Text.isDigit c || c == '-') = true) (t : Text) (pos : Nat) :
    ∃ more, pieceAt? c t pos = some (some ⟨.number, c :: more, pos⟩, more.length) := by
  obtain ⟨hpunct, hop, hquote⟩ := classes_of_beginsNumber hc
  have hop' : "=!<>".toList.contains c = false := hop
  have hquote' : ¬(c = '\'' ∨ c = '"') := by
    rw [quote_iff, hquote]
    exact Bool.false_ne_true
  refine ⟨t.takeWhile isNumberChar, ?_⟩
  simp only [pieceAt?, punctuation?_eq_none hpunct, hop', Bool.false_eq_true, if_false,
    if_neg hquote', hc, if_true]

theorem pieceAt?_word (hc : beginsWord c = true) (t : Text) (pos : Nat) :
    ∃ kind, (kind = .ident ∨ kind = .partialIdent) ∧
      pieceAt? c t pos = some (some ⟨kind, c :: t.takeWhile isWordChar, pos⟩,
        (t.takeWhile isWordChar).length) := by
  simp only [beginsWord, Bool.and_eq_true, Bool.not_eq_true', Option.isNone_iff_eq_none] at hc
  obtain ⟨⟨⟨⟨⟨-, hpunct⟩, hop⟩, hquote⟩, hnumber⟩, hword⟩ := hc
  have hop' : "=!<>".toList.contains c = false := hop
  have hquote' : ¬(c = '\'' ∨ c = '"') := by
    rw [quote_iff, hquote]
    exact Bool.false_ne_true
  have hword' : isWordChar c = true := hword
  refine ⟨if (t.takeWhile isWordChar).length = t.length then .partialIdent else .ident, ?_, ?_⟩
  · split_ifs <;> simp
  · simp only [pieceAt?, punctuation?_eq_none hpunct, hop', Bool.false_eq_true, if_false,
      if_neg hquote', hnumber, hword', if_true]

/-- Where a token begins, a piece begins as well, unless a quotation is not closed for the scan;
    and if it is as long, it is what the token is. -/
theorem pieceAt?_of_shape (h : Shape c x l r) (pos : Nat) : pieceAt? c (x ++ r) pos = none ∨
    ∃ p n, pieceAt? c (x ++ r) pos = some (some p, n) ∧ p.span = (pos, pos + 1 + n) ∧
      (n = x.length → ∀ t stop, Matches p ⟨l, t, pos, stop⟩) := by
  -- a piece whose text begins with `c`
  have hspan : ∀ {kind more}, kind ≠ .string →
      Piece.span ⟨kind, c :: more, pos⟩ = (pos, pos + 1 + more.length) := by
    intro kind more hkind
    simp only [Piece.span, Piece.stop, if_neg hkind, List.length_cons, Prod.mk.injEq, true_and]
    omega
  cases h with
  | punctuation r hc =>
    right
    obtain ⟨kind, hkind, hmatches⟩ : ∃ kind, punctuation? c = some kind ∧
        ∀ t stop, Matches ⟨kind, [c], pos⟩ ⟨l, t, pos, stop⟩ := by
      unfold Token.punctuation? at hc
      split at hc <;> simp only [Option.some.injEq, reduceCtorEq] at hc <;> obtain rfl := hc <;>
        exact ⟨_, rfl, fun _ _ => rfl⟩
    have hstring : kind ≠ .string := by
      rintro rfl
      unfold punctuation? at hkind
      split at hkind <;> cases hkind
    exact ⟨_, 0, by rw [List.nil_append, pieceAt?, hkind], hspan hstring, fun _ => hmatches⟩
  | symbol hc ho hx =>
    right
    obtain ⟨more, hpiece⟩ := pieceAt?_operator hc (x ++ r) pos
    exact ⟨_, _, hpiece, hspan (by decide), fun _ _ _ => rfl⟩
  | quoted r hc hx =>
    rcases pieceAt?_quote hc (x ++ r) pos with hnone | ⟨body, hpiece⟩
    · exact Or.inl hnone
    · right
      refine ⟨_, _, hpiece, ?_, fun _ _ _ => Or.inl rfl⟩
      simp only [Piece.span, Piece.stop, if_true, Prod.mk.injEq, true_and]
      omega
  | @time x y r hc hx hy hday hr =>
    right
    obtain ⟨more, hpiece⟩ := pieceAt?_number (by rw [hc, Bool.true_or]) (x ++ y ++ r) pos
    exact ⟨_, _, hpiece, hspan (by decide), fun _ _ _ => Or.inr rfl⟩
  | number hc hx hr hday hnum =>
    right
    obtain ⟨more, hpiece⟩ := pieceAt?_number hc (x ++ r) pos
    exact ⟨_, _, hpiece, hspan (by decide), fun _ _ _ => rfl⟩
  | word hx hr =>
    right
    rw [isWholeWord, Bool.and_eq_true] at hx
    obtain ⟨kind, hkind, hpiece⟩ := pieceAt?_word hx.1 (x ++ r) pos
    have hstring : kind ≠ .string := by rcases hkind with rfl | rfl <;> decide
    refine ⟨_, _, hpiece, hspan hstring, fun hlength t stop => ?_⟩
    -- runs that begin at one place and are as long are the same
    have htake : (x ++ r).takeWhile isWordChar = x := by
      have hprefix := List.takeWhile_prefix isWordChar (l := x ++ r)
      rw [List.prefix_iff_eq_take, hlength, List.take_left] at hprefix
      exact hprefix
    refine ⟨?_, congrArg (c :: ·) htake⟩
    rcases hkind with rfl | rfl <;> rfl

/-- **Pieces that stand where the tokens do are what the tokens are.** -/
theorem forall₂_matches (pos : Nat) (t : Text) :
    (scanFrom [] pos t).reverse.map Piece.span = (lexFrom pos t).tokens.map tokenSpan →
      List.Forall₂ Matches (scanFrom [] pos t).reverse (lexFrom pos t).tokens := by
  induction pos, t using lexFrom_induction with
  | done pos =>
    intro _
    rw [lexFrom_nil, scanFrom_nil]
    exact .nil
  | blank pos c rest hblank ih =>
    intro h
    rw [lexFrom_blank hblank, scanFrom_blank hblank] at h ⊢
    exact ih h
  | stuck pos c rest e hblank hscan =>
    intro h
    rw [lexFrom_error hblank hscan] at h ⊢
    rw [List.map_eq_nil_iff.mp h]
    exact .nil
  | token pos c x r l hblank hshape ih =>
    intro h
    rw [lexFrom_shape hblank hshape] at h ⊢
    -- without a piece here there would be fewer spans than tokens
    rcases pieceAt?_of_shape hshape pos with hnone | ⟨p, n, hpiece, hspan, hmatches⟩
    · rw [scanFrom_open hblank hnone] at h
      cases h
    · rw [reverse_scanFrom_piece hblank hpiece] at h ⊢
      rw [List.map_cons, List.map_cons, hspan] at h
      obtain ⟨hfirst, hrest⟩ := List.cons.inj h
      -- the spans are equal, so both go on behind the same character
      have hlength : n = x.length := by
        have hstop := (Prod.mk.inj hfirst).2
        dsimp only at hstop
        omega
      rw [hlength, List.drop_left] at hrest ⊢
      exact .cons (hmatches hlength _ _) (ih hrest)

theorem InStep.forall₂ (h : InStep t) : List.Forall₂ Matches (scan t).reverse (lex t).tokens :=
  forall₂_matches 0 t h

end spans

/-! ## Section 2: What pieces say -/

/-- The piece is this word, which is in capitals. -/
def Piece.Says (w : Text) (p : Piece) : Prop := p.isIdent = true ∧ Text.upper p.text = w

section words
variable {p : Piece} {w : Text} {ws : List Text} {f : Field} {token : Token}

theorem Piece.Says.isWord (h : p.Says w) (ws : List Text) : p.isWord ws = ws.contains w := by
  rw [Piece.isWord, h.1, h.2, Bool.true_and]

theorem isWord_singleton : p.isWord [w] = true ↔ p.Says w := by
  simp [Piece.isWord, Piece.Says]

theorem isWord_of_kind (h : p.kind ≠ .ident ∧ p.kind ≠ .partialIdent) (ws : List Text) :
    p.isWord ws = false := by
  simp [Piece.isWord, Piece.isIdent, h]

theorem field?_of_kind (h : p.kind ≠ .ident ∧ p.kind ≠ .partialIdent) : p.field? = none := by
  simp [Piece.field?, Piece.isIdent, h]

/-- A word is neither a bracket nor a parenthesis nor an operator. -/
theorem kind_of_isIdent (h : p.isIdent = true) : p.kind = .ident ∨ p.kind = .partialIdent := by
  simpa [Piece.isIdent] using h

theorem kind_ne_op (h : p.isIdent = true) : p.kind ≠ .op := by
  rcases kind_of_isIdent h with h | h <;> rw [h] <;> nofun

theorem plain_names (f : Field) : ∀ w ∈ f.name :: f.aliases, Text.hasPlainLetters w = true ∧
    Text.upper w ∉ reserved := by
  cases f <;> decide +kernel

theorem isIdent_of_field? (h : p.field? = some f) :
    p.isIdent = true ∧ Field.find? p.text = some f := by
  unfold Piece.field? at h
  split_ifs at h with hident
  exact ⟨hident, h⟩

/-- The name of a field is no word of the language, in any case. -/
theorem isWord_of_field? (h : p.field? = some f) (hws : ws ⊆ reserved) : p.isWord ws = false := by
  obtain ⟨hplain, hreserved⟩ := plain_names f _ (lower_mem_of_find? (isIdent_of_field? h).2)
  rw [← Text.upper_of_lower rfl hplain] at hreserved
  rw [Piece.isWord, Bool.and_eq_false_iff]
  right
  rw [Bool.eq_false_iff, ne_eq, List.contains_iff_mem]
  exact fun hmem => hreserved (hws hmem)

theorem Piece.Says.field? (h : p.Says w) (hw : w ∈ reserved) : p.field? = none := by
  cases hf : p.field? with
  | none => rfl
  | some f =>
    have hno := isWord_of_field? hf (List.Subset.refl reserved)
    rw [h.isWord, List.contains_iff_mem.mpr hw] at hno
    cases hno

theorem not_says_of_field? (h : p.field? = some f) (hw : w ∈ reserved) : ¬p.Says w := by
  intro hsaid
  rw [hsaid.field? hw] at h
  cases h

/-- A keyword of the reader is one for completion. -/
theorem says_of_keyword {v W : String} (k : Keyword v) (h : Matches p token)
    (hk : token.lexeme = k.lexeme) (hplain : Text.hasPlainLetters v.toList = true)
    (hupper : Text.upper v.toList = W.toList) : p.Says W.toList := by
  rw [Matches, hk] at h
  obtain ⟨hident, htext⟩ : p.isIdent = true ∧ p.text = k.word := h
  refine ⟨hident, ?_⟩
  rw [htext, Text.upper_of_lower k.spells hplain, hupper]

theorem field?_of_name {n : FieldName} (h : Matches p token) (hn : token.lexeme = n.lexeme) :
    p.field? = some n.field := by
  rw [Matches, hn] at h
  obtain ⟨hident, htext⟩ : p.isIdent = true ∧ p.text = n.word := h
  rw [Piece.field?, if_pos hident, htext, n.found]

end words

/-! ## Section 3: What the last pieces mean -/

/-- The pieces end in the name of the field, and no bracket is open in front of it. -/
def Named (f : Field) (ps : List Piece) : Prop :=
  ∃ p rest, ps = p :: rest ∧ p.field? = some f ∧ beforeOpenBracket? 0 rest = none

/-- The pieces end in the name of the field and the operator: its value is due. -/
inductive Due (f : Field) : Operator → List Piece → Prop where
  | symbol {op : Operator} {p : Piece} {ps : List Piece} (hop : op.isSymbol = true)
      (hp : p.kind = .op) (h : Named f ps) : Due f op (p :: ps)
  | is {p : Piece} {ps : List Piece} (hp : p.Says "IS".toList) (h : Named f ps) :
      Due f .is (p :: ps)
  | isIn {p : Piece} {ps : List Piece} (hp : p.Says "IN".toList) (h : Named f ps) :
      Due f .isIn (p :: ps)
  | isNot {p q : Piece} {ps : List Piece} (hp : p.Says "NOT".toList) (hq : q.Says "IS".toList)
      (h : Named f ps) : Due f .isNot (p :: q :: ps)
  | notIn {p q : Piece} {ps : List Piece} (hp : p.Says "IN".toList) (hq : q.Says "NOT".toList)
      (h : Named f ps) : Due f .notIn (p :: q :: ps)

/-- No list is open, and no value is due. -/
structure Idle (ps : List Piece) : Prop where
  brackets : beforeOpenBracket? 0 ps = none
  operator : fieldBeforeOperator? (meaningful ps) = none

/-- Some lists are open, and in front of the outermost the value of the field is due. -/
structure Inside (f : Field) (op : Operator) (inner : Nat) (ps : List Piece) : Prop where
  due : ∃ base, Due f op base ∧ beforeOpenBracket? inner ps = some base ∧
    ∀ n, beforeOpenBracket? (n + inner + 1) ps = beforeOpenBracket? n base

section meaning
variable {p q : Piece} {ps rest : List Piece} {f : Field} {op : Operator} {w : Text} {inner : Nat}

/-- A piece that is no bracket does not matter to brackets. -/
theorem beforeOpenBracket?_word (h : p.isIdent = true) (n : Nat) (rest : List Piece) :
    beforeOpenBracket? n (p :: rest) = beforeOpenBracket? n rest := by
  rcases kind_of_isIdent h with h | h <;>
    exact beforeOpenBracket?_cons (by rw [h]; nofun) (by rw [h]; nofun) n rest

theorem meaningful_word (h : p.isIdent = true) (rest : List Piece) :
    meaningful (p :: rest) = p :: meaningful rest := by
  rcases kind_of_isIdent h with h | h <;> simp [meaningful, Piece.isParen, h]

theorem Named.closed (h : Named f ps) : beforeOpenBracket? 0 ps = none := by
  obtain ⟨p, rest, rfl, hp, hrest⟩ := h
  rw [beforeOpenBracket?_word (isIdent_of_field? hp).1, hrest]

theorem Named.meaningful (h : Named f ps) : Named f (meaningful ps) := by
  obtain ⟨p, rest, rfl, hp, hrest⟩ := h
  refine ⟨p, Completion.meaningful rest, meaningful_word (isIdent_of_field? hp).1 rest, hp, ?_⟩
  rw [beforeOpenBracket?_meaningful, hrest]
  rfl

theorem Due.closed (h : Due f op ps) : beforeOpenBracket? 0 ps = none := by
  cases h with
  | symbol hop hp h =>
    rw [beforeOpenBracket?_cons (by rw [hp]; nofun) (by rw [hp]; nofun), h.closed]
  | is hp h | isIn hp h => rw [beforeOpenBracket?_word hp.1, h.closed]
  | isNot hp hq h | notIn hp hq h =>
    rw [beforeOpenBracket?_word hp.1, beforeOpenBracket?_word hq.1, h.closed]

/-- Parentheses do not matter. -/
theorem Due.meaningful (h : Due f op ps) : Due f op (meaningful ps) := by
  cases h with
  | @symbol op p ps hop hp h =>
    have hcons : Completion.meaningful (p :: ps) = p :: Completion.meaningful ps := by
      simp [Completion.meaningful, Piece.isParen, hp]
    rw [hcons]
    exact .symbol hop hp h.meaningful
  | is hp h =>
    rw [meaningful_word hp.1]
    exact .is hp h.meaningful
  | isIn hp h =>
    rw [meaningful_word hp.1]
    exact .isIn hp h.meaningful
  | isNot hp hq h =>
    rw [meaningful_word hp.1, meaningful_word hq.1]
    exact .isNot hp hq h.meaningful
  | notIn hp hq h =>
    rw [meaningful_word hp.1, meaningful_word hq.1]
    exact .notIn hp hq h.meaningful

/-! What `fieldBeforeOperator?` finds behind the last two pieces. -/

theorem fieldBeforeOperator?_single
    (hlast : p.kind = .op ∨ p.isWord ["IS".toList, "IN".toList] = true)
    (hno : ¬(p.Says "IN".toList ∧ q.Says "NOT".toList)) (rest : List Piece) :
    fieldBeforeOperator? (p :: q :: rest) = q.field? := by
  have hno' : (p.isWord ["IN".toList] && q.isWord ["NOT".toList]) = false := by
    rw [Bool.eq_false_iff, ne_eq, Bool.and_eq_true, isWord_singleton, isWord_singleton]
    exact hno
  unfold fieldBeforeOperator?
  dsimp only
  rw [if_pos hlast, hno']
  cases rest <;> rfl

theorem fieldBeforeOperator?_notIn (hp : p.Says "IN".toList) (hq : q.Says "NOT".toList)
    (third : Piece) (rest : List Piece) :
    fieldBeforeOperator? (p :: q :: third :: rest) = third.field? := by
  unfold fieldBeforeOperator?
  dsimp only
  rw [if_pos (Or.inr (by rw [hp.isWord]; rfl)), hp.isWord, hq.isWord]
  rfl

theorem fieldBeforeOperator?_isNot (hp : p.Says "NOT".toList) (hq : q.Says "IS".toList)
    (rest : List Piece) :
    fieldBeforeOperator? (p :: q :: rest) = rest.head?.bind Piece.field? := by
  have hlast : ¬(p.kind = .op ∨ p.isWord ["IS".toList, "IN".toList] = true) := by
    rw [hp.isWord]
    rintro (h | h)
    · exact kind_ne_op hp.1 h
    · cases h
  unfold fieldBeforeOperator?
  dsimp only
  rw [if_neg hlast, hp.isWord, hq.isWord]
  rfl

theorem fieldBeforeOperator?_none
    (hlast : ¬(p.kind = .op ∨ p.isWord ["IS".toList, "IN".toList] = true))
    (hno : ¬(p.Says "NOT".toList ∧ q.Says "IS".toList)) (rest : List Piece) :
    fieldBeforeOperator? (p :: q :: rest) = none := by
  have hno' : (p.isWord ["NOT".toList] && q.isWord ["IS".toList]) = false := by
    rw [Bool.eq_false_iff, ne_eq, Bool.and_eq_true, isWord_singleton, isWord_singleton]
    exact hno
  unfold fieldBeforeOperator?
  dsimp only
  rw [if_neg hlast, hno']
  rfl

/-- Where the value of a field is due, completion finds the field. -/
theorem Due.field (h : Due f op ps) : fieldBeforeOperator? ps = some f := by
  cases h with
  | symbol hop hp h =>
    obtain ⟨name, rest, rfl, hname, -⟩ := h
    rw [fieldBeforeOperator?_single (Or.inl hp) (fun h => kind_ne_op h.1.1 hp), hname]
  | is hp h | isIn hp h =>
    obtain ⟨name, rest, rfl, hname, -⟩ := h
    rw [fieldBeforeOperator?_single (Or.inr (by rw [hp.isWord]; rfl))
      (fun h => not_says_of_field? hname (by simp [reserved]) h.2), hname]
  | isNot hp hq h =>
    obtain ⟨name, rest, rfl, hname, -⟩ := h
    rw [fieldBeforeOperator?_isNot hp hq]
    exact hname
  | notIn hp hq h =>
    obtain ⟨name, rest, rfl, hname, -⟩ := h
    rw [fieldBeforeOperator?_notIn hp hq, hname]

/-- Where a list of the operator is open, completion finds the field. -/
theorem Due.arrayField? (h : Due f op rest) (hop : op = .isIn ∨ op = .notIn)
    (hps : beforeOpenBracket? 0 ps = some rest) : arrayField? ps = some f := by
  replace h := h.meaningful
  unfold Completion.arrayField?
  rw [hps, Option.bind_eq_bind, Option.bind_some]
  generalize Completion.meaningful rest = base at h
  -- only `IN` and `NOT IN` have a list
  cases h with
  | symbol hsymbol hp h => rcases hop with rfl | rfl <;> cases hsymbol
  | is hp h | isNot hp hq h => rcases hop with hop | hop <;> cases hop
  | isIn hp h =>
    obtain ⟨name, more, rfl, hname, -⟩ := h
    have hnot : ¬name.isWord ["NOT".toList] = true := by
      rw [isWord_singleton]
      exact not_says_of_field? hname (by simp [reserved])
    dsimp only
    rw [hp.isWord, if_pos (by decide)]
    cases more with
    | nil => exact hname
    | cons third more =>
      dsimp only
      rw [if_neg hnot, hname]
  | notIn hp hq h =>
    obtain ⟨name, more, rfl, hname, -⟩ := h
    dsimp only
    rw [hp.isWord, if_pos (by decide), hq.isWord, if_pos (by decide), hname]

/-- The last piece of an operator names no field, and neither does the one in front of it if
    the last is `NOT`. -/
theorem Due.last (h : Due f op ps) : ∃ p rest, ps = p :: rest ∧ p.field? = none ∧
    (p.Says "NOT".toList → ∀ q ∈ rest.head?, q.field? = none) ∧
    (p.Says "IS".toList → op = .is) := by
  have hone : ∀ {p : Piece} {w v : Text}, p.Says w → p.Says v → w = v := fun h h' =>
    h.2.symm.trans h'.2
  cases h with
  | @symbol op p ps hop hp h =>
    refine ⟨p, ps, rfl, field?_of_kind (by rw [hp]; exact ⟨nofun, nofun⟩), ?_, ?_⟩ <;>
      exact fun h => absurd hp (kind_ne_op h.1)
  | is hp h =>
    exact ⟨_, _, rfl, hp.field? (by simp [reserved]), fun h => absurd (hone hp h) (by decide),
      fun _ => rfl⟩
  | isIn hp h | notIn hp hq h =>
    exact ⟨_, _, rfl, hp.field? (by simp [reserved]), fun h => absurd (hone hp h) (by decide),
      fun h => absurd (hone hp h) (by decide)⟩
  | isNot hp hq h =>
    refine ⟨_, _, rfl, hp.field? (by simp [reserved]), fun _ => ?_,
      fun h => absurd (hone hp h) (by decide)⟩
    rintro q' ⟨⟩
    exact hq.field? (by simp [reserved])

theorem meaningful_cons (h : p.isParen = false) (rest : List Piece) :
    Completion.meaningful (p :: rest) = p :: Completion.meaningful rest := by
  simp [Completion.meaningful, h]

/-- What may be a value: a string, a number or any word. -/
def IsAtom (p : Piece) : Prop := p.kind = .string ∨ p.kind = .number ∨ p.isIdent = true

theorem IsAtom.kind (h : IsAtom p) : p.kind ≠ .op ∧ p.kind ≠ .openBracket ∧
    p.kind ≠ .closeBracket ∧ p.isParen = false := by
  rcases h with h | h | h
  · simp [Piece.isParen, h]
  · simp [Piece.isParen, h]
  · rcases kind_of_isIdent h with h | h <;> simp [Piece.isParen, h]

/-- Behind a value nothing is due, even if it is a word of the language itself. -/
theorem Due.idle (h : Due f op ps) (hp : IsAtom p) (his : op = .is → ¬p.Says "NOT".toList) :
    Idle (p :: ps) := by
  obtain ⟨hop, hopen, hclose, hparen⟩ := hp.kind
  refine ⟨by rw [beforeOpenBracket?_cons hopen hclose, h.closed], ?_⟩
  rw [meaningful_cons hparen]
  obtain ⟨q, rest, hq, hfield, hnot, hisOp⟩ := h.meaningful.last
  rw [hq]
  by_cases hlast : p.kind = .op ∨ p.isWord ["IS".toList, "IN".toList] = true
  · -- a word `IS` or `IN` follows the operator as a value
    by_cases hnotIn : p.Says "IN".toList ∧ q.Says "NOT".toList
    · cases rest with
      | nil =>
        unfold fieldBeforeOperator?
        dsimp only
        rw [if_pos hlast, hfield]
      | cons third rest =>
        rw [fieldBeforeOperator?_notIn hnotIn.1 hnotIn.2]
        exact hnot hnotIn.2 third rfl
    · rw [fieldBeforeOperator?_single hlast hnotIn, hfield]
  · exact fieldBeforeOperator?_none hlast (fun h => his (hisOp h.2) h.1) rest

/-- A word that is no word of an operator leaves nothing due. -/
theorem Idle.cons (h : Idle ps) (hp : p.isIdent = true) (hword : p.isWord operatorWords = false) :
    Idle (p :: ps) := by
  refine ⟨by rw [beforeOpenBracket?_word hp, h.brackets], ?_⟩
  rw [meaningful_word hp]
  exact fieldBeforeOperator?_eq_none (kind_ne_op hp) hword _

/-- Behind `NOT` nothing is due, even if the value in front of it is the word `IS`. -/
theorem Idle.not (h : Idle ps) (hp : p.Says "NOT".toList) : Idle (p :: ps) := by
  refine ⟨by rw [beforeOpenBracket?_word hp.1, h.brackets], ?_⟩
  have hbefore := h.operator
  have hlast : ¬(p.kind = .op ∨ p.isWord ["IS".toList, "IN".toList] = true) := by
    rw [hp.isWord]
    rintro (h | h)
    · exact kind_ne_op hp.1 h
    · cases h
  rw [meaningful_word hp.1]
  generalize Completion.meaningful ps = qs at hbefore
  match qs with
  | [] => rfl
  | [q] =>
    by_cases his : q.Says "IS".toList
    · rw [fieldBeforeOperator?_isNot hp his]
      rfl
    · exact fieldBeforeOperator?_none hlast (fun h => his h.2) []
  | q :: r :: qs =>
    by_cases his : q.Says "IS".toList
    · -- nothing was due behind `IS`, so no field stands in front of it
      have hword : q.isWord ["IS".toList, "IN".toList] = true := by rw [his.isWord]; rfl
      have hin : ¬(q.Says "IN".toList ∧ r.Says "NOT".toList) := fun h =>
        absurd (his.2.symm.trans h.1.2) (by decide)
      rw [fieldBeforeOperator?_single (Or.inr hword) hin] at hbefore
      rw [fieldBeforeOperator?_isNot hp his]
      exact hbefore
    · exact fieldBeforeOperator?_none hlast (fun h => his h.2) _

theorem Idle.paren (h : Idle ps) (hp : p.isParen = true) : Idle (p :: ps) := by
  have hkinds : p.kind ≠ .openBracket ∧ p.kind ≠ .closeBracket := by
    constructor <;>
    · intro hkind
      simp [Piece.isParen, hkind] at hp
  refine ⟨by rw [beforeOpenBracket?_cons hkinds.1 hkinds.2, h.brackets], ?_⟩
  rw [meaningful_paren hp, h.operator]

end meaning

/-! ## Section 4: Pieces keep up with the reader -/

/-- What the pieces show of the state that the reader is in. -/
def Keeps (s : State) (ps : List Piece) : Prop :=
  match s.mode with
  | .start | .operand | .connective => Idle ps
  | .operator f => Named f ps
  | .afterIs f _ _ => Due f .is ps
  | .afterNot f _ => ∃ p rest, ps = p :: rest ∧ p.Says "NOT".toList ∧ Named f rest
  | .value f op => Due f op ps
  | .list f op _ _ outer place => Inside f op outer.length ps ∧
      (place ≠ .separator → ∃ p rest, ps = p :: rest ∧ (p.kind = .openBracket ∨ p.kind = .comma))
  | _ => True

section keeping
variable {s s' : State} {p : Piece} {ps : List Piece} {token : Token} {f : Field} {op : Operator}
  {inner : Nat}

theorem Keeps.idle (h : Keeps s ps) (hmode : s.mode.takesOperand = true) : Idle ps := by
  unfold Keeps at h
  cases hs : s.mode <;> simp only [hs] at h <;> first | exact h | simp [hs, Mode.takesOperand] at hmode

theorem Keeps.due (h : Keeps s ps) (hmode : s.mode.Awaits f op) : Due f op ps := by
  unfold Keeps at h
  rcases hmode with hs | ⟨start, stop, hs, rfl, -⟩
  · rwa [hs] at h
  · rwa [hs] at h

theorem isAtom_of_atom {v : Literal} (h : Matches p token) (hv : Atom token.lexeme v) :
    IsAtom p := by
  unfold Matches at h
  generalize token.lexeme = l at h hv
  cases hv with
  | string t => exact h.imp_right Or.inl
  | number t => exact Or.inr (Or.inl h)
  | _ => exact Or.inr (Or.inr h.1)

/-- The null value is not `NOT`. -/
theorem not_says_of_null (h : Matches p token) (hv : Atom token.lexeme .null) :
    ¬p.Says "NOT".toList := by
  unfold Matches at h
  generalize token.lexeme = l at h hv
  cases hv with
  | @null w hw =>
    obtain ⟨-, rfl⟩ : p.isIdent = true ∧ p.text = w := h
    intro hsaid
    have hupper := Text.upper_of_lower hw (by decide)
    rw [hsaid.2] at hupper
    revert hupper
    decide +kernel

theorem Idle.word {w : Text} (h : Idle ps) (hp : p.Says w) (hw : w ∉ operatorWords) :
    Idle (p :: ps) := by
  refine h.cons hp.1 ?_
  rw [hp.isWord, Bool.eq_false_iff, ne_eq, List.contains_iff_mem]
  exact hw

/-! How brackets and what stands between them change what is open. -/

theorem beforeOpenBracket?_open (hp : p.kind = .openBracket) (ps : List Piece) :
    beforeOpenBracket? 0 (p :: ps) = some ps ∧
      ∀ n, beforeOpenBracket? (n + 1) (p :: ps) = beforeOpenBracket? n ps := by
  constructor
  · unfold beforeOpenBracket?
    simp [hp]
  · intro n
    conv_lhs => unfold beforeOpenBracket?
    simp [hp]

theorem beforeOpenBracket?_close (hp : p.kind = .closeBracket) (n : Nat) (ps : List Piece) :
    beforeOpenBracket? n (p :: ps) = beforeOpenBracket? (n + 1) ps := by
  conv_lhs => unfold beforeOpenBracket?
  simp [hp]

theorem Due.inside (h : Due f op ps) (hp : p.kind = .openBracket) : Inside f op 0 (p :: ps) := by
  obtain ⟨hzero, hsucc⟩ := beforeOpenBracket?_open hp ps
  exact ⟨ps, h, hzero, hsucc⟩

theorem Inside.cons (h : Inside f op inner ps) (hopen : p.kind ≠ .openBracket)
    (hclose : p.kind ≠ .closeBracket) : Inside f op inner (p :: ps) := by
  obtain ⟨base, hdue, hbase, hmore⟩ := h.due
  refine ⟨base, hdue, ?_, fun n => ?_⟩
  · rw [beforeOpenBracket?_cons hopen hclose, hbase]
  · rw [beforeOpenBracket?_cons hopen hclose, hmore]

theorem Inside.open (h : Inside f op inner ps) (hp : p.kind = .openBracket) :
    Inside f op (inner + 1) (p :: ps) := by
  obtain ⟨base, hdue, hbase, hmore⟩ := h.due
  have hsucc := (beforeOpenBracket?_open hp ps).2
  refine ⟨base, hdue, by rw [hsucc, hbase], fun n => ?_⟩
  rw [← hmore n, ← Nat.add_assoc, hsucc]

theorem Inside.close (h : Inside f op (inner + 1) ps) (hp : p.kind = .closeBracket) :
    Inside f op inner (p :: ps) := by
  obtain ⟨base, hdue, hbase, hmore⟩ := h.due
  refine ⟨base, hdue, by rw [beforeOpenBracket?_close hp, hbase], fun n => ?_⟩
  rw [beforeOpenBracket?_close hp, ← hmore n]
  rfl

/-- Behind the bracket of the outermost list nothing is open and nothing is due. -/
theorem Inside.idle (h : Inside f op 0 ps) (hp : p.kind = .closeBracket) : Idle (p :: ps) := by
  obtain ⟨base, hdue, -, hmore⟩ := h.due
  refine ⟨by rw [beforeOpenBracket?_close hp, hmore 0, hdue.closed], ?_⟩
  have hkind : p.kind ≠ .ident ∧ p.kind ≠ .partialIdent := by simp [hp]
  rw [meaningful_cons (by simp [Piece.isParen, hp])]
  exact fieldBeforeOperator?_eq_none (by simp [hp]) (isWord_of_kind hkind _) _

/-- **The pieces keep up** with every way in which the reader takes a token. -/
theorem keeps_of_takes (h : Keeps s ps) (hp : Matches p token) (hcut : Cut token.lexeme)
    (htakes : Takes s token.lexeme s') : Keeps s' (p :: ps) := by
  generalize hl : token.lexeme = l at htakes
  have hmatches := hp
  rw [Matches, hl] at hmatches
  rw [hl] at hcut
  have hkept := h
  unfold Keeps at hkept
  -- by what the reader takes: the state says what the pieces in front were
  cases htakes with
  | negation k hmode hlt =>
    exact (h.idle hmode).not (says_of_keyword k hp hl (by decide) (by decide +kernel))
  | group hmode hlt => exact (h.idle hmode).paren (by simp [Piece.isParen, hmatches])
  | field n hmode => exact ⟨p, ps, rfl, field?_of_name hp hl, (h.idle hmode).brackets⟩
  | conjunction k hmode =>
    rw [hmode] at hkept
    exact hkept.word (says_of_keyword (W := "AND") k hp hl (by decide) (by decide +kernel))
      (by decide)
  | alternative k hmode =>
    rw [hmode] at hkept
    exact hkept.word (says_of_keyword (W := "OR") k hp hl (by decide) (by decide +kernel))
      (by decide)
  | groupEnd hmode hframes =>
    rw [hmode] at hkept
    exact hkept.paren (by simp [Piece.isParen, hmatches])
  | symbol op hmode hf =>
    rw [hmode] at hkept
    exact .symbol hcut hmatches hkept
  | is k hmode start stop =>
    rw [hmode] at hkept
    exact .is (says_of_keyword k hp hl (by decide) (by decide +kernel)) hkept
  | isNot k hmode hf =>
    rw [hmode] at hkept
    cases hkept with
    | symbol hop => cases hop
    | is hq hname =>
      exact .isNot (says_of_keyword k hp hl (by decide) (by decide +kernel)) hq hname
  | isIn k hmode hf =>
    rw [hmode] at hkept
    exact .isIn (says_of_keyword k hp hl (by decide) (by decide +kernel)) hkept
  | not k hmode start =>
    rw [hmode] at hkept
    exact ⟨p, ps, rfl, says_of_keyword k hp hl (by decide) (by decide +kernel), hkept⟩
  | notIn k hmode hf =>
    rw [hmode] at hkept
    obtain ⟨q, rest, rfl, hq, hname⟩ := hkept
    exact .notIn (says_of_keyword k hp hl (by decide) (by decide +kernel)) hq hname
  | @value f op l v hmode hv hfits =>
    -- behind `IS` stands null, which is not the `NOT` of another operator
    refine (h.due hmode).idle (isAtom_of_atom hp (hl ▸ hv)) ?_
    rintro rfl
    rw [literal_eq_null hfits] at hv
    exact not_says_of_null hp (hl ▸ hv)
  | list hmode start =>
    exact ⟨(h.due hmode).inside hmatches, fun _ => ⟨p, ps, rfl, Or.inl hmatches⟩⟩
  | item hmode hplace hv =>
    rw [hmode] at hkept
    obtain ⟨-, hopen, hclose, -⟩ := (isAtom_of_atom hp (hl ▸ hv)).kind
    exact ⟨hkept.1.cons hopen hclose, fun h => absurd rfl h⟩
  | innerList hmode hplace =>
    rw [hmode] at hkept
    exact ⟨hkept.1.open hmatches, fun _ => ⟨p, ps, rfl, Or.inl hmatches⟩⟩
  | innerListEnd hmode =>
    rw [hmode] at hkept
    exact ⟨hkept.1.close hmatches, fun h => absurd rfl h⟩
  | listEnd hmode hfits =>
    rw [hmode] at hkept
    exact hkept.1.idle hmatches
  | comma hmode =>
    rw [hmode] at hkept
    refine ⟨hkept.1.cons ?_ ?_, fun _ => ⟨p, ps, rfl, Or.inr hmatches⟩⟩ <;>
    · rw [hmatches]
      nofun
  -- in an order nothing is asked of the pieces
  | _ => exact trivial

/-- **Behind a text whose pieces are in step, they show where the reader is.** -/
theorem keeps_of_reached {t : Text} (h : InStep t)
    (hfold : (lex t).tokens.foldlM step {} = .ok s) : Keeps s (scan t) := by
  have hall : ∀ ps, List.Forall₂ Matches ps (lex t).tokens.reverse → Keeps s ps := by
    refine reached_of_steps (motive := fun s front => ∀ ps, List.Forall₂ Matches ps front.reverse →
      Keeps s ps) ?_ ?_ (lexFrom_ne_finish 0 t) hfold
    · intro ps hps
      rw [List.reverse_nil, List.forall₂_nil_right_iff] at hps
      subst hps
      exact ⟨rfl, rfl⟩
    · intro s s' front token hmem ih htakes ps hps
      rw [List.reverse_append, List.reverse_singleton, List.singleton_append,
        List.forall₂_cons_right_iff] at hps
      obtain ⟨p, ps, hp, hps, rfl⟩ := hps
      exact keeps_of_takes (ih ps hps) hp (lexFrom_cut 0 t token hmem) htakes
  refine hall (scan t) ?_
  have hforall := List.rel_reverse h.forall₂
  rwa [List.reverse_reverse] at hforall

example : InStep "tags IN [home, ".toList ∧ ¬InStep "tags IN [home-office, ".toList := by
  decide +kernel

end keeping

end Agenda.Filter.Completion
