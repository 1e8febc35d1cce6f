import Agenda.Proofs.Filter.Depth
import Agenda.Proofs.Filter.Rows

/-! # Spelling does not change meaning

    A text can be spelled in other ways (`Respelling`): with other blanks between its tokens,
    with keywords and names of fields in other letters, with another name of the same field,
    without an `AND`, and with an operand in parentheses.  Each of them exchanges the middle of
    the text for another row of tokens.  The reader stands in one state before the middle, and
    from there accepts both rows for the same query: words in other letters are read alike
    (`step_word_congr`), and so are the names of one field (`step_name_congr`), neighbours
    (`Accepts.of_operand`) and operands in parentheses (`accepts_enclosed`).  So however often a
    text is respelled, it is read as the same query (`read_respelled`). -/

namespace Agenda.Filter

open Reader

/-! ## Section 1: Words that are read alike -/

/-- A word that the reader takes as a text, just as it is spelled: a value that is neither null
    nor a truth value. -/
inductive TakesText (w : Text) : Mode → Prop where
  | value {f : Field} {op : Operator}
      (h : Text.lower w ∉ ["null".toList, "true".toList, "false".toList]) :
      TakesText w (.value f op)
  | item {f : Field} {op : Operator} {start : Nat} {items : List Literal}
      {outer : List (List Literal)} {place : ListPlace} (hplace : place ≠ .separator)
      (h : Text.lower w ∉ ["null".toList, "true".toList, "false".toList]) :
      TakesText w (.list f op start items outer place)

section words
variable {s s' : State} {token : Token} {w w' : Text}

/-- What null and the truth values are does not depend on how they are spelled. -/
theorem single?_congr (hl : token.lexeme = .word w) (hlower : Text.lower w' = Text.lower w)
    (h : Text.lower w ∈ ["null".toList, "true".toList, "false".toList]) :
    ∃ v, single? token = some v ∧ single? { token with lexeme := .word w' } = some v := by
  simp only [List.mem_cons, List.not_mem_nil, or_false] at h
  rcases h with h | h | h
  · exact ⟨.null, single?_eq_some_iff.mpr (hl ▸ .null h),
      single?_eq_some_iff.mpr (.null (hlower.trans h))⟩
  · exact ⟨.truth true, single?_eq_some_iff.mpr (hl ▸ .isTrue h),
      single?_eq_some_iff.mpr (.isTrue (hlower.trans h))⟩
  · exact ⟨.truth false, single?_eq_some_iff.mpr (hl ▸ .isFalse h),
      single?_eq_some_iff.mpr (.isFalse (hlower.trans h))⟩

theorem readValue_congr {f : Field} {op : Operator} (hl : token.lexeme = .word w)
    (hlower : Text.lower w' = Text.lower w)
    (hmem : Text.lower w ∈ ["null".toList, "true".toList, "false".toList]) :
    readValue s f op { token with lexeme := .word w' } = readValue s f op token := by
  obtain ⟨v, hv, hv'⟩ := single?_congr hl hlower hmem
  simp only [readValue, hv, hv']

/-- Where the word names a field, another that names the same one does as well. -/
theorem readField_congr {α : Type} {next : Field → Except QueryError α} {r : α}
    (hl : token.lexeme = .word w) (hfield : Field.find? w' = Field.find? w)
    (h : (readField token >>= next) = .ok r) :
    (readField { token with lexeme := .word w' } >>= next) = .ok r := by
  obtain ⟨f, hread, hnext⟩ := bind_eq_ok_iff.mp h
  refine bind_eq_ok_iff.mpr ⟨f, ?_, hnext⟩
  simp only [readField, hl, hfield] at hread ⊢
  cases hf : Field.find? w with
  | none =>
    rw [hf] at hread
    cases hread
  | some f' =>
    rw [hf] at hread
    exact hread

theorem readOperand_congr (hl : token.lexeme = .word w) (hlower : Text.lower w' = Text.lower w)
    (h : readOperand s token = .ok s') :
    readOperand s { token with lexeme := .word w' } = .ok s' := by
  have hfield : Field.find? w' = Field.find? w := by simp only [Field.find?, hlower]
  simp only [readOperand, Token.isWord, isOpenParen, hl, hlower, Bool.false_eq_true,
    if_false] at h ⊢
  split_ifs at h ⊢
  · exact h
  · exact readField_congr hl hfield h

/-- A word that is not taken as a text is read by its small letters. -/
theorem step_word_congr (hl : token.lexeme = .word w) (hlower : Text.lower w' = Text.lower w)
    (hrole : ¬TakesText w s.mode) (h : step s token = .ok s') :
    step s { token with lexeme := .word w' } = .ok s' := by
  have hword : ∀ v, Token.isWord v { token with lexeme := .word w' } = token.isWord v := by
    intro v
    simp only [Token.isWord, hl, hlower]
  have hbegins : beginsOperand { token with lexeme := .word w' } = beginsOperand token := by
    simp only [beginsOperand, hl, hlower]
  have hfield : Field.find? w' = Field.find? w := by simp only [Field.find?, hlower]
  -- every mode asks the word one of these three questions, but for those that take a value
  cases hs : s.mode with
  | start =>
    simp only [step, hs, hword, hl] at h ⊢
    split_ifs at h ⊢
    · exact h
    · exact readOperand_congr hl hlower h
  | operand =>
    simp only [step, hs] at h ⊢
    exact readOperand_congr hl hlower h
  | operator f =>
    simp only [step, hs, readOperator, hword, hl] at h ⊢
    split_ifs at h ⊢
    · exact h
    · exact h
    · exact h
    · cases h
  | afterIs f start stop =>
    simp only [step, hs, hword] at h ⊢
    split_ifs at h ⊢
    · exact h
    · obtain ⟨s₁, hop, h⟩ := bind_eq_ok_iff.mp h
      refine bind_eq_ok_iff.mpr ⟨s₁, hop, ?_⟩
      -- only null can follow `IS`
      rcases readValue_cases h with ⟨v, ha, hfits, -⟩ | ⟨hbracket, -⟩
      · obtain rfl := literal_eq_null hfits
        rw [hl] at ha
        cases ha with
        | null hnull => exact (readValue_congr hl hlower (by simp [hnull])).trans h
      · rw [hl] at hbracket
        cases hbracket
  | afterNot f start =>
    simp only [step, hs, hword] at h ⊢
    split_ifs at h ⊢
    · exact h
    · cases h
  | value f op =>
    rw [hs] at hrole
    have hmem : Text.lower w ∈ ["null".toList, "true".toList, "false".toList] := by
      by_contra hmem
      exact hrole (.value hmem)
    simp only [step, hs] at h ⊢
    exact (readValue_congr hl hlower hmem).trans h
  | list f op start items outer place =>
    rw [hs] at hrole
    simp only [step, hs] at h ⊢
    by_cases hplace : place = .separator
    · -- where a comma or the end of the list is expected, no word is taken
      subst hplace
      simp only [readListToken, hl, fail] at h
      cases h
    · have hmem : Text.lower w ∈ ["null".toList, "true".toList, "false".toList] := by
        by_contra hmem
        exact hrole (.item hplace hmem)
      obtain ⟨v, hv, hv'⟩ := single?_congr hl hlower hmem
      cases place with
      | separator => exact absurd rfl hplace
      | first => simpa only [readListToken, hv, hv'] using h
      | item => simpa only [readListToken, hv, hv'] using h
  | connective =>
    simp only [step, hs, readConnective, hword, hbegins] at h ⊢
    split_ifs at h ⊢
    · exact h
    · exact readOperand_congr hl hlower h
    · exact h
    · simp only [readGroupEnd, readEnd, hword, hl] at h ⊢
      split at h
      · cases h
      · split_ifs at h ⊢
        · exact h
        · cases h
  | order =>
    simp only [step, hs, hword] at h ⊢
    split_ifs at h ⊢
    · exact h
    · cases h
  | orderField =>
    simp only [step, hs] at h ⊢
    exact readField_congr hl hfield h
  | orderDirection f =>
    simp only [step, hs, readDirection, readEnd, hword, hl] at h ⊢
    split_ifs at h ⊢
    · exact h
    · exact h
    · cases h
  | finish =>
    simp only [step, hs, readEnd, hl] at h
    cases h

/-- May the name of a field stand here? -/
def Reader.Mode.takesField : Mode → Bool
  | .orderField => true
  | m => m.takesOperand

/-- A word that names a field is read as every other name of that field. -/
theorem step_name_congr {f : Field} (hmode : s.mode.takesField = true)
    (hl : token.lexeme = .word w) (hw : Field.find? w = some f) (hw' : Field.find? w' = some f)
    (h : step s token = .ok s') : step s { token with lexeme := .word w' } = .ok s' := by
  have hfield : Field.find? w' = Field.find? w := hw'.trans hw.symm
  by_cases hoperand : s.mode.takesOperand = true
  · -- a name is no reserved word, so an operand begins with it and it is looked up
    have hread : ∀ (v : Text) (t : Token), Field.find? v = some f → t.lexeme = .word v →
        step s t = readField t >>= fun f => .ok { s with mode := .operator f } := by
      intro v t hv ht
      have hn : t.lexeme = (FieldName.mk v f hv).lexeme := ht
      rw [step_of_takesOperand hoperand (hn ▸ FieldName.beginsOperand_lexeme _)
        (hn ▸ FieldName.isWord_lexeme _ (by simp [reservedWords])), readOperand, Token.isWord_eq,
        hn, FieldName.isWord_lexeme _ (by simp [reservedWords]), if_neg Bool.false_ne_true,
        if_neg (by simp [isOpenParen, ht])]
      rfl
    rw [hread w token hw hl] at h
    rw [hread w' _ hw' rfl]
    exact readField_congr hl hfield h
  · -- the field to order by is the other place
    cases hs : s.mode <;> simp [hs, Mode.takesField, Mode.takesOperand] at hmode hoperand
    simp only [step, hs] at h ⊢
    exact readField_congr hl hfield h

end words

/-! ## Section 2: What is accepted -/

section accepting
variable {t : Text} {q : Query} {s s' : State} {token : Token} {ts ts' : List Token}

theorem accepts_append_iff (hfold : ts.foldlM step s = .ok s') :
    Accepts s (ts ++ ts') q ↔ Accepts s' ts' q := by
  constructor
  · rintro ⟨s₁, s₂, n, hall, hend⟩
    rw [List.foldlM_append, hfold] at hall
    exact ⟨s₁, s₂, n, hall, hend⟩
  · rintro ⟨s₁, s₂, n, hrest, hend⟩
    refine ⟨s₁, s₂, n, ?_, hend⟩
    rw [List.foldlM_append, hfold]
    exact hrest

theorem accepts_of_read (h : Query.read t = .ok q) : Accepts {} (lex t).tokens q := by
  obtain ⟨-, s, s', hfold, hstep, hq⟩ := run_eq_ok_iff.mp h
  exact ⟨s, s', t.length, hfold, hstep, hq⟩

/-- A text is read as any tokens with its lexemes are. -/
theorem read_of_accepts (h : Accepts {} ts q) (herror : (lex t).error = none)
    (hlex : (lex t).tokens.map Token.lexeme = ts.map Token.lexeme) : Query.read t = .ok q := by
  have hend : NoEnd ts := by
    intro token hmem
    have hmem' : token.lexeme ∈ (lex t).tokens.map Token.lexeme :=
      hlex ▸ List.mem_map_of_mem hmem
    obtain ⟨token', hmem', heq⟩ := List.mem_map.mp hmem'
    exact heq ▸ lexFrom_ne_finish 0 t token' hmem'
  obtain ⟨d, hd, rfl, hnesting⟩ := query_of_accepts hend h
  exact read_of_lexemes herror (hd.trans hlex.symm) hnesting

/-- Where the first token is read alike, all are. -/
theorem Accepts.of_step_eq (heq : step s token = step s' token)
    (h : Accepts s (token :: ts) q) : Accepts s' (token :: ts) q := by
  obtain ⟨s₁, hstep, hrest⟩ := h.cons
  exact Accepts.of_step (heq.symm.trans hstep) hrest

/-- Without its `AND` an operand is read as a neighbour. -/
theorem Accepts.of_operand (hs : s.mode = .connective)
    (h : Accepts { s with mode := .operand } ts q) : Accepts s ts q := by
  have htakes : s.mode.takesOperand = true := by rw [hs]; rfl
  cases ts with
  | nil =>
    obtain ⟨s₁, n, hstep, -⟩ := h.nil
    rcases readOperand_cases hstep with ⟨k, hk, -⟩ | ⟨hparen, -⟩ | ⟨n, hn, -⟩
    · cases hk
    · cases hparen
    · cases hn
  | cons token ts =>
    obtain ⟨s₁, hstep, -⟩ := h.cons
    have hbegins : token.lexeme.beginsOperand = true ∧
        token.lexeme.isWord "and".toList = false := by
      rcases readOperand_cases hstep with ⟨k, hk, -⟩ | ⟨hparen, -⟩ | ⟨n, hn, -⟩
      · exact beginsOperand_of_opens (hk ▸ k.opens_lexeme)
      · exact beginsOperand_of_opens (hparen ▸ rfl)
      · exact ⟨hn ▸ n.beginsOperand_lexeme, hn ▸ n.isWord_lexeme (by simp [reservedWords])⟩
    refine Accepts.of_step_eq ?_ h
    rw [step_of_takesOperand htakes hbegins.1 hbegins.2]
    rfl

end accepting

/-! ## Section 3: Operands and parentheses around them -/

/-- Where the reader comes to the state `s`, the tokens that the tree stands for are an operand,
    and `rest` follows: an operand of `NOT` or `AND`; or, where a conjunction begins, the
    operands of `AND` up to some place; or, where an expression begins, the operands of `OR` up
    to some place, the last of them whole. -/
inductive IsOperand (s : State) (rest : List Token) : DisjunctionTree → Prop where
  | unary (u : OperandTree) : IsOperand s rest (.last (.last u))
  | conjunction (c : ConjunctionTree) (hset : Settled s.frames)
      (hfirst : s.group.factors = none) : IsOperand s rest (.last c)
  | alternative (d : DisjunctionTree) (hset : Settled s.frames) (hfirst : s.group = {})
      (hrest : EndsConjunction (rest.map Token.lexeme)) : IsOperand s rest d

section operands
variable {s : State} {q : Query} {ls : List Lexeme} {ts rest : List Token}

theorem settled_cases {frames : List Frame} (h : Settled frames) :
    frames = [] ∨ ∃ outer around, frames = .group outer :: around := by
  cases frames with
  | nil => exact Or.inl rfl
  | cons frame frames =>
    cases frame with
    | negation => cases h
    | group outer => exact Or.inr ⟨outer, frames, rfl⟩

/-- What ends a conjunction is an `OR`, or ends the group. -/
theorem step_endsConjunction (hs : s.mode = .connective) {token : Token}
    (hends : EndsConjunction (token.lexeme :: ls)) :
    step s token =
      if token.isWord "or".toList then
        .ok { s with group := s.group.nextAlternative, mode := .operand }
      else readGroupEnd s token := by
  obtain ⟨hand, hbegins⟩ := hends token.lexeme rfl
  simp only [step, hs, readConnective, Token.isWord_eq, hand, Token.beginsOperand_eq, hbegins,
    Bool.false_eq_true, if_false]

/-- Behind an alternative only its whole counts. -/
theorem Accepts.of_result {g : Group} (hs : s.mode = .connective) (hset : Settled s.frames)
    (hresult : g.result = s.group.result) (hends : EndsConjunction (rest.map Token.lexeme))
    (hend : NoEnd rest) (h : Accepts s rest q) : Accepts { s with group := g } rest q := by
  rcases settled_cases hset with hframes | ⟨outer, around, hframes⟩
  · cases rest with
    | nil =>
      obtain ⟨s₁, n, hstep, rfl⟩ := h.nil
      rw [atRest_of_connective hs hframes _ rfl] at hstep
      obtain rfl := Except.ok.inj hstep
      have hrest : AtRest { s with group := g } := atRest_of_connective hs hframes
      exact ⟨_, _, n, rfl, hrest _ rfl, by simp only [State.query, hresult]⟩
    | cons token rest =>
      by_cases hor : token.isWord "or".toList = true
      · refine h.of_step_eq ?_
        rw [step_endsConjunction hs hends, step_endsConjunction (s := { s with group := g }) hs
          hends, if_pos hor, if_pos hor]
        simp only [Group.nextAlternative, hresult]
      · -- behind the whole expression only an order can follow
        obtain ⟨s₁, hstep, hrest⟩ := h.cons
        rw [step_endsConjunction hs hends, if_neg hor] at hstep
        simp only [readGroupEnd, hframes] at hstep
        split_ifs at hstep with horder
        · obtain ⟨k, hk⟩ := exists_keyword horder
          obtain rfl := Except.ok.inj hstep
          obtain ⟨o, -, hlex, rfl⟩ := order_of_accepts (k := k) rfl hend.of_cons.2 hrest
          obtain ⟨s₂, hreads, hatRest, hgroup, horderBy⟩ :=
            o.reads (s := { s with group := g }) (Or.inr ⟨hs, hframes⟩)
          have hts : (token :: rest).map Token.lexeme = o.lexemes := by
            rw [List.map_cons, hk, hlex]
          refine ⟨s₂, s₂, 0, hreads _ hts, hatRest _ rfl, ?_⟩
          simp only [State.query, hgroup, horderBy, hresult]
        · exact absurd (readEnd_cases hstep).1 hend.of_cons.1
  · cases rest with
    | nil =>
      obtain ⟨s₁, n, hstep, -⟩ := h.nil
      simp [step, hs, readConnective, Token.isWord, beginsOperand, Token.atEnd, readGroupEnd,
        hframes, fail] at hstep
    | cons token rest =>
      refine h.of_step_eq ?_
      rw [step_endsConjunction hs hends, step_endsConjunction (s := { s with group := g }) hs hends]
      simp only [readGroupEnd, hframes, Group.nextAlternative, hresult]

/-- Wherever an operand may begin it is accepted as one that is expected. -/
theorem accepts_iff_of_takesOperand (hmode : s.mode.takesOperand = true) {d : DisjunctionTree}
    (hts : ts.map Token.lexeme = d.lexemes) :
    Accepts s (ts ++ rest) q ↔ Accepts { s with mode := .operand } (ts ++ rest) q := by
  obtain ⟨l, ls, hl, hbegins, hand⟩ := d.exists_head
  rw [hl] at hts
  obtain ⟨token, ts', rfl, ht, -⟩ := List.map_eq_cons_iff.mp hts
  -- from its first token on it is read alike
  have hstep : step s token = step { s with mode := .operand } token := by
    rw [step_of_takesOperand hmode (ht ▸ hbegins) (ht ▸ hand)]
    rfl
  exact ⟨Accepts.of_step_eq hstep, Accepts.of_step_eq hstep.symm⟩

/-- An operand in parentheses is read as the operand. -/
theorem accepts_enclosed {d : DisjunctionTree} {us : List Token}
    (hmode : s.mode.takesOperand = true) (hoperand : IsOperand s rest d)
    (hdepth : s.frames.length + d.nesting + 1 ≤ maxNesting) (hts : ts.map Token.lexeme = d.lexemes)
    (hus : us.map Token.lexeme = (OperandTree.group d).lexemes) (hend : NoEnd rest)
    (h : Accepts s (ts ++ rest) q) : Accepts s (us ++ rest) q := by
  rw [accepts_iff_of_takesOperand hmode hts] at h
  rw [accepts_iff_of_takesOperand (d := .last (.last (.group d))) hmode hus]
  -- in parentheses the operand is handed on as a whole
  have hreads := OperandTree.reads (.group d) (s := { s with mode := .operand }) rfl
    (by rw [OperandTree.nesting]; dsimp only; omega)
  rw [accepts_append_iff (hreads us hus), withOperand_mode]
  cases hoperand with
  | unary u =>
    -- both are handed to what is around them in the same way
    have hunary := u.reads (s := { s with mode := .operand }) rfl
      (by simp only [DisjunctionTree.nesting, ConjunctionTree.nesting] at hdepth; dsimp only; omega)
    rwa [accepts_append_iff (hunary ts hts)] at h
  | conjunction c hset hfirst =>
    -- the first operands of `AND` are joined from the left, as a group of them is
    have hconjunction := c.reads (s := { s with mode := .operand }) rfl
      (by simp only [DisjunctionTree.nesting] at hdepth; dsimp only; omega) hset
    rw [accepts_append_iff (hconjunction ts hts)] at h
    rw [withOperand_of_settled hset, addFactor_eq]
    dsimp only at h ⊢
    rw [hfirst] at h ⊢
    exact h
  | alternative d hset hfirst hrest =>
    -- the operands of `OR` are still apart, but what follows only asks for their whole
    obtain ⟨g, hg, halternative⟩ := d.reads (s := { s with mode := .operand }) rfl
      (by dsimp only; omega) hset (by dsimp only; rw [hfirst])
    rw [accepts_append_iff (halternative ts hts)] at h
    rw [withOperand_of_settled hset]
    refine Accepts.of_result (s := { s with group := g, mode := .connective }) rfl hset ?_ hrest
      hend h
    dsimp only at hg ⊢
    rw [hg, hfirst]
    rfl

end operands

/-! ## Section 4: Texts that are spelled alike -/

/-- One change of how a text is spelled.  The text is `a ++ x ++ b`, and `s` is the state in
    which the reader comes from `a` to the tokens of `x`. -/
inductive Respelling : Text → Text → Prop where
  /-- Where no token stands, any blanks can stand. -/
  | blanks {a gap gap' b : Text} {ts rest : List Token} (hparts : Parts a gap b ts [] rest)
      (hne : gap' ≠ []) (hgap : gap'.all Text.isBlank = true) :
      Respelling (a ++ gap ++ b) (a ++ gap' ++ b)
  /-- The letters of a word, unless it is a text, can be capitals or small. -/
  | letters {a w w' b : Text} {ts rest : List Token} {token : Token} {s : State}
      (hparts : Parts a w b ts [token] rest) (hfold : ts.foldlM step {} = .ok s)
      (hword : token.lexeme = .word w) (hrole : ¬TakesText w s.mode)
      (hcase : w'.map Char.toLower = w.map Char.toLower) :
      Respelling (a ++ w ++ b) (a ++ w' ++ b)
  /-- Where a field is named, any name of that field can stand. -/
  | name {a w w' b : Text} {ts rest : List Token} {token : Token} {s : State} {f : Field}
      (hparts : Parts a w b ts [token] rest) (hfold : ts.foldlM step {} = .ok s)
      (hword : token.lexeme = .word w) (hmode : s.mode.takesField = true)
      (hw : Field.find? w = some f) (hw' : w' ∈ f.name :: f.aliases) :
      Respelling (a ++ w ++ b) (a ++ w' ++ b)
  /-- Instead of an `AND` between operands blanks can stand. -/
  | neighbours {a x gap b : Text} {ts rest : List Token} {token : Token} {s : State}
      (hparts : Parts a x b ts [token] rest) (hfold : ts.foldlM step {} = .ok s)
      (hmode : s.mode = .connective) (hand : token.isWord "and".toList = true)
      (hne : gap ≠ []) (hgap : gap.all Text.isBlank = true) :
      Respelling (a ++ x ++ b) (a ++ gap ++ b)
  /-- An operand can stand in parentheses, unless too many are open then. -/
  | parentheses {a x b : Text} {ts ts' rest : List Token} {s : State} {d : DisjunctionTree}
      (hparts : Parts a x b ts ts' rest) (hfold : ts.foldlM step {} = .ok s)
      (hmode : s.mode.takesOperand = true) (hts : ts'.map Token.lexeme = d.lexemes)
      (hoperand : IsOperand s rest d)
      (hdepth : s.frames.length + d.nesting + 1 ≤ maxNesting) :
      Respelling (a ++ x ++ b) (a ++ ('(' :: x ++ [')']) ++ b)

section respelled
variable {a x x' b w w' : Text} {ts ts' us rest : List Token} {token : Token} {s s' : State}
  {q : Query}

/-- What the reader comes to in one state is exchanged for what it accepts from there as well. -/
theorem Accepts.exchange (hfold : ts.foldlM step {} = .ok s)
    (h : Accepts s (ts' ++ rest) q → Accepts s (us ++ rest) q)
    (haccepts : Accepts {} (ts ++ ts' ++ rest) q) : Accepts {} (ts ++ us ++ rest) q := by
  rw [List.append_assoc, accepts_append_iff hfold] at haccepts ⊢
  exact h haccepts

/-- **The middle of an accepted text is exchanged** for a row that the reader accepts instead. -/
theorem read_exchanged (us : List Token) (hparts : Parts a x b ts ts' rest)
    (hread : Query.read (a ++ x ++ b) = .ok q) (hends : EndsAs (x ++ b) (x' ++ b))
    (hrow : Row b x' (us.map Token.lexeme))
    (h : Accepts {} (ts ++ ts' ++ rest) q → Accepts {} (ts ++ us ++ rest) q) :
    Query.read (a ++ x' ++ b) = .ok q := by
  have haccepts := accepts_of_read hread
  rw [hparts.tokens] at haccepts
  obtain ⟨herror, hlexemes⟩ := hparts.exchange (run_eq_ok_iff.mp hread).1 hends hrow
  refine read_of_accepts (h haccepts) herror ?_
  rw [hlexemes, List.map_append, List.map_append]

theorem endsAs_of_blanks (hne : x' ≠ []) (hx' : x'.all Text.isBlank = true) (r : Text) :
    EndsAs r (x' ++ b) := by
  cases x' with
  | nil => exact absurd rfl hne
  | cons c x' =>
    rw [List.all_cons, Bool.and_eq_true] at hx'
    exact EndsAs.of_separates (separates_of_isBlank hx'.1) r _

/-- One word is exchanged for another that is read alike. -/
theorem read_exchanged_word (hparts : Parts a w b ts [token] rest)
    (hfold : ts.foldlM step {} = .ok s) (hword : token.lexeme = .word w)
    (hw' : isWholeWord w = true → isWholeWord w' = true ∧ EndsAs (w ++ b) (w' ++ b))
    (hstep : ∀ {s'}, step s token = .ok s' → step s { token with lexeme := .word w' } = .ok s')
    (hread : Query.read (a ++ w ++ b) = .ok q) : Query.read (a ++ w' ++ b) = .ok q := by
  obtain ⟨-, hrow, -⟩ := hparts.rows (run_eq_ok_iff.mp hread).1
  rw [List.map_singleton, hword] at hrow
  obtain ⟨hw, hb⟩ := hrow.of_word
  obtain ⟨hwhole, hends⟩ := hw' hw
  refine read_exchanged [{ token with lexeme := .word w' }] hparts hread hends
    (Row.word hwhole hb) (Accepts.exchange hfold ?_)
  intro h
  obtain ⟨s₁, hs₁, hrest⟩ := h.cons
  exact Accepts.of_step (hstep hs₁) hrest

/-- Where an `AND` is read, what follows is accepted without it. -/
theorem Accepts.of_and (hmode : s.mode = .connective)
    (hand : token.isWord "and".toList = true) (h : Accepts s (token :: rest) q) :
    Accepts s rest q := by
  obtain ⟨s₁, hstep, hrest⟩ := h.cons
  simp only [step, hmode, readConnective, hand, if_true, Except.ok.injEq] at hstep
  subst hstep
  exact Accepts.of_operand hmode hrest

/-- What is cut from a text ends nowhere. -/
theorem Parts.noEnd (hparts : Parts a x b ts ts' rest) : NoEnd rest := by
  intro t hmem
  refine lexFrom_ne_finish 0 (a ++ x ++ b) t ?_
  change t ∈ (lex (a ++ x ++ b)).tokens
  rw [hparts.tokens]
  exact List.mem_append_right _ hmem

end respelled

/-- One change of spelling leaves the query as it is. -/
theorem read_of_respelling {t t' : Text} {q : Query} (h : Respelling t t')
    (hread : Query.read t = .ok q) : Query.read t' = .ok q := by
  cases h with
  | blanks hparts hne hgap =>
    exact read_exchanged [] hparts hread (endsAs_of_blanks hne hgap _) (Row.of_blanks hgap) id
  | letters hparts hfold hword hrole hcase =>
    exact read_exchanged_word hparts hfold hword (fun hw => word_of_case hw hcase)
      (step_word_congr hword (Text.lower_eq_of_map_toLower hcase) hrole) hread
  | @name _ _ w' _ _ _ _ _ f hparts hfold hword hmode hw hw' =>
    exact read_exchanged_word hparts hfold hword (fun hwhole => word_of_name hwhole hw hw')
      (step_name_congr hmode hword hw (find?_of_mem_names f w' hw')) hread
  | neighbours hparts hfold hmode hand hne hgap =>
    exact read_exchanged [] hparts hread (endsAs_of_blanks hne hgap _)
      (Row.of_blanks hgap) (Accepts.exchange hfold (Accepts.of_and hmode hand))
  | @parentheses a x b ts ts' rest s d hparts hfold hmode hts hoperand hdepth =>
    obtain ⟨-, hrow, -⟩ := hparts.rows (run_eq_ok_iff.mp hread).1
    -- only the lexemes of the parentheses count, so any spans will do
    let us : List Token := ⟨.openParen, [], 0, 0⟩ :: ts' ++ [⟨.closeParen, [], 0, 0⟩]
    have hus : us.map Token.lexeme = .openParen :: ts'.map Token.lexeme ++ [.closeParen] := by
      simp [us]
    refine read_exchanged us hparts hread (EndsAs.of_separates separates_openParen _ _)
      (hus ▸ hrow.enclosed) (Accepts.exchange hfold ?_)
    refine accepts_enclosed hmode hoperand hdepth hts ?_ hparts.noEnd
    rw [hus, hts]
    rfl

/-- **Spelling does not change meaning**: however often an accepted text is respelled, it is read
    as the same query. -/
theorem read_respelled {t t' : Text} {q : Query} (hread : Query.read t = .ok q)
    (h : Relation.ReflTransGen Respelling t t') : Query.read t' = .ok q := by
  induction h with
  | refl => exact hread
  | tail _ hchange ih => exact read_of_respelling hchange ih

/-- The operand `body = y`. -/
def bodyIsY : OperandTree :=
  .condition ⟨Field.body.canonicalName, .symbol .eq,
    .atom (.word "y".toList) (.text "y".toList) (.word (by decide +kernel)), rfl, rfl⟩

/-- A text is respelled in every way, one after another. -/
theorem read_respelled_tag :
    ∃ q, Query.read "tag = x and body = y".toList = .ok q ∧
      Query.read "tags =\tx (BODY = y)".toList = .ok q := by
  -- one respelling of each kind, so that every constructor is met once
  have hname : Respelling "tag = x and body = y".toList "tags = x and body = y".toList := by
    have hparts : Parts [] "tag".toList " = x and body = y".toList []
        [⟨.word "tag".toList, "tag".toList, 0, 3⟩]
        ((lex "tag = x and body = y".toList).tokens.drop 1) := by
      decide +kernel
    have htags : "tags".toList ∈ Field.tags.name :: Field.tags.aliases := List.mem_cons_self
    exact .name hparts rfl rfl rfl (by decide +kernel) htags
  have hand : Respelling "tags = x and body = y".toList "tags = x body = y".toList := by
    have hparts : Parts "tags = x".toList " and ".toList "body = y".toList
        [⟨.word "tags".toList, "tags".toList, 0, 4⟩, ⟨.op .eq, "=".toList, 5, 6⟩,
          ⟨.word "x".toList, "x".toList, 7, 8⟩]
        [⟨.word "and".toList, "and".toList, 9, 12⟩]
        ((lex "tags = x and body = y".toList).tokens.drop 4) := by
      decide +kernel
    exact .neighbours hparts rfl rfl (by decide +kernel) (List.cons_ne_nil ' ' []) rfl
  have hparentheses : Respelling "tags = x body = y".toList "tags = x (body = y)".toList := by
    have hparts : Parts "tags = x ".toList "body = y".toList []
        [⟨.word "tags".toList, "tags".toList, 0, 4⟩, ⟨.op .eq, "=".toList, 5, 6⟩,
          ⟨.word "x".toList, "x".toList, 7, 8⟩]
        ((lex "tags = x body = y".toList).tokens.drop 3) [] := by
      decide +kernel
    have hlexemes : ((lex "tags = x body = y".toList).tokens.drop 3).map Token.lexeme =
        (DisjunctionTree.last (.last bodyIsY)).lexemes := by
      decide +kernel
    exact .parentheses hparts rfl rfl hlexemes (.unary bodyIsY) (by decide +kernel)
  have hletters : Respelling "tags = x (body = y)".toList "tags = x (BODY = y)".toList := by
    have hparts : Parts "tags = x (".toList "body".toList " = y)".toList
        [⟨.word "tags".toList, "tags".toList, 0, 4⟩, ⟨.op .eq, "=".toList, 5, 6⟩,
          ⟨.word "x".toList, "x".toList, 7, 8⟩, ⟨.openParen, "(".toList, 9, 10⟩]
        [⟨.word "body".toList, "body".toList, 10, 14⟩]
        ((lex "tags = x (body = y)".toList).tokens.drop 5) := by
      decide +kernel
    have hcase : "BODY".toList.map Char.toLower = "body".toList.map Char.toLower := by
      decide +kernel
    exact .letters hparts rfl rfl nofun hcase
  have hblanks : Respelling "tags = x (BODY = y)".toList "tags =\tx (BODY = y)".toList := by
    have hparts : Parts "tags =".toList " ".toList "x (BODY = y)".toList
        ((lex "tags = x (BODY = y)".toList).tokens.take 2) []
        ((lex "tags = x (BODY = y)".toList).tokens.drop 2) := by
      decide +kernel
    exact .blanks hparts (List.cons_ne_nil '\t' []) rfl
  have hread : (Query.read "tag = x and body = y".toList).toOption.isSome = true := by
    decide +kernel
  cases h : Query.read "tag = x and body = y".toList with
  | error e =>
    rw [h] at hread
    cases hread
  | ok q =>
    exact ⟨q, rfl, read_respelled h
      (((((Relation.ReflTransGen.single hname).tail hand).tail hparentheses).tail hletters).tail
        hblanks)⟩

end Agenda.Filter
