import Agenda.Proofs.Filter.RoundTrip

/-! # Queries that nest too deeply

    The reader breaks off at the token that would open a hundred and first negation or
    parenthesis, whatever stands before it and after it (`OperandTree.overflows` and its
    companions).  So a typed query of any shape is read back from what it is written as, or
    refused for its depth alone, and no other query is written as it is
    (`render_unambiguous`). -/

namespace Agenda.Filter

open Reader

/-! ## Section 1: Running over the limit -/

/-- Does a negation or a group open with this lexeme, where an operand is due? -/
def Lexeme.opens : Lexeme → Bool
  | .openParen => true
  | l => l.isWord "not".toList

theorem Keyword.opens_lexeme (k : Keyword "not") : k.lexeme.opens = true := by
  show k.lexeme.isWord "not".toList = true
  rw [k.isWord_lexeme, beq_self_eq_true]

/-- Reading any tokens with these lexemes from `s` breaks off at one of them that opens too
    much. -/
def Overflows (s : State) (ls : List Lexeme) : Prop :=
  ∀ ts : List Token, ts.map Token.lexeme = ls →
    ∃ t ∈ ts, t.lexeme.opens = true ∧ ts.foldlM step s = fail .tooDeep t

section overflows
variable {s s₁ : State} {l : Lexeme} {ls ls' : List Lexeme}

theorem Overflows.append (h : Overflows s ls) (ls' : List Lexeme) : Overflows s (ls ++ ls') := by
  intro ts hts
  obtain ⟨ts₁, ts₂, rfl, h₁, -⟩ := List.map_eq_append_iff.mp hts
  obtain ⟨t, ht, hopens, hfail⟩ := h ts₁ h₁
  refine ⟨t, List.mem_append_left ts₂ ht, hopens, ?_⟩
  rw [List.foldlM_append, hfail]
  rfl

theorem Reads.overflows (h : Reads s ls s₁) (h' : Overflows s₁ ls') : Overflows s (ls ++ ls') := by
  intro ts hts
  obtain ⟨ts₁, ts₂, rfl, h₁, h₂⟩ := List.map_eq_append_iff.mp hts
  obtain ⟨t, ht, hopens, hfail⟩ := h' ts₂ h₂
  refine ⟨t, List.mem_append_right ts₁ ht, hopens, ?_⟩
  rw [List.foldlM_append, h ts₁ h₁]
  exact hfail

theorem Overflows.cons (hstep : ∀ t : Token, t.lexeme = l → step s t = .ok s₁)
    (h : Overflows s₁ ls) : Overflows s (l :: ls) :=
  Reads.overflows (Reads.single hstep) h

/-- What opens a construct breaks off where the stack is full, and else the rest may. -/
theorem overflows_of_push {frame : Frame} {group : Group} (hopens : l.opens = true)
    (hstep : ∀ t : Token, t.lexeme = l → step s t = s.push frame group t)
    (h : s.frames.length < maxNesting → Overflows
      { s with frames := frame :: s.frames, group := group, mode := .operand } ls) :
    Overflows s (l :: ls) := by
  by_cases hlt : s.frames.length < maxNesting
  · refine Overflows.cons ?_ (h hlt)
    intro t ht
    rw [hstep t ht, push_of_lt hlt]
  · intro ts hts
    obtain ⟨t, ts', rfl, ht, -⟩ := List.map_eq_cons_iff.mp hts
    refine ⟨t, List.mem_cons_self, ht ▸ hopens, ?_⟩
    rw [List.foldlM_cons, hstep t ht, State.push, if_neg hlt]
    rfl

theorem Overflows.adjacent (hs : s.mode = .connective) (c : ConjunctionTree)
    (h : Overflows { s with mode := .operand } c.lexemes) : Overflows s c.lexemes := by
  intro ts hts
  rw [foldlM_adjacent hs c hts]
  exact h ts hts

theorem Overflows.start (hs : s.mode = .start) (d : DisjunctionTree)
    (h : Overflows { s with mode := .operand } d.lexemes) : Overflows s d.lexemes := by
  intro ts hts
  rw [foldlM_start hs d hts]
  exact h ts hts

end overflows

/-! ## Section 2: Trees that nest too deeply -/

mutual

/-- An operand that nests deeper than the stack has room for runs over the limit. -/
theorem OperandTree.overflows : ∀ (u : OperandTree) {s : State}, s.mode = .operand →
    s.frames.length ≤ maxNesting → maxNesting < s.frames.length + u.nesting →
      Overflows s u.lexemes
  | .negation k u, s, hs, _, hd => by
    simp only [OperandTree.nesting] at hd
    refine overflows_of_push k.opens_lexeme (fun t ht => step_not hs ht) fun hlt => ?_
    exact OperandTree.overflows u rfl hlt (by simp only [List.length_cons]; omega)
  | .group d, s, hs, _, hd => by
    simp only [OperandTree.nesting] at hd
    refine Overflows.append (overflows_of_push rfl (fun t ht => step_openParen hs ht) ?_) _
    intro hlt
    exact DisjunctionTree.overflows d rfl hlt (by simp only [List.length_cons]; omega) trivial
  | .condition c, s, _, hlen, hd => by
    simp only [OperandTree.nesting] at hd
    omega

/-- The first operand that nests too deeply is met after those before it have been read. -/
theorem ConjunctionTree.overflows : ∀ (c : ConjunctionTree) {s : State}, s.mode = .operand →
    s.frames.length ≤ maxNesting → maxNesting < s.frames.length + c.nesting →
      Settled s.frames → Overflows s c.lexemes
  | .last u, s, hs, hlen, hd, _ => OperandTree.overflows u hs hlen hd
  | .adjacent u rest, s, hs, hlen, hd, hset => by
    simp only [ConjunctionTree.nesting] at hd
    by_cases hu : s.frames.length + u.nesting ≤ maxNesting
    · have h := u.reads hs hu
      rw [withOperand_of_settled hset] at h
      refine h.overflows (Overflows.adjacent rfl rest ?_)
      exact ConjunctionTree.overflows rest rfl hlen (by dsimp only; omega) hset
    · exact (OperandTree.overflows u hs hlen (by omega)).append _
  | .joined u k rest, s, hs, hlen, hd, hset => by
    simp only [ConjunctionTree.nesting] at hd
    by_cases hu : s.frames.length + u.nesting ≤ maxNesting
    · have h := u.reads hs hu
      rw [withOperand_of_settled hset] at h
      refine h.overflows (Overflows.cons (fun t ht => step_and rfl ht) ?_)
      exact ConjunctionTree.overflows rest rfl hlen (by dsimp only; omega) hset
    · exact (OperandTree.overflows u hs hlen (by omega)).append _

/-- The first conjunction that nests too deeply is met after those before it have been read. -/
theorem DisjunctionTree.overflows : ∀ (d : DisjunctionTree) {s : State}, s.mode = .operand →
    s.frames.length ≤ maxNesting → maxNesting < s.frames.length + d.nesting →
      Settled s.frames → Overflows s d.lexemes
  | .last c, s, hs, hlen, hd, hset => ConjunctionTree.overflows c hs hlen hd hset
  | .joined c k rest, s, hs, hlen, hd, hset => by
    simp only [DisjunctionTree.nesting] at hd
    by_cases hc : s.frames.length + c.nesting ≤ maxNesting
    · have h := c.reads hs hc hset
      refine h.overflows (Overflows.cons (fun t ht => step_or rfl ht) ?_)
      exact DisjunctionTree.overflows rest rfl hlen (by dsimp only; omega) hset
    · exact (ConjunctionTree.overflows c hs hlen (by omega) hset).append _

end

/-- The lexemes of a tree that nests too deeply are not read to their end. -/
theorem QueryTree.overflows (d : QueryTree) (hd : maxNesting < d.nesting) :
    Overflows {} d.lexemes := by
  obtain ⟨e, o⟩ := d
  cases e with
  | none => cases hd
  | some e =>
    have hexpr : Overflows {} e.lexemes := by
      refine Overflows.start rfl e (e.overflows rfl (Nat.zero_le _) ?_ trivial)
      show maxNesting < 0 + e.nesting
      rwa [Nat.zero_add]
    exact hexpr.append _

/-- A text whose lexemes are those of a tree that nests too deeply is refused for that, at a
    token that opens a negation or a group. -/
theorem read_of_tooDeep {t : Text} {d : QueryTree}
    (hlex : d.lexemes = (lex t).tokens.map Token.lexeme) (hd : maxNesting < d.nesting) :
    ∃ token ∈ (lex t).tokens, token.lexeme.opens = true ∧
      Query.read t = .error ⟨.tooDeep, token.start, token.stop⟩ := by
  obtain ⟨token, hmem, hopens, hfail⟩ := d.overflows hd (lex t).tokens hlex.symm
  refine ⟨token, hmem, hopens, ?_⟩
  unfold Query.read run
  rw [hfail]
  rfl

/-! ## Section 3: Typed queries of any shape -/

/-- A typed query is known from what it is written as. -/
theorem Query.eq_of_render_eq {q q' : Query} (hq : q.Typed) (hq' : q'.Typed)
    (h : q'.render = q.render) : q' = q := by
  obtain ⟨d, rfl, -, hspells⟩ := Query.written hq
  obtain ⟨d', rfl, -, hspells'⟩ := Query.written hq'
  have hlex := hspells'.lex_eq.2
  rw [h, hspells.lex_eq.2] at hlex
  rw [QueryTree.eq_of_lexemes hlex]

/-- **A typed query of any shape is written unambiguously**: the text is cut into lexemes without
    an error, and these have one derivation only, which is one of the query.  If the text opens
    no more than a hundred negations and parentheses at once, it is read as the query, and else
    it is refused for its depth, at a token that opens one.  No other typed query is written
    as this one is. -/
theorem render_unambiguous {q : Query} (hq : q.Typed) :
    (lex q.render).error = none ∧
    (∃ d : QueryTree, d.lexemes = (lex q.render).tokens.map Token.lexeme ∧
      (∀ d' : QueryTree, d'.lexemes = (lex q.render).tokens.map Token.lexeme → d' = d) ∧
      d.query = q ∧ d.nesting = q.nesting ∧
      (d.nesting ≤ 100 → Query.read q.render = .ok q) ∧
      (100 < d.nesting → ∃ token ∈ (lex q.render).tokens, token.lexeme.opens = true ∧
        Query.read q.render = .error ⟨.tooDeep, token.start, token.stop⟩)) ∧
    ∀ q' : Query, q'.Typed → q'.render = q.render → q' = q := by
  obtain ⟨d, hquery, hnesting, hspells⟩ := Query.written hq
  obtain ⟨herror, hlex⟩ := hspells.lex_eq
  refine ⟨herror, ⟨d, hlex.symm, ?_, hquery, hnesting, ?_, ?_⟩, ?_⟩
  · intro d' hd'
    exact QueryTree.eq_of_lexemes (hd'.trans hlex)
  · intro hd
    rw [← hquery] at herror hlex ⊢
    exact read_of_lexemes herror hlex.symm hd
  · intro hd
    exact read_of_tooDeep hlex.symm hd
  · intro q' hq' h
    exact Query.eq_of_render_eq hq hq' h

/-- A condition whose value is a list in a list, with a quote, a backslash and a line break. -/
def quotedTags : Condition :=
  ⟨.tags, .isIn, .list [.text "it's".toList, .list [.null, .text ['\\', '\n']]]⟩

/-- A conjunction that leans to the right, with a negation in every operand but one. -/
def leaning : Nat → Expr
  | 0 => .and (.cond quotedTags) (.not (.cond quotedTags))
  | n + 1 => .and (.not (.cond quotedTags)) (leaning n)

theorem leaning_typed (n : Nat) : (leaning n).Typed := by
  have hcond : quotedTags.Typed := ⟨rfl, rfl, rfl⟩
  induction n with
  | zero => exact ⟨hcond, hcond⟩
  | succ n ih => exact ⟨hcond, ih⟩

/-- Every operand on the right needs parentheses of its own. -/
theorem leaning_nesting (n : Nat) : (leaning n).nesting = n + 1 := by
  induction n with
  | zero => rfl
  | succ n ih =>
    have hchain : (leaning n).isChain = true := by cases n <;> rfl
    show max 1 ((leaning n).nesting + (leaning n).isChain.toNat) = _
    rw [ih, hchain, Bool.toNat_true]
    omega

/-- Such a conjunction with an order. -/
def leaningQuery (n : Nat) : Query :=
  { expression := some (leaning n), orderBy := some { field := .dueDate } }

theorem leaningQuery_typed (n : Nat) : (leaningQuery n).Typed := by
  refine ⟨?_, ?_⟩
  · intro e he
    obtain rfl := Option.some.inj he
    exact leaning_typed n
  · intro o ho
    obtain rfl := Option.some.inj ho
    rfl

/-- With a hundred negations and parentheses open at once it is read back, with one more it is
    not. -/
theorem render_unambiguous_leaning :
    (leaningQuery 99).Typed ∧ Query.read (leaningQuery 99).render = .ok (leaningQuery 99) ∧
    (leaningQuery 100).Typed ∧
    ∃ start stop, Query.read (leaningQuery 100).render = .error ⟨.tooDeep, start, stop⟩ := by
  obtain ⟨-, ⟨d, -, -, -, hd, hread, -⟩, -⟩ := render_unambiguous (leaningQuery_typed 99)
  obtain ⟨-, ⟨d', -, -, -, hd', -, hrefused⟩, -⟩ := render_unambiguous (leaningQuery_typed 100)
  have hdepth : (leaningQuery 99).nesting = 100 := leaning_nesting 99
  have hdepth' : (leaningQuery 100).nesting = 101 := leaning_nesting 100
  obtain ⟨token, -, -, herror⟩ := hrefused (by omega)
  exact ⟨leaningQuery_typed 99, hread (by omega), leaningQuery_typed 100, _, _, herror⟩

end Agenda.Filter
