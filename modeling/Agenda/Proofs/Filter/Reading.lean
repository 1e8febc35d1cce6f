import Agenda.Proofs.Basic
import Agenda.Proofs.Filter.Grammar
import Agenda.Proofs.Filter.Lexing

/-! # Reading is deriving

    The reader of queries takes one token after another and keeps a stack of what is open; the
    grammar speaks of trees.  The two agree: reading the lexemes of a tree adds its expression
    to what was read before (`OperandTree.reads` and its companions), and whatever the reader
    gets to the end of was the lexemes of a tree (`operand_of_accepts` and its companions). -/

namespace Agenda.Filter

open Reader

/-! ## Section 1: Tokens by their lexemes -/

theorem Token.isWord_eq (w : Text) (t : Token) : t.isWord w = t.lexeme.isWord w := by
  cases t with
  | mk l _ _ _ => cases l <;> rfl

theorem Token.beginsOperand_eq (t : Token) : Reader.beginsOperand t = t.lexeme.beginsOperand := by
  cases t with
  | mk l _ _ _ => cases l <;> rfl

/-- A token is a value on its own exactly when its lexeme is an atom. -/
theorem single?_eq_some_iff {t : Token} {v : Literal} :
    single? t = some v ↔ Atom t.lexeme v := by
  have htrue : "true".toList ≠ "null".toList := by simp
  have hfalse : "false".toList ≠ "null".toList := by simp
  have hfalse' : "false".toList ≠ "true".toList := by simp
  constructor
  · intro h
    unfold single? at h
    split at h
    · next t' hl => obtain rfl := Option.some.inj h; rw [hl]; exact .string t'
    · next t' hl => obtain rfl := Option.some.inj h; rw [hl]; exact .number t'
    · next w hl =>
      rw [hl]
      dsimp only at h
      -- a word is a text only if it is none of the three that have a value
      split_ifs at h with h1 h2 h3 <;> obtain rfl := Option.some.inj h
      · exact .null h1
      · exact .isTrue h2
      · exact .isFalse h3
      · exact .word (by simp_all)
    · simp at h
  · intro h
    unfold single?
    cases ht : t.lexeme <;> rw [ht] at h <;> cases h <;> simp_all

theorem readField_of_name {n : FieldName} {t : Token} (h : t.lexeme = n.lexeme) :
    readField t = .ok n.field := by
  simp [readField, h, FieldName.lexeme, n.found]

/-! ## Section 2: States -/

/-- Nothing pending takes the next operand before its group does. -/
def Settled : List Frame → Prop
  | .negation :: _ => False
  | _ => True

theorem withOperand_of_settled {s : State} {e : Expr} (h : Settled s.frames) :
    s.withOperand e = { s with group := s.group.addFactor e, mode := .connective } := by
  obtain ⟨frames, group, mode, orderBy⟩ := s
  match frames, h with
  | [], _ => rfl
  | .group _ :: _, _ => rfl

@[simp] theorem withOperand_mode (s : State) (m : Mode) (e : Expr) :
    ({ s with mode := m } : State).withOperand e = s.withOperand e := rfl

/-- A negation waits for its operand and hands on its opposite. -/
@[simp] theorem withOperand_negation (s : State) (e : Expr) (m : Mode) :
    ({ s with frames := .negation :: s.frames, mode := m } : State).withOperand e =
      s.withOperand (.not e) := rfl

theorem addFactor_eq (g : Group) (e : Expr) :
    g.addFactor e = { g with factors := some (joinLeft .and g.factors e) } := by
  obtain ⟨a, f⟩ := g
  cases f <;> rfl

theorem result_eq (a : Option Expr) (e : Expr) :
    Group.result { alternatives := a, factors := some e } = some (joinLeft .or a e) := by
  cases a <;> rfl

/-! ## Section 3: Runs over the lexemes of a tree -/

/-- Reading any tokens with these lexemes leads from `s` to `s'`. -/
def Reads (s : State) (ls : List Lexeme) (s' : State) : Prop :=
  ∀ ts : List Token, ts.map Token.lexeme = ls → ts.foldlM step s = .ok s'

theorem Reads.nil (s : State) : Reads s [] s := by
  intro ts hts
  obtain rfl := List.map_eq_nil_iff.mp hts
  rfl

theorem Reads.append {s s₁ s₂ : State} {ls ls' : List Lexeme} (h : Reads s ls s₁)
    (h' : Reads s₁ ls' s₂) : Reads s (ls ++ ls') s₂ := by
  intro ts hts
  obtain ⟨ts₁, ts₂, rfl, h₁, h₂⟩ := List.map_eq_append_iff.mp hts
  rw [List.foldlM_append, h ts₁ h₁]
  exact h' ts₂ h₂

theorem Reads.cons {s s' : State} {l : Lexeme} {ls : List Lexeme}
    (h : ∀ t : Token, t.lexeme = l → ∃ s₁, step s t = .ok s₁ ∧ Reads s₁ ls s') :
    Reads s (l :: ls) s' := by
  intro ts hts
  obtain ⟨t, ts', rfl, ht, hts'⟩ := List.map_eq_cons_iff.mp hts
  obtain ⟨s₁, hstep, hreads⟩ := h t ht
  rw [List.foldlM_cons, hstep]
  exact hreads ts' hts'

theorem Reads.single {s s' : State} {l : Lexeme}
    (h : ∀ t : Token, t.lexeme = l → step s t = .ok s') : Reads s [l] s' :=
  Reads.cons fun t ht => ⟨s', h t ht, Reads.nil s'⟩

/-! ## Section 4: Values and conditions are read -/

theorem withValue_of_fits {s : State} {f : Field} {op : Operator} {v : Literal}
    (h : checkValue f op v = none) (start stop : Nat) :
    s.withValue f op v start stop = .ok (s.withOperand (.cond ⟨f, op, v⟩)) := by
  simp [State.withValue, h]

theorem withOperator_of_accepts {s : State} {f : Field} {op : Operator}
    (h : f.accepts op = true) (start stop : Nat) :
    s.withOperator f op start stop = .ok { s with mode := .value f op } := by
  simp [State.withOperator, h]

theorem readValue_of_atom {s : State} {f : Field} {op : Operator} {t : Token} {v : Literal}
    (ha : Atom t.lexeme v) (hv : checkValue f op v = none) :
    readValue s f op t = .ok (s.withOperand (.cond ⟨f, op, v⟩)) := by
  simp [readValue, single?_eq_some_iff.mpr ha, withValue_of_fits hv]

section lists
variable {s : State} {f : Field} {op : Operator} {start : Nat} {items : List Literal}
         {outer : List (List Literal)} {place : ListPlace}

theorem step_list_atom (hs : s.mode = .list f op start items outer place)
    (hp : place ≠ .separator) {t : Token} {v : Literal} (ha : Atom t.lexeme v) :
    step s t = .ok { s with mode := .list f op start (items ++ [v]) outer .separator } := by
  have hv := single?_eq_some_iff.mpr ha
  cases place <;> simp_all [step, readListToken]

theorem single?_openBracket {t : Token} (ht : t.lexeme = .openBracket) : single? t = none := by
  simp [single?, ht]

theorem single?_closeBracket {t : Token} (ht : t.lexeme = .closeBracket) :
    single? t = none := by
  simp [single?, ht]

theorem step_list_openBracket (hs : s.mode = .list f op start items outer place)
    (hp : place ≠ .separator) {t : Token} (ht : t.lexeme = .openBracket) :
    step s t = .ok { s with mode := .list f op start [] (items :: outer) .first } := by
  cases place <;> simp_all [step, readListToken, single?_openBracket]

theorem step_list_comma (hs : s.mode = .list f op start items outer .separator) {t : Token}
    (ht : t.lexeme = .comma) :
    step s t = .ok { s with mode := .list f op start items outer .item } := by
  simp [step, hs, readListToken, ht]

theorem step_list_closeBracket (hs : s.mode = .list f op start items outer place)
    (hp : place ≠ .item) {t : Token} (ht : t.lexeme = .closeBracket) :
    step s t = s.closeList f op start items outer t := by
  cases place <;> simp_all [step, readListToken, single?_closeBracket]

end lists

mutual

/-- A value in a list joins the items before it. -/
theorem ValueTree.reads_item : ∀ (v : ValueTree) {s : State} {f : Field} {op : Operator}
    {start : Nat} {items : List Literal} {outer : List (List Literal)} {place : ListPlace},
    s.mode = .list f op start items outer place → place ≠ .separator →
      Reads s v.lexemes
        { s with mode := .list f op start (items ++ [v.literal]) outer .separator }
  | .atom l lit spelled, s, f, op, start, items, outer, place, hs, hp =>
    Reads.single fun t ht => step_list_atom hs hp (ht ▸ spelled)
  | .emptyList, s, f, op, start, items, outer, place, hs, hp =>
    Reads.cons fun t ht => ⟨_, step_list_openBracket hs hp ht, Reads.single fun t' ht' => by
      rw [step_list_closeBracket rfl (by simp) ht']
      rfl⟩
  | .list its, s, f, op, start, items, outer, place, hs, hp =>
    Reads.cons fun t ht => ⟨_, step_list_openBracket hs hp ht, by
      refine (ItemsTree.reads its rfl (by simp)).append (Reads.single fun t' ht' => ?_)
      rw [step_list_closeBracket rfl (by simp) ht']
      rfl⟩

/-- The items of a list join those before them. -/
theorem ItemsTree.reads : ∀ (its : ItemsTree) {s : State} {f : Field} {op : Operator}
    {start : Nat} {items : List Literal} {outer : List (List Literal)} {place : ListPlace},
    s.mode = .list f op start items outer place → place ≠ .separator →
      Reads s its.lexemes
        { s with mode := .list f op start (items ++ its.literals) outer .separator }
  | .last v, s, f, op, start, items, outer, place, hs, hp => ValueTree.reads_item v hs hp
  | .more v rest, s, f, op, start, items, outer, place, hs, hp => by
    refine (ValueTree.reads_item v hs hp).append (Reads.cons fun t ht => ?_)
    refine ⟨_, step_list_comma rfl ht, ?_⟩
    have h := ItemsTree.reads rest (s := { s with
      mode := .list f op start (items ++ [v.literal]) outer .item }) rfl (by simp)
    simpa [ItemsTree.literals] using h

end

/-- A value is read where one is expected. -/
theorem ValueTree.reads (v : ValueTree) {s : State} {f : Field} {op : Operator}
    (hs : s.mode = .value f op) (hv : checkValue f op v.literal = none) :
    Reads s v.lexemes (s.withOperand (.cond ⟨f, op, v.literal⟩)) := by
  cases v with
  | atom l lit spelled =>
    refine Reads.single fun t ht => ?_
    simp only [step, hs]
    exact readValue_of_atom (ht ▸ spelled) hv
  | emptyList =>
    refine Reads.cons fun t ht => ⟨{ s with mode := .list f op t.start [] [] .first }, ?_, ?_⟩
    · simp [step, hs, readValue, single?_openBracket ht, ht]
    · refine Reads.single fun t' ht' => ?_
      rw [step_list_closeBracket rfl (by simp) ht']
      exact withValue_of_fits hv _ _
  | list items =>
    refine Reads.cons fun t ht => ⟨{ s with mode := .list f op t.start [] [] .first }, ?_, ?_⟩
    · simp [step, hs, readValue, single?_openBracket ht, ht]
    · refine (items.reads rfl (by simp)).append (Reads.single fun t' ht' => ?_)
      rw [step_list_closeBracket rfl (by simp) ht']
      exact withValue_of_fits hv _ _

/-- Only null is compared by `IS`. -/
theorem literal_eq_null {f : Field} {v : Literal} (h : checkValue f .is v = none) :
    v = .null := by
  cases v <;> simp [checkValue, isNull] at h ⊢

/-- What a tree for null consists of. -/
theorem ValueTree.lexemes_of_null {v : ValueTree} (h : v.literal = .null) :
    ∃ w, Text.lower w = "null".toList ∧ v.lexemes = [.word w] := by
  cases v with
  | atom l lit spelled =>
    obtain rfl : lit = .null := h
    cases spelled with
    | null hw => exact ⟨_, hw, rfl⟩
  | emptyList => simp [ValueTree.literal] at h
  | list items => simp [ValueTree.literal] at h

theorem step_operator_word {s : State} {f : Field} (hs : s.mode = .operator f) {t : Token}
    {w : String} {k : Keyword w} (ht : t.lexeme = k.lexeme) :
    step s t =
      if w.toList == "is".toList then .ok { s with mode := .afterIs f t.start t.stop }
      else if w.toList == "in".toList then s.withOperator f .isIn t.start t.stop
      else if w.toList == "not".toList then .ok { s with mode := .afterNot f t.start }
      else fail (.unknownOperator k.word) t := by
  simp only [step, hs, readOperator, Token.isWord_eq, ht, Keyword.isWord_lexeme]
  rfl

/-- An operator is read after its field, and a value is expected then; only behind `IS` it is
    not yet settled whether one is. -/
theorem OperatorTree.reads_lexemes (o : OperatorTree) {s : State} {f : Field}
    (hs : s.mode = .operator f) (hacc : f.accepts o.operator = true)
    (his : ∀ k, o ≠ .is k) : Reads s o.lexemes { s with mode := .value f o.operator } := by
  cases o with
  | symbol op =>
    refine Reads.single fun t ht => ?_
    simp only [step, hs, readOperator, ht]
    exact withOperator_of_accepts hacc _ _
  | is k => exact absurd rfl (his k)
  -- the first word leaves open which operator it is, the second settles it
  | isNot k n =>
    refine Reads.cons fun t ht => ⟨{ s with mode := .afterIs f t.start t.stop }, ?_, ?_⟩
    · simp [step_operator_word hs ht]
    · refine Reads.single fun t' ht' => ?_
      simp only [step, Token.isWord_eq, ht', n.isWord_lexeme, beq_self_eq_true, if_true]
      exact withOperator_of_accepts hacc _ _
  | isIn k =>
    refine Reads.single fun t ht => ?_
    have hop : s.withOperator f .isIn t.start t.stop = .ok { s with mode := .value f .isIn } :=
      withOperator_of_accepts hacc _ _
    simpa [step_operator_word hs ht, OperatorTree.operator] using hop
  | notIn n k =>
    refine Reads.cons fun t ht => ⟨{ s with mode := .afterNot f t.start }, ?_, ?_⟩
    · simp [step_operator_word hs ht]
    · refine Reads.single fun t' ht' => ?_
      simp only [step, Token.isWord_eq, ht', k.isWord_lexeme, beq_self_eq_true, if_true]
      exact withOperator_of_accepts hacc _ _

/-- An operator and its value are read after their field. -/
theorem OperatorTree.reads (o : OperatorTree) (v : ValueTree) {s : State} {f : Field}
    (hs : s.mode = .operator f) (hacc : f.accepts o.operator = true)
    (hv : checkValue f o.operator v.literal = none) :
    Reads s (o.lexemes ++ v.lexemes) (s.withOperand (.cond ⟨f, o.operator, v.literal⟩)) := by
  cases o with
  | is k =>
    -- what `IS` is read with is null: one word, and not `NOT`
    obtain ⟨w, hw, hlex⟩ := ValueTree.lexemes_of_null (literal_eq_null hv)
    refine Reads.cons fun t ht => ⟨{ s with mode := .afterIs f t.start t.stop }, ?_, ?_⟩
    · simp [step_operator_word hs ht]
    · rw [hlex]
      refine Reads.single fun t' ht' => ?_
      have hnot : t'.isWord "not".toList = false := by
        simp [Token.isWord_eq, ht', Lexeme.isWord, hw]
      have hval : checkValue f .is .null = none := literal_eq_null hv ▸ hv
      have hop : ({ s with mode := .afterIs f t.start t.stop } : State).withOperator f .is
          t.start t.stop = .ok { s with mode := .value f .is } :=
        withOperator_of_accepts hacc _ _
      simp only [step, hnot, hop]
      rw [literal_eq_null hv]
      exact readValue_of_atom (ht' ▸ Atom.null hw) hval
  | _ => exact (OperatorTree.reads_lexemes _ hs hacc (by simp)).append (v.reads rfl hv)

/-- The name of a field is read where an operand is expected. -/
theorem step_name {s : State} (hs : s.mode = .operand) {n : FieldName} {t : Token}
    (ht : t.lexeme = n.lexeme) : step s t = .ok { s with mode := .operator n.field } := by
  have hnot : t.isWord "not".toList = false := by
    rw [Token.isWord_eq, ht]
    exact n.isWord_lexeme (by simp [reservedWords])
  have hparen : isOpenParen t = false := by simp [isOpenParen, ht, FieldName.lexeme]
  simp only [step, hs, readOperand, hnot, hparen, readField_of_name ht]
  rfl

theorem ConditionTree.reads (c : ConditionTree) {s : State} (hs : s.mode = .operand) :
    Reads s c.lexemes (s.withOperand (.cond c.condition)) := by
  obtain ⟨n, o, v, hacc, hfits⟩ := c
  exact Reads.cons fun t ht =>
    ⟨{ s with mode := .operator n.field }, step_name hs ht, o.reads v rfl hacc hfits⟩

/-! ## Section 5: Expressions are read -/

theorem push_of_lt {s : State} (h : s.frames.length < maxNesting) (frame : Frame)
    (group : Group) (t : Token) :
    s.push frame group t =
      .ok { s with frames := frame :: s.frames, group := group, mode := .operand } := by
  simp [State.push, h]

theorem step_not {s : State} (hs : s.mode = .operand) {t : Token} {k : Keyword "not"}
    (ht : t.lexeme = k.lexeme) : step s t = s.push .negation s.group t := by
  simp [step, hs, readOperand, Token.isWord_eq, ht, Keyword.isWord_lexeme]

theorem step_openParen {s : State} (hs : s.mode = .operand) {t : Token}
    (ht : t.lexeme = .openParen) : step s t = s.push (.group s.group) {} t := by
  simp [step, hs, readOperand, Token.isWord_eq, ht, Lexeme.isWord, isOpenParen]

theorem step_closeParen {s : State} (hs : s.mode = .connective) {outer : Group}
    {frames : List Frame} (hf : s.frames = .group outer :: frames) {e : Expr}
    (he : s.group.result = some e) {t : Token} (ht : t.lexeme = .closeParen) :
    step s t = .ok ({ s with frames := frames, group := outer }.withOperand e) := by
  simp [step, hs, readConnective, Token.isWord_eq, Token.beginsOperand_eq, ht, Lexeme.isWord,
    Lexeme.beginsOperand, readGroupEnd, hf, he]

theorem step_and {s : State} (hs : s.mode = .connective) {t : Token} {k : Keyword "and"}
    (ht : t.lexeme = k.lexeme) : step s t = .ok { s with mode := .operand } := by
  simp [step, hs, readConnective, Token.isWord_eq, ht, Keyword.isWord_lexeme]

theorem step_or {s : State} (hs : s.mode = .connective) {t : Token} {k : Keyword "or"}
    (ht : t.lexeme = k.lexeme) :
    step s t = .ok { s with group := s.group.nextAlternative, mode := .operand } := by
  have hbegins : k.lexeme.beginsOperand = false := by
    simp [Keyword.lexeme, Lexeme.beginsOperand, k.spells]
  simp [step, hs, readConnective, Token.isWord_eq, Token.beginsOperand_eq, ht,
    Keyword.isWord_lexeme, hbegins]

/-- An operand that follows without a connective is read as any operand. -/
theorem step_adjacent {s : State} (hs : s.mode = .connective) {t : Token}
    (hbegins : t.lexeme.beginsOperand = true) (hand : t.lexeme.isWord "and".toList = false) :
    step s t = readOperand s t := by
  simp only [step, hs, readConnective, Token.isWord_eq, Token.beginsOperand_eq, hbegins, hand]
  rfl

/-- After an operand a conjunction is read as if an operand were expected. -/
theorem foldlM_adjacent {s : State} (hs : s.mode = .connective) (c : ConjunctionTree)
    {ts : List Token} (hts : ts.map Token.lexeme = c.lexemes) :
    ts.foldlM step s = ts.foldlM step { s with mode := .operand } := by
  obtain ⟨l, ls, hl, hbegins, hand⟩ := c.exists_head
  rw [hl] at hts
  obtain ⟨t, ts', rfl, ht, -⟩ := List.map_eq_cons_iff.mp hts
  rw [List.foldlM_cons, List.foldlM_cons, step_adjacent hs (ht ▸ hbegins) (ht ▸ hand)]
  rfl

theorem Reads.adjacent {s s' : State} (hs : s.mode = .connective) (c : ConjunctionTree)
    (h : Reads { s with mode := .operand } c.lexemes s') : Reads s c.lexemes s' := by
  intro ts hts
  rw [foldlM_adjacent hs c hts]
  exact h ts hts

mutual

/-- An operand is read where one is expected, as long as it does not nest too deeply. -/
theorem OperandTree.reads : ∀ (u : OperandTree) {s : State}, s.mode = .operand →
    s.frames.length + u.nesting ≤ maxNesting → Reads s u.lexemes (s.withOperand u.expr)
  | .negation k u, s, hs, hd => by
    -- the stack grows by one frame where the tree nests by one
    simp only [OperandTree.nesting] at hd
    refine Reads.cons fun t ht => ⟨{ s with frames := .negation :: s.frames }, ?_, ?_⟩
    · rw [step_not hs ht, push_of_lt (by omega), hs]
    · exact OperandTree.reads u hs (by simp only [List.length_cons]; omega)
  | .group d, s, hs, hd => by
    simp only [OperandTree.nesting] at hd
    refine Reads.cons fun t ht =>
      ⟨{ s with frames := .group s.group :: s.frames, group := {} }, ?_, ?_⟩
    · rw [step_openParen hs ht, push_of_lt (by omega), hs]
    · -- inside, a group of its own is collected; the bracket hands it on as one operand
      obtain ⟨g, hg, hreads⟩ := DisjunctionTree.reads d
        (s := { s with frames := .group s.group :: s.frames, group := {} }) hs
        (by simp only [List.length_cons]; omega) trivial rfl
      refine hreads.append (Reads.single fun t' ht' => ?_)
      rw [step_closeParen rfl rfl hg ht']
      rfl
  | .condition c, s, hs, _ => ConditionTree.reads c hs

/-- The operands of a conjunction join those before them. -/
theorem ConjunctionTree.reads : ∀ (c : ConjunctionTree) {s : State}, s.mode = .operand →
    s.frames.length + c.nesting ≤ maxNesting → Settled s.frames →
      Reads s c.lexemes
        { s with
          group := { s.group with factors := some (c.exprAfter s.group.factors) }
          mode := .connective }
  | .last u, s, hs, hd, hset => by
    have h := OperandTree.reads u hs hd
    rwa [withOperand_of_settled hset, addFactor_eq] at h
  | .adjacent u rest, s, hs, hd, hset => by
    simp only [ConjunctionTree.nesting] at hd
    have h := OperandTree.reads u hs (by omega)
    rw [withOperand_of_settled hset, addFactor_eq] at h
    refine h.append (Reads.adjacent rfl rest ?_)
    exact ConjunctionTree.reads rest rfl (by dsimp only; omega) hset
  | .joined u k rest, s, hs, hd, hset => by
    simp only [ConjunctionTree.nesting] at hd
    have h := OperandTree.reads u hs (by omega)
    rw [withOperand_of_settled hset, addFactor_eq] at h
    refine h.append (Reads.cons fun t ht => ⟨_, step_and rfl ht, ?_⟩)
    exact ConjunctionTree.reads rest rfl (by dsimp only; omega) hset

/-- The operands of an alternative join those before them. -/
theorem DisjunctionTree.reads : ∀ (d : DisjunctionTree) {s : State}, s.mode = .operand →
    s.frames.length + d.nesting ≤ maxNesting → Settled s.frames → s.group.factors = none →
      ∃ g : Group, g.result = some (d.exprAfter s.group.alternatives) ∧
        Reads s d.lexemes { s with group := g, mode := .connective }
  | .last c, s, hs, hd, hset, hf => by
    have h := ConjunctionTree.reads c hs hd hset
    rw [hf] at h
    exact ⟨_, result_eq _ _, h⟩
  | .joined c k rest, s, hs, hd, hset, hf => by
    simp only [DisjunctionTree.nesting] at hd
    have h := ConjunctionTree.reads c hs (by omega) hset
    rw [hf] at h
    -- an `OR` puts the conjunction to the alternatives and begins a new one
    obtain ⟨g, hg, hrest⟩ := DisjunctionTree.reads rest
      (s := { s with
        group := { alternatives := some (joinLeft .or s.group.alternatives (c.exprAfter none)) }
        mode := .operand }) rfl (by dsimp only; omega) hset rfl
    refine ⟨g, hg, h.append (Reads.cons fun t ht => ⟨_, step_or rfl ht, ?_⟩)⟩
    simpa [Group.nextAlternative, result_eq] using hrest

end

/-! ## Section 6: Queries are read -/

/-- An operand that begins a query is read as any operand. -/
theorem step_start {s : State} (hs : s.mode = .start) {t : Token}
    (hbegins : t.lexeme.beginsOperand = true) : step s t = readOperand s t := by
  have horder : t.isWord "order".toList = false := by
    rw [Token.isWord_eq]
    cases hl : t.lexeme with
    | word w =>
      simp only [hl, Lexeme.beginsOperand, Bool.or_eq_true, beq_iff_eq] at hbegins
      simp only [Lexeme.isWord, beq_eq_false_iff_ne, ne_eq]
      rintro hw
      rw [hw] at hbegins
      simp at hbegins
    | _ => rfl
  simp only [step, hs, horder]
  cases hl : t.lexeme <;> simp_all [Lexeme.beginsOperand]

theorem DisjunctionTree.exists_head (d : DisjunctionTree) :
    ∃ l rest, d.lexemes = l :: rest ∧ l.beginsOperand = true ∧
      l.isWord "and".toList = false := by
  cases d with
  | last c => exact c.exists_head
  | joined c k rest =>
    obtain ⟨l, ls, h, hl⟩ := c.exists_head
    exact ⟨l, ls ++ k.lexeme :: rest.lexemes, by rw [DisjunctionTree.lexemes, h]; rfl, hl⟩

/-- At the start an alternative is read as if an operand were expected. -/
theorem foldlM_start {s : State} (hs : s.mode = .start) (d : DisjunctionTree)
    {ts : List Token} (hts : ts.map Token.lexeme = d.lexemes) :
    ts.foldlM step s = ts.foldlM step { s with mode := .operand } := by
  obtain ⟨l, ls, hl, hbegins, -⟩ := d.exists_head
  rw [hl] at hts
  obtain ⟨t, ts', rfl, ht, -⟩ := List.map_eq_cons_iff.mp hts
  rw [List.foldlM_cons, List.foldlM_cons, step_start hs (ht ▸ hbegins)]
  rfl

theorem Reads.start {s s' : State} (hs : s.mode = .start) (d : DisjunctionTree)
    (h : Reads { s with mode := .operand } d.lexemes s') : Reads s d.lexemes s' := by
  intro ts hts
  rw [foldlM_start hs d hts]
  exact h ts hts

/-- The reader may stop here: the end of the text changes nothing. -/
def AtRest (s : State) : Prop := ∀ t : Token, t.lexeme = .finish → step s t = .ok s

theorem atRest_of_mode {s : State}
    (h : s.mode = .start ∨ s.mode = .finish ∨ ∃ f, s.mode = .orderDirection f) : AtRest s := by
  intro t ht
  rcases h with h | h | ⟨f, h⟩ <;>
    simp [step, h, readDirection, readEnd, Token.isWord_eq, ht, Lexeme.isWord]

theorem atRest_of_connective {s : State} (hs : s.mode = .connective) (hf : s.frames = []) :
    AtRest s := by
  intro t ht
  simp [step, hs, readConnective, readGroupEnd, hf, readEnd, Token.isWord_eq,
    Token.beginsOperand_eq, ht, Lexeme.isWord, Lexeme.beginsOperand]

theorem step_order {s : State}
    (hs : s.mode = .start ∨ s.mode = .connective ∧ s.frames = []) {t : Token}
    {k : Keyword "order"} (ht : t.lexeme = k.lexeme) :
    step s t = .ok { s with mode := .order } := by
  have hbegins : k.lexeme.beginsOperand = false := by
    simp [Keyword.lexeme, Lexeme.beginsOperand, k.spells]
  rcases hs with hs | ⟨hs, hf⟩
  · simp [step, hs, Token.isWord_eq, ht, Keyword.isWord_lexeme]
  · simp [step, hs, readConnective, readGroupEnd, hf, Token.isWord_eq, Token.beginsOperand_eq,
      ht, Keyword.isWord_lexeme, hbegins]

theorem DirectionTree.reads (d : DirectionTree) {s : State} {f : Field}
    (hs : s.mode = .orderDirection f) (ho : s.orderBy = some { field := f }) :
    ∃ m, Reads s d.lexemes { s with mode := m, orderBy := some ⟨f, d.direction⟩ } ∧
      AtRest { s with mode := m, orderBy := some ⟨f, d.direction⟩ } := by
  cases d with
  | absent =>
    refine ⟨.orderDirection f, ?_, atRest_of_mode (Or.inr (Or.inr ⟨f, rfl⟩))⟩
    rw [← hs, DirectionTree.direction, ← ho]
    exact Reads.nil s
  | ascending k =>
    refine ⟨.finish, Reads.single fun t ht => ?_, atRest_of_mode (Or.inr (Or.inl rfl))⟩
    simp [step, hs, readDirection, Token.isWord_eq, ht, Keyword.isWord_lexeme, ho,
      DirectionTree.direction]
  | descending k =>
    refine ⟨.finish, Reads.single fun t ht => ?_, atRest_of_mode (Or.inr (Or.inl rfl))⟩
    simp [step, hs, readDirection, Token.isWord_eq, ht, Keyword.isWord_lexeme,
      DirectionTree.direction]

theorem OrderTree.reads (o : OrderTree) {s : State}
    (hs : s.mode = .start ∨ s.mode = .connective ∧ s.frames = []) :
    ∃ s', Reads s o.lexemes s' ∧ AtRest s' ∧ s'.group = s.group ∧
      s'.orderBy = some o.orderBy := by
  obtain ⟨k, b, n, hsort, d⟩ := o
  obtain ⟨m, hreads, hrest⟩ := d.reads (s := { s with
    mode := .orderDirection n.field
    orderBy := some { field := n.field } }) rfl rfl
  refine ⟨_, ?_, hrest, rfl, rfl⟩
  refine Reads.cons fun t ht => ⟨_, step_order hs ht, ?_⟩
  refine Reads.cons fun t' ht' => ⟨{ s with mode := .orderField }, ?_, ?_⟩
  · simp [step, Token.isWord_eq, ht', Keyword.isWord_lexeme]
  · refine Reads.cons fun t'' ht'' => ⟨_, ?_, hreads⟩
    simp only [step, readOrderField, readField_of_name ht'']
    simp [bind, Except.bind, hsort]
    rfl

/-- The lexemes of a tree that does not nest too deeply are read as its query. -/
theorem QueryTree.reads (d : QueryTree) (hd : d.nesting ≤ maxNesting) :
    ∃ s, Reads {} d.lexemes s ∧ AtRest s ∧ s.query = d.query := by
  obtain ⟨e, o⟩ := d
  have hexpr : ∃ g m, Reads {} (e.elim [] DisjunctionTree.lexemes)
        { group := g, mode := m } ∧
      (m = .start ∨ m = .connective) ∧
      g.result = e.map (DisjunctionTree.exprAfter none) := by
    cases e with
    | none => exact ⟨{}, .start, Reads.nil _, Or.inl rfl, rfl⟩
    | some e =>
      obtain ⟨g, hg, hreads⟩ := e.reads (s := { mode := .operand }) rfl
        (by simpa [QueryTree.nesting] using hd) trivial rfl
      exact ⟨g, .connective, Reads.start rfl e hreads, Or.inr rfl, hg⟩
  obtain ⟨g, m, hreads, hm, hg⟩ := hexpr
  -- without an order the reader rests after the expression, with one after the direction
  cases o with
  | none =>
    refine ⟨{ group := g, mode := m }, ?_, ?_, ?_⟩
    · simpa [QueryTree.lexemes] using hreads
    · rcases hm with rfl | rfl
      · exact atRest_of_mode (Or.inl rfl)
      · exact atRest_of_connective rfl rfl
    · simp [State.query, QueryTree.query, hg]
  | some o =>
    have hstart : ({ group := g, mode := m } : State).mode = .start ∨
        ({ group := g, mode := m } : State).mode = .connective ∧
          ({ group := g, mode := m } : State).frames = [] := by
      rcases hm with rfl | rfl
      · exact Or.inl rfl
      · exact Or.inr ⟨rfl, rfl⟩
    obtain ⟨s', hreads', hrest, hgroup, horder⟩ := o.reads hstart
    refine ⟨s', hreads.append hreads', hrest, ?_⟩
    simp [State.query, QueryTree.query, hgroup, horder, hg]

/-! ## Section 7: What is read was derived -/

/-- Reading the tokens and then the end of the text succeeds with `q`. -/
def Accepts (s : State) (ts : List Token) (q : Query) : Prop :=
  ∃ s₁ s₂ n, ts.foldlM step s = .ok s₁ ∧ step s₁ (Token.atEnd n) = .ok s₂ ∧ s₂.query = q

theorem Accepts.cons {s : State} {t : Token} {ts : List Token} {q : Query}
    (h : Accepts s (t :: ts) q) : ∃ s₁, step s t = .ok s₁ ∧ Accepts s₁ ts q := by
  obtain ⟨s₂, s₃, n, hfold, hend, hq⟩ := h
  rw [List.foldlM_cons] at hfold
  obtain ⟨s₁, hstep, hfold⟩ := bind_eq_ok_iff.mp hfold
  exact ⟨s₁, hstep, s₂, s₃, n, hfold, hend, hq⟩

theorem Accepts.nil {s : State} {q : Query} (h : Accepts s [] q) :
    ∃ s₁ n, step s (Token.atEnd n) = .ok s₁ ∧ s₁.query = q := by
  obtain ⟨s₂, s₃, n, hfold, hend, hq⟩ := h
  obtain rfl : s = s₂ := Except.ok.inj hfold
  exact ⟨s₃, n, hend, hq⟩

theorem Accepts.of_step {s s₁ : State} {t : Token} {ts : List Token} {q : Query}
    (hstep : step s t = .ok s₁) (h : Accepts s₁ ts q) : Accepts s (t :: ts) q := by
  obtain ⟨s₂, s₃, n, hfold, hend, hq⟩ := h
  refine ⟨s₂, s₃, n, ?_, hend, hq⟩
  rw [List.foldlM_cons, hstep]
  exact hfold

/-- The tokens `ts` begin with the lexemes `ls`, and `rest` is left. -/
def Splits (ts : List Token) (ls : List Lexeme) (rest : List Token) : Prop :=
  ∃ front, ts = front ++ rest ∧ front.map Token.lexeme = ls

theorem Splits.nil (ts : List Token) : Splits ts [] ts := ⟨[], rfl, rfl⟩

theorem Splits.cons {t : Token} {l : Lexeme} (ht : t.lexeme = l) {ts rest : List Token}
    {ls : List Lexeme} (h : Splits ts ls rest) : Splits (t :: ts) (l :: ls) rest := by
  obtain ⟨front, rfl, rfl⟩ := h
  exact ⟨t :: front, rfl, by simp [ht]⟩

theorem Splits.append {ts rest rest' : List Token} {ls ls' : List Lexeme}
    (h : Splits ts ls rest) (h' : Splits rest ls' rest') : Splits ts (ls ++ ls') rest' := by
  obtain ⟨front, rfl, rfl⟩ := h
  obtain ⟨front', rfl, rfl⟩ := h'
  exact ⟨front ++ front', by simp, by simp⟩

theorem Splits.length_eq {ts rest : List Token} {ls : List Lexeme} (h : Splits ts ls rest) :
    ts.length = ls.length + rest.length := by
  obtain ⟨front, rfl, rfl⟩ := h
  simp

section lists
variable {s s₁ : State} {f : Field} {op : Operator} {start : Nat} {items : List Literal}
         {outer : List (List Literal)} {place : ListPlace}

/-- In a list stands an item, a list in the list, or the end of an empty list. -/
theorem step_list_cases (hs : s.mode = .list f op start items outer place)
    (hp : place ≠ .separator) {t : Token} (h : step s t = .ok s₁) :
    (∃ v, Atom t.lexeme v ∧
      s₁ = { s with mode := .list f op start (items ++ [v]) outer .separator }) ∨
    (t.lexeme = .openBracket ∧
      s₁ = { s with mode := .list f op start [] (items :: outer) .first }) ∨
    (t.lexeme = .closeBracket ∧ place = .first) := by
  cases hv : single? t with
  | some v =>
    have ha := single?_eq_some_iff.mp hv
    rw [step_list_atom hs hp ha] at h
    exact Or.inl ⟨v, ha, (Except.ok.inj h).symm⟩
  | none =>
    by_cases hopen : t.lexeme = .openBracket
    · rw [step_list_openBracket hs hp hopen] at h
      exact Or.inr (Or.inl ⟨hopen, (Except.ok.inj h).symm⟩)
    · cases place with
      | separator => exact absurd rfl hp
      | first =>
        refine Or.inr (Or.inr ⟨?_, rfl⟩)
        simp only [step, hs, readListToken, hv] at h
        split at h <;> simp_all [fail]
      | item =>
        simp only [step, hs, readListToken, hv] at h
        split at h <;> simp_all [fail]

theorem step_separator_cases (hs : s.mode = .list f op start items outer .separator)
    {t : Token} (h : step s t = .ok s₁) :
    (t.lexeme = .comma ∧ s₁ = { s with mode := .list f op start items outer .item }) ∨
    t.lexeme = .closeBracket := by
  simp only [step, hs, readListToken] at h
  split at h
  · next ht => exact Or.inl ⟨ht, (Except.ok.inj h).symm⟩
  · next ht => exact Or.inr ht
  · simp [fail] at h

end lists

mutual

/-- Where the reader goes on in a list stood an item, unless the list was empty. -/
theorem item_of_accepts {s : State} {f : Field} {op : Operator} {start : Nat}
    {items : List Literal} {outer : List (List Literal)} {place : ListPlace}
    (ts : List Token) {q : Query} (hs : s.mode = .list f op start items outer place)
    (hp : place ≠ .separator) (h : Accepts s ts q) :
    (place = .first ∧ ∃ t rest, ts = t :: rest ∧ t.lexeme = .closeBracket) ∨
    ∃ (v : ValueTree) (rest : List Token), Splits ts v.lexemes rest ∧ Accepts
      { s with mode := .list f op start (items ++ [v.literal]) outer .separator } rest q := by
  match ts with
  | [] =>
    obtain ⟨s₁, n, hstep, -⟩ := h.nil
    rcases step_list_cases hs hp hstep with ⟨v, ha, -⟩ | ⟨ha, -⟩ | ⟨ha, -⟩ <;> cases ha
  | t :: ts =>
    obtain ⟨s₁, hstep, hrest⟩ := h.cons
    rcases step_list_cases hs hp hstep with ⟨v, ha, rfl⟩ | ⟨ht, rfl⟩ | ⟨ht, hfirst⟩
    · exact Or.inr ⟨.atom _ v ha, ts, .cons rfl (.nil ts), hrest⟩
    · -- a list in the list: empty, or with items up to its closing bracket
      right
      rcases items_of_accepts ts rfl (by simp) hrest with
        ⟨-, t', rest, rfl, ht'⟩ | ⟨its, t', rest, hsplit, ht', hrest⟩
      · obtain ⟨s₂, hstep', hrest⟩ := hrest.cons
        rw [step_list_closeBracket rfl (by simp) ht'] at hstep'
        obtain rfl := Except.ok.inj hstep'
        exact ⟨.emptyList, rest, .cons ht (.cons ht' (.nil rest)), hrest⟩
      · obtain ⟨s₂, hstep', hrest⟩ := hrest.cons
        rw [step_list_closeBracket rfl (by simp) ht'] at hstep'
        obtain rfl := Except.ok.inj hstep'
        exact ⟨.list its, rest, .cons ht (hsplit.append (.cons ht' (.nil rest))), hrest⟩
    · exact Or.inl ⟨hfirst, t, ts, rfl, ht⟩
termination_by (ts.length, 0)

/-- Where the reader goes on in a list stood its items, unless the list was empty. -/
theorem items_of_accepts {s : State} {f : Field} {op : Operator} {start : Nat}
    {items : List Literal} {outer : List (List Literal)} {place : ListPlace}
    (ts : List Token) {q : Query} (hs : s.mode = .list f op start items outer place)
    (hp : place ≠ .separator) (h : Accepts s ts q) :
    (place = .first ∧ ∃ t rest, ts = t :: rest ∧ t.lexeme = .closeBracket) ∨
    ∃ (its : ItemsTree) (t : Token) (rest : List Token), Splits ts its.lexemes (t :: rest) ∧
      t.lexeme = .closeBracket ∧ Accepts
      { s with mode := .list f op start (items ++ its.literals) outer .separator }
      (t :: rest) q := by
  rcases item_of_accepts ts hs hp h with hempty | ⟨v, rest, hsplit, hrest⟩
  · exact Or.inl hempty
  right
  match rest with
  | [] =>
    obtain ⟨s₁, n, hstep, -⟩ := hrest.nil
    rcases step_separator_cases rfl hstep with ⟨ht, -⟩ | ht <;> cases ht
  | t :: rest =>
    obtain ⟨s₁, hstep, hrest'⟩ := hrest.cons
    rcases step_separator_cases rfl hstep with ⟨ht, rfl⟩ | ht
    · -- a comma: the other items stand in a shorter text
      have hlt := hsplit.length_eq
      have hle : rest.length < ts.length := by simp only [List.length_cons] at hlt; omega
      rcases items_of_accepts rest rfl (by simp) hrest' with
        ⟨hfirst, -⟩ | ⟨its, t', rest', hsplit', ht', hrest''⟩
      · simp at hfirst
      · refine ⟨.more v its, t', rest', hsplit.append (.cons ht hsplit'), ht', ?_⟩
        simpa [ItemsTree.literals] using hrest''
    · exact ⟨.last v, t, rest, hsplit, ht, hrest⟩
termination_by (ts.length, 1)

end

theorem withValue_cases {s s₁ : State} {f : Field} {op : Operator} {v : Literal}
    {start stop : Nat} (h : s.withValue f op v start stop = .ok s₁) :
    checkValue f op v = none ∧ s₁ = s.withOperand (.cond ⟨f, op, v⟩) := by
  unfold State.withValue at h
  cases hv : checkValue f op v with
  | some cause => simp [hv] at h
  | none =>
    rw [hv] at h
    exact ⟨rfl, (Except.ok.inj h).symm⟩

theorem withOperator_cases {s s₁ : State} {f : Field} {op : Operator} {start stop : Nat}
    (h : s.withOperator f op start stop = .ok s₁) :
    f.accepts op = true ∧ s₁ = { s with mode := .value f op } := by
  unfold State.withOperator at h
  split at h
  · next hacc => exact ⟨hacc, (Except.ok.inj h).symm⟩
  · simp at h

/-- Where a value is expected stands an atom or the beginning of a list. -/
theorem readValue_cases {s s₁ : State} {f : Field} {op : Operator} {t : Token}
    (h : readValue s f op t = .ok s₁) :
    (∃ v, Atom t.lexeme v ∧ checkValue f op v = none ∧
      s₁ = s.withOperand (.cond ⟨f, op, v⟩)) ∨
    (t.lexeme = .openBracket ∧ s₁ = { s with mode := .list f op t.start [] [] .first }) := by
  unfold readValue at h
  cases hv : single? t with
  | some v =>
    simp only [hv] at h
    obtain ⟨hfits, hs₁⟩ := withValue_cases h
    exact Or.inl ⟨v, single?_eq_some_iff.mp hv, hfits, hs₁⟩
  | none =>
    simp only [hv] at h
    split at h
    · next ht => exact Or.inr ⟨ht, (Except.ok.inj h).symm⟩
    · simp [fail] at h

/-- Where a value is expected stood one that fits. -/
theorem value_of_accepts {s : State} {f : Field} {op : Operator} {ts : List Token} {q : Query}
    (hs : s.mode = .value f op) (h : Accepts s ts q) :
    ∃ (v : ValueTree) (rest : List Token), Splits ts v.lexemes rest ∧
      checkValue f op v.literal = none ∧
      Accepts (s.withOperand (.cond ⟨f, op, v.literal⟩)) rest q := by
  match ts with
  | [] =>
    obtain ⟨s₁, n, hstep, -⟩ := h.nil
    simp only [step, hs] at hstep
    rcases readValue_cases hstep with ⟨v, ha, -⟩ | ⟨ht, -⟩
    · cases ha
    · cases ht
  | t :: ts =>
    obtain ⟨s₁, hstep, hrest⟩ := h.cons
    simp only [step, hs] at hstep
    rcases readValue_cases hstep with ⟨v, ha, hv, rfl⟩ | ⟨ht, rfl⟩
    · exact ⟨.atom _ v ha, ts, .cons rfl (.nil ts), hv, hrest⟩
    -- the bracket of the outermost list ends the value, which is checked there
    rcases items_of_accepts ts rfl (by simp) hrest with
      ⟨-, t', rest, rfl, ht'⟩ | ⟨its, t', rest, hsplit, ht', hrest⟩
    · obtain ⟨s₂, hstep', hrest⟩ := hrest.cons
      rw [step_list_closeBracket rfl (by simp) ht'] at hstep'
      obtain ⟨hv, rfl⟩ := withValue_cases hstep'
      exact ⟨.emptyList, rest, .cons ht (.cons ht' (.nil rest)), hv, hrest⟩
    · obtain ⟨s₂, hstep', hrest⟩ := hrest.cons
      rw [step_list_closeBracket rfl (by simp) ht'] at hstep'
      obtain ⟨hv, rfl⟩ := withValue_cases hstep'
      exact ⟨.list its, rest, .cons ht (hsplit.append (.cons ht' (.nil rest))), hv, hrest⟩

theorem exists_keyword {t : Token} {w : String} (h : t.isWord w.toList = true) :
    ∃ k : Keyword w, t.lexeme = k.lexeme := by
  rw [Token.isWord_eq] at h
  cases hl : t.lexeme with
  | word v => exact ⟨⟨v, by simpa [hl, Lexeme.isWord] using h⟩, rfl⟩
  | _ => simp [hl, Lexeme.isWord] at h

/-- Where an operator is expected stands a symbol, `IS`, `IN` or `NOT`. -/
theorem readOperator_cases {s s₁ : State} {f : Field} {t : Token}
    (h : readOperator s f t = .ok s₁) :
    (∃ op, t.lexeme = .op op ∧ f.accepts op = true ∧
      s₁ = { s with mode := .value f op }) ∨
    (∃ k : Keyword "is", t.lexeme = k.lexeme ∧
      s₁ = { s with mode := .afterIs f t.start t.stop }) ∨
    (∃ k : Keyword "in", t.lexeme = k.lexeme ∧ f.accepts .isIn = true ∧
      s₁ = { s with mode := .value f .isIn }) ∨
    (∃ k : Keyword "not", t.lexeme = k.lexeme ∧
      s₁ = { s with mode := .afterNot f t.start }) := by
  unfold readOperator at h
  split at h
  · next op ht =>
    obtain ⟨hacc, hs₁⟩ := withOperator_cases h
    exact Or.inl ⟨op, ht, hacc, hs₁⟩
  · -- no symbol, so one of the three words
    split_ifs at h with his hin hnot
    · obtain ⟨k, hk⟩ := exists_keyword his
      exact Or.inr (Or.inl ⟨k, hk, (Except.ok.inj h).symm⟩)
    · obtain ⟨k, hk⟩ := exists_keyword hin
      obtain ⟨hacc, hs₁⟩ := withOperator_cases h
      exact Or.inr (Or.inr (Or.inl ⟨k, hk, hacc, hs₁⟩))
    · obtain ⟨k, hk⟩ := exists_keyword hnot
      exact Or.inr (Or.inr (Or.inr ⟨k, hk, (Except.ok.inj h).symm⟩))
    · simp [fail] at h
  · simp [fail] at h

/-- After `IS` stands `NOT`, or a value that `IS` is read with. -/
theorem step_afterIs_cases {s s₁ : State} {f : Field} {start stop : Nat}
    (hs : s.mode = .afterIs f start stop) {t : Token} (h : step s t = .ok s₁) :
    (∃ k : Keyword "not", t.lexeme = k.lexeme ∧ f.accepts .isNot = true ∧
      s₁ = { s with mode := .value f .isNot }) ∨
    (f.accepts .is = true ∧ readValue { s with mode := .value f .is } f .is t = .ok s₁) := by
  simp only [step, hs] at h
  split_ifs at h with hnot
  · obtain ⟨k, hk⟩ := exists_keyword hnot
    obtain ⟨hacc, hs₁⟩ := withOperator_cases h
    exact Or.inl ⟨k, hk, hacc, hs₁⟩
  · obtain ⟨s₂, hop, h⟩ := bind_eq_ok_iff.mp h
    obtain ⟨hacc, rfl⟩ := withOperator_cases hop
    exact Or.inr ⟨hacc, h⟩

theorem step_afterNot_cases {s s₁ : State} {f : Field} {start : Nat}
    (hs : s.mode = .afterNot f start) {t : Token} (h : step s t = .ok s₁) :
    ∃ k : Keyword "in", t.lexeme = k.lexeme ∧ f.accepts .notIn = true ∧
      s₁ = { s with mode := .value f .notIn } := by
  simp only [step, hs] at h
  split_ifs at h with hin
  · obtain ⟨k, hk⟩ := exists_keyword hin
    obtain ⟨hacc, hs₁⟩ := withOperator_cases h
    exact ⟨k, hk, hacc, hs₁⟩
  · simp [fail] at h

/-- The tokens end the operator that `l` began, go on with a value that fits it and the field,
    and the rest is accepted with the condition that they make. -/
def EndsCondition (s : State) (f : Field) (l : Lexeme) (ts : List Token) (q : Query) : Prop :=
  ∃ (o : OperatorTree) (v : ValueTree) (ls : List Lexeme) (rest : List Token),
    o.lexemes = l :: ls ∧ Splits ts (ls ++ v.lexemes) rest ∧ f.accepts o.operator = true ∧
    checkValue f o.operator v.literal = none ∧
    Accepts (s.withOperand (.cond ⟨f, o.operator, v.literal⟩)) rest q

section operators
variable {s : State} {f : Field} {ts : List Token} {q : Query}

/-- An operator that is complete is followed by a value that fits it. -/
theorem endsCondition_of_value {o : OperatorTree} {l : Lexeme} {ls : List Lexeme}
    (ho : o.lexemes = l :: ls) (hacc : f.accepts o.operator = true) {ts' : List Token}
    (hsplit : Splits ts ls ts')
    (h : Accepts { s with mode := .value f o.operator } ts' q) : EndsCondition s f l ts q := by
  obtain ⟨v, rest, hvalue, hv, hrest⟩ := value_of_accepts rfl h
  exact ⟨o, v, ls, rest, ho, hsplit.append hvalue, hacc, hv, hrest⟩

/-- After `IS` stood `NOT` and a value, or a value. -/
theorem is_of_accepts {start stop : Nat} (k : Keyword "is")
    (h : Accepts { s with mode := .afterIs f start stop } ts q) :
    EndsCondition s f k.lexeme ts q := by
  match ts with
  | [] =>
    -- the end of the text is no value
    obtain ⟨s₁, n, hstep, -⟩ := h.nil
    rcases step_afterIs_cases rfl hstep with ⟨k', ht, -⟩ | ⟨hacc, hstep⟩
    · cases ht
    · rcases readValue_cases hstep with ⟨v, ha, -⟩ | ⟨ht, -⟩
      · cases ha
      · cases ht
  | t :: ts =>
    obtain ⟨s₁, hstep, hrest⟩ := h.cons
    rcases step_afterIs_cases rfl hstep with ⟨k', ht, hacc, rfl⟩ | ⟨hacc, hstep⟩
    · exact endsCondition_of_value (o := .isNot k k') rfl hacc (.cons ht (.nil ts)) hrest
    · have hvalue : Accepts { s with mode := .value f .is } (t :: ts) q :=
        Accepts.of_step hstep hrest
      exact endsCondition_of_value (o := .is k) rfl hacc (.nil (t :: ts)) hvalue

/-- After `NOT` stood `IN` and a value. -/
theorem not_of_accepts {start : Nat} (k : Keyword "not")
    (h : Accepts { s with mode := .afterNot f start } ts q) :
    EndsCondition s f k.lexeme ts q := by
  match ts with
  | [] =>
    obtain ⟨s₁, n, hstep, -⟩ := h.nil
    obtain ⟨k', ht, -⟩ := step_afterNot_cases rfl hstep
    cases ht
  | t :: ts =>
    obtain ⟨s₁, hstep, hrest⟩ := h.cons
    obtain ⟨k', ht, hacc, rfl⟩ := step_afterNot_cases rfl hstep
    exact endsCondition_of_value (o := .notIn k k') rfl hacc (.cons ht (.nil ts)) hrest

/-- After a field stood an operator and a value that fit it. -/
theorem operator_of_accepts (hs : s.mode = .operator f) (h : Accepts s ts q) :
    ∃ (o : OperatorTree) (v : ValueTree) (rest : List Token),
      Splits ts (o.lexemes ++ v.lexemes) rest ∧ f.accepts o.operator = true ∧
      checkValue f o.operator v.literal = none ∧
      Accepts (s.withOperand (.cond ⟨f, o.operator, v.literal⟩)) rest q := by
  match ts with
  | [] =>
    obtain ⟨s₁, n, hstep, -⟩ := h.nil
    simp only [step, hs] at hstep
    rcases readOperator_cases hstep with ⟨op, ht, -⟩ | ⟨k, ht, -⟩ | ⟨k, ht, -⟩ | ⟨k, ht, -⟩ <;>
      cases ht
  | t :: ts =>
    obtain ⟨s₁, hstep, hrest⟩ := h.cons
    simp only [step, hs] at hstep
    -- the first token begins the operator, and what follows ends it
    have hends : EndsCondition s f t.lexeme ts q := by
      rcases readOperator_cases hstep with
        ⟨op, ht, hacc, rfl⟩ | ⟨k, ht, rfl⟩ | ⟨k, ht, hacc, rfl⟩ | ⟨k, ht, rfl⟩
      · rw [ht]
        exact endsCondition_of_value (o := .symbol op) rfl hacc (.nil ts) hrest
      · rw [ht]
        exact is_of_accepts k hrest
      · rw [ht]
        exact endsCondition_of_value (o := .isIn k) rfl hacc (.nil ts) hrest
      · rw [ht]
        exact not_of_accepts k hrest
    obtain ⟨o, v, ls, rest, ho, hsplit, hacc, hv, hrest⟩ := hends
    refine ⟨o, v, rest, ?_, hacc, hv, hrest⟩
    rw [ho]
    exact .cons rfl hsplit

end operators

theorem push_cases {s s₁ : State} {frame : Frame} {group : Group} {t : Token}
    (h : s.push frame group t = .ok s₁) :
    s.frames.length < maxNesting ∧
      s₁ = { s with frames := frame :: s.frames, group := group, mode := .operand } := by
  unfold State.push at h
  split at h
  · next hlt => exact ⟨hlt, (Except.ok.inj h).symm⟩
  · simp [fail] at h

theorem readField_cases {t : Token} {f : Field} (h : readField t = .ok f) :
    ∃ n : FieldName, t.lexeme = n.lexeme ∧ n.field = f := by
  unfold readField at h
  split at h
  · next w hl =>
    cases hf : Field.find? w with
    | none => simp [hf, fail] at h
    | some f' =>
      rw [hf] at h
      exact ⟨⟨w, f', hf⟩, hl, Except.ok.inj h⟩
  · simp [fail] at h

/-- Where an operand is expected stands `NOT`, an opening parenthesis or a field. -/
theorem readOperand_cases {s s₁ : State} {t : Token} (h : readOperand s t = .ok s₁) :
    (∃ k : Keyword "not", t.lexeme = k.lexeme ∧ s.frames.length < maxNesting ∧
      s₁ = { s with frames := .negation :: s.frames, mode := .operand }) ∨
    (t.lexeme = .openParen ∧ s.frames.length < maxNesting ∧
      s₁ = { s with frames := .group s.group :: s.frames, group := {}, mode := .operand }) ∨
    (∃ n : FieldName, t.lexeme = n.lexeme ∧ s₁ = { s with mode := .operator n.field }) := by
  unfold readOperand at h
  split_ifs at h with hnot hparen
  · obtain ⟨k, hk⟩ := exists_keyword hnot
    obtain ⟨hlt, hs₁⟩ := push_cases h
    exact Or.inl ⟨k, hk, hlt, hs₁⟩
  · obtain ⟨hlt, hs₁⟩ := push_cases h
    refine Or.inr (Or.inl ⟨?_, hlt, hs₁⟩)
    cases hl : t.lexeme <;> simp [isOpenParen, hl] at hparen
    rfl
  · obtain ⟨f, hf, h⟩ := bind_eq_ok_iff.mp h
    obtain ⟨n, hn, rfl⟩ := readField_cases hf
    exact Or.inr (Or.inr ⟨n, hn, (Except.ok.inj h).symm⟩)

/-- In a group, what neither joins nor begins an operand closes it. -/
theorem step_groupEnd_cases {s s₁ : State} (hs : s.mode = .connective) {outer : Group}
    {frames : List Frame} (hf : s.frames = .group outer :: frames) {e : Expr}
    (he : s.group.result = some e) {t : Token} (hand : t.lexeme.isWord "and".toList = false)
    (hbegins : t.lexeme.beginsOperand = false) (hor : t.lexeme.isWord "or".toList = false)
    (h : step s t = .ok s₁) :
    t.lexeme = .closeParen ∧
      s₁ = ({ s with frames := frames, group := outer } : State).withOperand e := by
  simp only [step, hs, readConnective, Token.isWord_eq, hand, Token.beginsOperand_eq, hbegins,
    hor, readGroupEnd, hf, he, Bool.false_eq_true, if_false] at h
  cases hl : t.lexeme <;> simp only [hl, fail] at h <;> try contradiction
  exact ⟨rfl, (Except.ok.inj h).symm⟩

theorem EndsDisjunction.of_cons {l : Lexeme} {r : List Lexeme} (h : EndsDisjunction (l :: r)) :
    l.isWord "and".toList = false ∧ l.beginsOperand = false ∧
      l.isWord "or".toList = false := by
  obtain ⟨hc, hor⟩ := h
  obtain ⟨hand, hbegins⟩ := hc l (by simp)
  exact ⟨hand, hbegins, hor l (by simp)⟩

theorem OperandTree.length_pos (u : OperandTree) : 0 < u.lexemes.length := by
  obtain ⟨l, ls, h, -⟩ := u.exists_head
  simp [h]

theorem ConjunctionTree.length_pos (c : ConjunctionTree) : 0 < c.lexemes.length := by
  obtain ⟨l, ls, h, -⟩ := c.exists_head
  simp [h]

mutual

/-- Where an operand is expected stood one that does not nest too deeply. -/
theorem operand_of_accepts {s : State} (ts : List Token) {q : Query} (h : Accepts s ts q)
    (hs : s.mode = .operand) (hlen : s.frames.length ≤ maxNesting) :
    ∃ (u : OperandTree) (rest : List Token), Splits ts u.lexemes rest ∧
      s.frames.length + u.nesting ≤ maxNesting ∧ Accepts (s.withOperand u.expr) rest q := by
  match ts with
  | [] =>
    obtain ⟨s₁, n, hstep, -⟩ := h.nil
    simp only [step, hs] at hstep
    rcases readOperand_cases hstep with ⟨k, ht, -⟩ | ⟨ht, -⟩ | ⟨n, ht, -⟩ <;> cases ht
  | t :: ts =>
    obtain ⟨s₁, hstep, hrest⟩ := h.cons
    simp only [step, hs] at hstep
    rcases readOperand_cases hstep with ⟨k, ht, hlt, rfl⟩ | ⟨ht, hlt, rfl⟩ | ⟨n, ht, rfl⟩
    · obtain ⟨u, rest, hsplit, hd, hrest⟩ :=
        operand_of_accepts ts hrest rfl (by simp only [List.length_cons]; omega)
      refine ⟨.negation k u, rest, .cons ht hsplit, ?_, hrest⟩
      simp only [OperandTree.nesting, List.length_cons] at hd ⊢
      omega
    · obtain ⟨d, g, rest, hsplit, hd, hg, hends, hrest⟩ :=
        disjunction_of_accepts ts hrest rfl (by simp only [List.length_cons]; omega) trivial rfl
      -- the alternative has ended, so what follows can only close the group
      match rest with
      | [] =>
        obtain ⟨s₁, n, hstep', -⟩ := hrest.nil
        obtain ⟨ht', -⟩ := step_groupEnd_cases rfl rfl hg rfl rfl rfl hstep'
        cases ht'
      | t' :: rest =>
        obtain ⟨hand, hbegins, hor⟩ := hends.of_cons
        obtain ⟨s₁, hstep', hrest'⟩ := hrest.cons
        obtain ⟨ht', rfl⟩ := step_groupEnd_cases rfl rfl hg hand hbegins hor hstep'
        refine ⟨.group d, rest, .cons ht (hsplit.append (.cons ht' (.nil rest))), ?_, hrest'⟩
        simp only [OperandTree.nesting, List.length_cons] at hd ⊢
        omega
    · obtain ⟨o, v, rest, hsplit, hacc, hv, hrest⟩ := operator_of_accepts rfl hrest
      exact ⟨.condition ⟨n, o, v, hacc, hv⟩, rest, .cons ht hsplit, hlen, hrest⟩
termination_by (ts.length, 0)

/-- Where an operand is expected stood a whole conjunction. -/
theorem conjunction_of_accepts {s : State} (ts : List Token) {q : Query} (h : Accepts s ts q)
    (hs : s.mode = .operand) (hlen : s.frames.length ≤ maxNesting) (hset : Settled s.frames) :
    ∃ (c : ConjunctionTree) (rest : List Token), Splits ts c.lexemes rest ∧
      s.frames.length + c.nesting ≤ maxNesting ∧ EndsConjunction (rest.map Token.lexeme) ∧
      Accepts { s with
        group := { s.group with factors := some (c.exprAfter s.group.factors) }
        mode := .connective } rest q := by
  obtain ⟨u, rest, hsplit, hd, hrest⟩ := operand_of_accepts ts h hs hlen
  rw [withOperand_of_settled hset, addFactor_eq] at hrest
  match rest with
  | [] => exact ⟨.last u, [], hsplit, hd, by simp [EndsConjunction], hrest⟩
  | t :: rest =>
    -- an operand takes up a lexeme, so less is left
    have hlt : (t :: rest).length < ts.length := by
      have hlength := hsplit.length_eq
      have hpos := u.length_pos
      omega
    have hlt' : rest.length < ts.length := Nat.lt_of_succ_lt hlt
    obtain ⟨s₁, hstep, hrest'⟩ := hrest.cons
    by_cases hand : t.isWord "and".toList = true
    · obtain ⟨k, hk⟩ := exists_keyword hand
      rw [step_and rfl hk] at hstep
      obtain rfl := Except.ok.inj hstep
      obtain ⟨c, rest', hsplit', hd', hends, hrest''⟩ :=
        conjunction_of_accepts rest hrest' rfl hlen hset
      refine ⟨.joined u k c, rest', hsplit.append (.cons hk hsplit'), ?_, hends, hrest''⟩
      simp only [ConjunctionTree.nesting]
      dsimp only at hd'
      omega
    · rw [Bool.not_eq_true, Token.isWord_eq] at hand
      by_cases hbegins : t.lexeme.beginsOperand = true
      · -- no connective: the token is read as if an operand were expected
        rw [step_adjacent rfl hbegins hand] at hstep
        have hoperand : Accepts { s with
            group := { s.group with factors := some (joinLeft .and s.group.factors u.expr) }
            mode := .operand } (t :: rest) q := Accepts.of_step hstep hrest'
        obtain ⟨c, rest', hsplit', hd', hends, hrest''⟩ :=
          conjunction_of_accepts (t :: rest) hoperand rfl hlen hset
        refine ⟨.adjacent u c, rest', hsplit.append hsplit', ?_, hends, hrest''⟩
        simp only [ConjunctionTree.nesting]
        dsimp only at hd'
        omega
      · -- neither: the conjunction ends here
        refine ⟨.last u, t :: rest, hsplit, hd, ?_, hrest⟩
        intro l hl
        obtain rfl : t.lexeme = l := by simpa using hl
        exact ⟨hand, by simpa using hbegins⟩
termination_by (ts.length, 1)

/-- Where an operand is expected stood a whole alternative. -/
theorem disjunction_of_accepts {s : State} (ts : List Token) {q : Query} (h : Accepts s ts q)
    (hs : s.mode = .operand) (hlen : s.frames.length ≤ maxNesting) (hset : Settled s.frames)
    (hf : s.group.factors = none) :
    ∃ (d : DisjunctionTree) (g : Group) (rest : List Token), Splits ts d.lexemes rest ∧
      s.frames.length + d.nesting ≤ maxNesting ∧
      g.result = some (d.exprAfter s.group.alternatives) ∧
      EndsDisjunction (rest.map Token.lexeme) ∧
      Accepts { s with group := g, mode := .connective } rest q := by
  obtain ⟨c, rest, hsplit, hd, hends, hrest⟩ := conjunction_of_accepts ts h hs hlen hset
  rw [hf] at hrest
  match rest with
  | [] =>
    exact ⟨.last c, _, [], hsplit, hd, result_eq _ _, ⟨hends, by simp⟩, hrest⟩
  | t :: rest =>
    -- a conjunction takes up a lexeme, so less is left
    have hlt : (t :: rest).length < ts.length := by
      have hlength := hsplit.length_eq
      have hpos := c.length_pos
      omega
    have hlt' : rest.length < ts.length := Nat.lt_of_succ_lt hlt
    by_cases hor : t.isWord "or".toList = true
    · obtain ⟨k, hk⟩ := exists_keyword hor
      obtain ⟨s₁, hstep, hrest'⟩ := hrest.cons
      rw [step_or rfl hk] at hstep
      obtain rfl := Except.ok.inj hstep
      obtain ⟨d, g, rest', hsplit', hd', hg, hends', hrest''⟩ :=
        disjunction_of_accepts rest hrest' rfl hlen hset rfl
      refine ⟨.joined c k d, g, rest', hsplit.append (.cons hk hsplit'), ?_, ?_, hends', hrest''⟩
      · simp only [DisjunctionTree.nesting]
        dsimp only at hd'
        omega
      · simpa [Group.nextAlternative, result_eq, DisjunctionTree.exprAfter] using hg
    · rw [Bool.not_eq_true, Token.isWord_eq] at hor
      refine ⟨.last c, _, t :: rest, hsplit, hd, result_eq _ _, ⟨hends, ?_⟩, hrest⟩
      intro l hl
      obtain rfl : t.lexeme = l := by simpa using hl
      exact hor
termination_by (ts.length, 2)

end

/-! ## Section 8: Queries were derived -/

/-- No token is an end. -/
def NoEnd (ts : List Token) : Prop := ∀ t ∈ ts, t.lexeme ≠ .finish

theorem NoEnd.of_cons {t : Token} {ts : List Token} (h : NoEnd (t :: ts)) :
    t.lexeme ≠ .finish ∧ NoEnd ts :=
  ⟨h t (by simp), fun t' ht' => h t' (by simp [ht'])⟩

theorem NoEnd.of_splits {ts rest : List Token} {ls : List Lexeme} (h : NoEnd ts)
    (hsplit : Splits ts ls rest) : NoEnd rest := by
  obtain ⟨front, rfl, -⟩ := hsplit
  exact fun t ht => h t (List.mem_append_right front ht)

theorem readEnd_cases {s s₁ : State} {t : Token} (h : readEnd s t = .ok s₁) :
    t.lexeme = .finish ∧ s₁ = s := by
  unfold readEnd at h
  split at h
  · next ht => exact ⟨ht, (Except.ok.inj h).symm⟩
  · simp [fail] at h

/-- Nothing follows a complete query. -/
theorem finish_of_accepts {s : State} {ts : List Token} {q : Query} (hs : s.mode = .finish)
    (hend : NoEnd ts) (h : Accepts s ts q) : ts = [] ∧ q = s.query := by
  match ts with
  | [] =>
    obtain ⟨s₁, n, hstep, rfl⟩ := h.nil
    simp only [step, hs] at hstep
    obtain ⟨-, rfl⟩ := readEnd_cases hstep
    exact ⟨rfl, rfl⟩
  | t :: ts =>
    obtain ⟨s₁, hstep, -⟩ := h.cons
    simp only [step, hs] at hstep
    exact absurd (readEnd_cases hstep).1 hend.of_cons.1

theorem direction_of_accepts {s : State} {f : Field} {ts : List Token} {q : Query}
    (hs : s.mode = .orderDirection f) (ho : s.orderBy = some { field := f })
    (hend : NoEnd ts) (h : Accepts s ts q) :
    ∃ d : DirectionTree, ts.map Token.lexeme = d.lexemes ∧
      q = { expression := s.group.result, orderBy := some ⟨f, d.direction⟩ } := by
  match ts with
  | [] =>
    -- without a word the order ascends
    obtain ⟨s₁, n, hstep, rfl⟩ := h.nil
    rw [atRest_of_mode (Or.inr (Or.inr ⟨f, hs⟩)) _ rfl] at hstep
    obtain rfl := Except.ok.inj hstep
    exact ⟨.absent, rfl, by simp [State.query, ho, DirectionTree.direction]⟩
  | t :: ts =>
    obtain ⟨s₁, hstep, hrest⟩ := h.cons
    simp only [step, hs, readDirection] at hstep
    split_ifs at hstep with hasc hdesc
    · obtain ⟨k, hk⟩ := exists_keyword hasc
      obtain rfl := Except.ok.inj hstep
      obtain ⟨rfl, rfl⟩ := finish_of_accepts rfl hend.of_cons.2 hrest
      refine ⟨.ascending k, by simp [hk, DirectionTree.lexemes], ?_⟩
      simp [State.query, ho, DirectionTree.direction]
    · obtain ⟨k, hk⟩ := exists_keyword hdesc
      obtain rfl := Except.ok.inj hstep
      obtain ⟨rfl, rfl⟩ := finish_of_accepts rfl hend.of_cons.2 hrest
      refine ⟨.descending k, by simp [hk, DirectionTree.lexemes], ?_⟩
      simp [State.query, DirectionTree.direction]
    · exact absurd (readEnd_cases hstep).1 hend.of_cons.1

theorem readOrderField_cases {s s₁ : State} {t : Token} (h : readOrderField s t = .ok s₁) :
    ∃ n : FieldName, t.lexeme = n.lexeme ∧ n.field.sortable = true ∧
      s₁ = { s with
        mode := .orderDirection n.field
        orderBy := some { field := n.field } } := by
  unfold readOrderField at h
  obtain ⟨f, hf, h⟩ := bind_eq_ok_iff.mp h
  obtain ⟨n, hn, rfl⟩ := readField_cases hf
  split_ifs at h with hsort
  · exact ⟨n, hn, hsort, (Except.ok.inj h).symm⟩
  · simp [fail] at h

/-- After `ORDER` stood the rest of an order. -/
theorem order_of_accepts {s : State} {ts : List Token} {q : Query} {k : Keyword "order"}
    (hs : s.mode = .order) (hend : NoEnd ts) (h : Accepts s ts q) :
    ∃ o : OrderTree, o.orderWord = k ∧ k.lexeme :: ts.map Token.lexeme = o.lexemes ∧
      q = { expression := s.group.result, orderBy := some o.orderBy } := by
  match ts with
  | [] =>
    obtain ⟨s₁, n, hstep, -⟩ := h.nil
    simp [step, hs, Token.isWord_eq, Token.atEnd, Lexeme.isWord, fail] at hstep
  | t :: ts =>
    obtain ⟨s₁, hstep, hrest⟩ := h.cons
    simp only [step, hs] at hstep
    split_ifs at hstep with hby
    · -- `BY` calls for a field, and the text cannot end before it
      obtain ⟨b, hb⟩ := exists_keyword hby
      obtain rfl := Except.ok.inj hstep
      cases ts with
      | nil =>
        obtain ⟨s₁, n, hstep', -⟩ := hrest.nil
        obtain ⟨name, hname, -⟩ := readOrderField_cases hstep'
        cases hname
      | cons t' ts =>
        obtain ⟨s₂, hstep', hrest'⟩ := hrest.cons
        obtain ⟨name, hname, hsort, rfl⟩ := readOrderField_cases hstep'
        obtain ⟨d, hd, rfl⟩ :=
          direction_of_accepts rfl rfl hend.of_cons.2.of_cons.2 hrest'
        refine ⟨⟨k, b, name, hsort, d⟩, rfl, ?_, rfl⟩
        simp [OrderTree.lexemes, hb, hname, hd]
    · simp [fail] at hstep

/-- After an expression stood an order or nothing. -/
theorem ending_of_accepts {s : State} {ts : List Token} {q : Query}
    (hs : s.mode = .connective) (hf : s.frames = []) (ho : s.orderBy = none)
    (hends : EndsDisjunction (ts.map Token.lexeme)) (hend : NoEnd ts) (h : Accepts s ts q) :
    ∃ o : Option OrderTree, ts.map Token.lexeme = o.elim [] OrderTree.lexemes ∧
      q = { expression := s.group.result, orderBy := o.map OrderTree.orderBy } := by
  match ts with
  | [] =>
    obtain ⟨s₁, n, hstep, rfl⟩ := h.nil
    rw [atRest_of_connective hs hf _ rfl] at hstep
    obtain rfl := Except.ok.inj hstep
    exact ⟨none, rfl, by simp [State.query, ho]⟩
  | t :: ts =>
    obtain ⟨s₁, hstep, hrest⟩ := h.cons
    -- nothing joins on to the expression, so the next word can only be `ORDER`
    obtain ⟨hand, hbegins, hor⟩ := hends.of_cons
    simp only [step, hs, readConnective, Token.isWord_eq, hand, Token.beginsOperand_eq, hbegins,
      hor, readGroupEnd, hf, Bool.false_eq_true, if_false] at hstep
    split_ifs at hstep with horder
    · obtain ⟨k, hk⟩ := exists_keyword (t := t) (w := "order") (by rwa [Token.isWord_eq])
      obtain rfl := Except.ok.inj hstep
      obtain ⟨o, -, hlex, hq⟩ := order_of_accepts (k := k) rfl hend.of_cons.2 hrest
      exact ⟨some o, by simpa [hk] using hlex, hq⟩
    · exact absurd (readEnd_cases hstep).1 hend.of_cons.1

/-- What was read as a query was the lexemes of a tree for it, which does not nest too
    deeply. -/
theorem query_of_accepts {ts : List Token} {q : Query} (hend : NoEnd ts)
    (h : Accepts {} ts q) :
    ∃ d : QueryTree, d.lexemes = ts.map Token.lexeme ∧ d.query = q ∧
      d.nesting ≤ maxNesting := by
  match ts with
  | [] =>
    obtain ⟨s₁, n, hstep, rfl⟩ := h.nil
    rw [atRest_of_mode (Or.inl rfl) _ rfl] at hstep
    obtain rfl := Except.ok.inj hstep
    exact ⟨⟨none, none⟩, rfl, rfl, Nat.zero_le _⟩
  | t :: ts =>
    obtain ⟨s₁, hstep, hrest⟩ := h.cons
    by_cases horder : t.isWord "order".toList = true
    · -- an order without an expression
      obtain ⟨k, hk⟩ := exists_keyword horder
      rw [step_order (Or.inl rfl) hk] at hstep
      obtain rfl := Except.ok.inj hstep
      obtain ⟨o, -, hlex, rfl⟩ := order_of_accepts (k := k) rfl hend.of_cons.2 hrest
      exact ⟨⟨none, some o⟩, by simpa [QueryTree.lexemes, hk] using hlex.symm, rfl,
        Nat.zero_le _⟩
    · -- anything else is read as an operand from the start
      have hoperand : Accepts { mode := .operand } (t :: ts) q := by
        refine Accepts.of_step ?_ hrest
        rw [Bool.not_eq_true] at horder
        simp only [step, horder, Bool.false_eq_true, if_false] at hstep
        split at hstep
        · next ht => exact absurd ht hend.of_cons.1
        · exact hstep
      obtain ⟨d, g, rest, hsplit, hd, hg, hends, hrest'⟩ :=
        disjunction_of_accepts (t :: ts) hoperand rfl (Nat.zero_le _) trivial rfl
      obtain ⟨o, hlex, rfl⟩ :=
        ending_of_accepts rfl rfl rfl hends (hend.of_splits hsplit) hrest'
      obtain ⟨front, hfront, hmap⟩ := hsplit
      refine ⟨⟨some d, o⟩, ?_, ?_, by simpa [QueryTree.nesting] using hd⟩
      · rw [hfront, List.map_append, hmap, hlex]
        rfl
      · simp only [QueryTree.query, Option.map_some, hg]

/-! ## Section 9: Reading is deriving -/

theorem run_eq_ok_iff {l : Lexing} {n : Nat} {q : Query} :
    run l n = .ok q ↔ l.error = none ∧ ∃ s s', l.tokens.foldlM step {} = .ok s ∧
      step s (Token.atEnd n) = .ok s' ∧ s'.query = q := by
  unfold run
  cases hfold : l.tokens.foldlM step {} with
  | error e => simp [bind, Except.bind]
  | ok s =>
    cases herror : l.error with
    | some e => simp [bind, Except.bind]
    | none =>
      cases hstep : step s (Token.atEnd n) with
      | error e => simp [bind, Except.bind, hstep]
      | ok s' => simp [bind, Except.bind, hstep, pure, Except.pure]

/-- A text whose lexemes are those of a tree that does not nest too deeply is read as the query
    of the tree. -/
theorem read_of_lexemes {t : Text} {d : QueryTree} (herror : (lex t).error = none)
    (hlex : d.lexemes = (lex t).tokens.map Token.lexeme) (hd : d.nesting ≤ maxNesting) :
    Query.read t = .ok d.query := by
  obtain ⟨s, hreads, hrest, hq⟩ := d.reads hd
  exact run_eq_ok_iff.mpr ⟨herror, s, s, hreads _ hlex.symm, hrest _ rfl, hq⟩

/-- A text that is read has the lexemes of a tree for its query. -/
theorem exists_tree_of_read {t : Text} {q : Query} (h : Query.read t = .ok q) :
    (lex t).error = none ∧ ∃ d : QueryTree, d.lexemes = (lex t).tokens.map Token.lexeme ∧
      d.query = q ∧ d.nesting ≤ maxNesting := by
  obtain ⟨herror, s, s', hfold, hstep, hq⟩ := run_eq_ok_iff.mp h
  have haccepts : Accepts {} (lex t).tokens q := ⟨s, s', t.length, hfold, hstep, hq⟩
  exact ⟨herror, query_of_accepts (lexFrom_ne_finish 0 t) haccepts⟩

/-- **Reading accepts exactly the grammar**: a text is read as a query if and only if it is cut
    into lexemes without an error and these have a derivation of the query that never has more
    than a hundred negations and parentheses open.  Derivations are unique. -/
theorem read_eq_ok_iff (t : Text) (q : Query) :
    (Query.read t = .ok q ↔
      (lex t).error = none ∧ ∃ d : QueryTree, d.lexemes = (lex t).tokens.map Token.lexeme ∧
        d.query = q ∧ d.nesting ≤ 100) ∧
    Function.Injective QueryTree.lexemes := by
  refine ⟨⟨exists_tree_of_read, ?_⟩, QueryTree.lexemes_injective⟩
  intro h
  obtain ⟨herror, d, hlex, rfl, hd⟩ := h
  exact read_of_lexemes herror hlex hd

end Agenda.Filter
