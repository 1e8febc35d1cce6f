import Agenda.Filter.Saved
import Agenda.Proofs.Filter.Reading

/-! # Writing and reading again

    A query that was read is written in a form that is read as the same query
    (`read_render_of_read`).  Two facts carry this: reading makes typed queries only
    (`OperandTree.typed` and its companions), and a typed query is spelled by the lexemes of a
    tree for it (`Expr.written`).  The parentheses that writing puts are needed by every text
    for the query, so what is written nests no deeper than what was read. -/

namespace Agenda.Filter

/-! ## Section 1: Typed queries -/

mutual

/-- Can the value be typed? -/
def Literal.isTyped : Literal → Bool
  | .null | .truth _ | .text _ => true
  | .list items => areTyped items
  | _ => false

/-- Can every one of the values be typed? -/
def Literal.areTyped : List Literal → Bool
  | [] => true
  | v :: rest => v.isTyped && areTyped rest

end

/-- A condition that can be typed: the field accepts the operator and can be compared with the
    value. -/
structure Condition.Typed (c : Condition) : Prop where
  accepted : c.field.accepts c.op = true
  fits     : Reader.checkValue c.field c.op c.value = none
  value    : c.value.isTyped = true

/-- An expression whose conditions can all be typed. -/
def Expr.Typed : Expr → Prop
  | .cond c => c.Typed
  | .not e => e.Typed
  | .and l r => l.Typed ∧ r.Typed
  | .or l r => l.Typed ∧ r.Typed

/-- A query that can be typed. -/
structure Query.Typed (q : Query) : Prop where
  expression : ∀ e ∈ q.expression, e.Typed
  sortable   : ∀ o ∈ q.orderBy, o.field.sortable = true

/-- How many negations and parentheses are open at once in the expression as it is written. -/
def Expr.nesting : Expr → Nat
  | .cond _ => 0
  | .not e => e.nesting + e.isChain.toNat + 1
  | .and l r => max (l.nesting + l.isOr.toNat) (r.nesting + r.isChain.toNat)
  | .or l r => max l.nesting (r.nesting + r.isOr.toNat)

/-- How many negations and parentheses are open at once in the query as it is written. -/
def Query.nesting (q : Query) : Nat := q.expression.elim 0 Expr.nesting

@[simp] theorem Expr.isChain_cond (c : Condition) : (Expr.cond c).isChain = false := rfl

@[simp] theorem Expr.isChain_not (e : Expr) : e.not.isChain = false := rfl

@[simp] theorem Expr.isChain_and (l r : Expr) : (l.and r).isChain = true := rfl

@[simp] theorem Expr.isChain_or (l r : Expr) : (l.or r).isChain = true := rfl

theorem Expr.isOr_le_isChain (e : Expr) : e.isOr.toNat ≤ e.isChain.toNat := by
  cases e <;> simp [isOr, isChain]

/-! ## Section 2: What is read is typed -/

mutual

theorem ValueTree.isTyped_literal : ∀ v : ValueTree, v.literal.isTyped = true
  | .atom l v spelled => by cases spelled <;> rfl
  | .emptyList => rfl
  | .list items => ItemsTree.areTyped_literals items

theorem ItemsTree.areTyped_literals : ∀ items : ItemsTree,
    Literal.areTyped items.literals = true
  | .last v => by
    rw [ItemsTree.literals, Literal.areTyped, v.isTyped_literal]
    rfl
  | .more v rest => by
    rw [ItemsTree.literals, Literal.areTyped, v.isTyped_literal, rest.areTyped_literals]
    rfl

end

theorem ConditionTree.typed (c : ConditionTree) : c.condition.Typed :=
  ⟨c.accepted, c.fits, c.value.isTyped_literal⟩

theorem Expr.typed_and (l r : Expr) (hl : l.Typed) (hr : r.Typed) : (l.and r).Typed := ⟨hl, hr⟩

theorem Expr.typed_or (l r : Expr) (hl : l.Typed) (hr : r.Typed) : (l.or r).Typed := ⟨hl, hr⟩

/-- An operand that is joined to what stands to its left makes a typed expression of typed
    ones. -/
theorem joinLeft_typed {j : Expr → Expr → Expr}
    (hj : ∀ l e : Expr, l.Typed → e.Typed → (j l e).Typed) {left : Option Expr} {e : Expr}
    (hleft : ∀ l ∈ left, l.Typed) (he : e.Typed) : (joinLeft j left e).Typed := by
  cases left with
  | none => exact he
  | some l => exact hj l e (hleft l rfl) he

mutual

/-- An operand stands for an expression that can be typed. -/
theorem OperandTree.typed : ∀ u : OperandTree, u.expr.Typed
  | .negation _ u => u.typed
  | .group d => d.typed none (by simp)
  | .condition c => c.typed

theorem ConjunctionTree.typed : ∀ (c : ConjunctionTree) (left : Option Expr),
    (∀ l ∈ left, l.Typed) → (c.exprAfter left).Typed
  | .last u, _, hleft => joinLeft_typed Expr.typed_and hleft u.typed
  | .adjacent u rest, _, hleft =>
    rest.typed _ (by rintro l ⟨⟩; exact joinLeft_typed Expr.typed_and hleft u.typed)
  | .joined u _ rest, _, hleft =>
    rest.typed _ (by rintro l ⟨⟩; exact joinLeft_typed Expr.typed_and hleft u.typed)

theorem DisjunctionTree.typed : ∀ (d : DisjunctionTree) (left : Option Expr),
    (∀ l ∈ left, l.Typed) → (d.exprAfter left).Typed
  | .last c, _, hleft => joinLeft_typed Expr.typed_or hleft (c.typed none (by simp))
  | .joined c _ rest, _, hleft =>
    rest.typed _ (by
      rintro l ⟨⟩
      exact joinLeft_typed Expr.typed_or hleft (c.typed none (by simp)))

end

/-- What a derivation stands for can be typed. -/
theorem QueryTree.typed (d : QueryTree) : d.query.Typed := by
  obtain ⟨e, o⟩ := d
  refine ⟨?_, ?_⟩
  · intro e' he
    obtain ⟨d, -, rfl⟩ := Option.map_eq_some_iff.mp he
    exact d.typed none (by simp)
  · intro o' ho
    obtain ⟨o, -, rfl⟩ := Option.map_eq_some_iff.mp ho
    exact o.sortable

/-! ## Section 3: Writing nests no deeper than reading -/

/-- How deep what stands to the left nests where a conjunction goes on. -/
def conjunctionDepth (left : Option Expr) : Nat :=
  left.elim 0 fun l => l.nesting + l.isOr.toNat

theorem joinLeft_and_nesting_le (left : Option Expr) (e : Expr) :
    conjunctionDepth (some (joinLeft .and left e)) ≤
      max (conjunctionDepth left) (e.nesting + e.isChain.toNat) := by
  have hor := e.isOr_le_isChain
  cases left with
  | none => simp only [conjunctionDepth, joinLeft, Option.elim_some, Option.elim_none]; omega
  | some l => simp [conjunctionDepth, joinLeft, Expr.nesting, Expr.isOr]

theorem joinLeft_or_nesting_le (left : Option Expr) (e : Expr) :
    (joinLeft .or left e).nesting ≤
      max (left.elim 0 Expr.nesting) (e.nesting + e.isOr.toNat) := by
  cases left with
  | none => simp [joinLeft]
  | some l => simp [joinLeft, Expr.nesting]

mutual

/-- An operand needs the parentheses that writing puts around its expression. -/
theorem OperandTree.nesting_expr_le : ∀ u : OperandTree,
    u.expr.nesting + u.expr.isChain.toNat ≤ u.nesting
  | .negation _ u => by
    have hu := u.nesting_expr_le
    rw [OperandTree.expr, OperandTree.nesting, Expr.isChain_not, Expr.nesting, Bool.toNat_false]
    omega
  | .group d => by
    -- the parentheses that were read are at least those that a chain needs
    have hd := d.nesting_expr_le none
    have hchain := Bool.toNat_le (d.exprAfter none).isChain
    simp only [OperandTree.expr, OperandTree.nesting, Option.elim_none] at hd ⊢
    omega
  | .condition _ => by simp [OperandTree.expr, Expr.nesting, Expr.isChain, OperandTree.nesting]

theorem ConjunctionTree.nesting_expr_le : ∀ (c : ConjunctionTree) (left : Option Expr),
    conjunctionDepth (some (c.exprAfter left)) ≤ max (conjunctionDepth left) c.nesting
  | .last u, left => by
    have hu := u.nesting_expr_le
    have hjoin := joinLeft_and_nesting_le left u.expr
    simp only [ConjunctionTree.exprAfter, ConjunctionTree.nesting]
    omega
  | .adjacent u rest, left => by
    -- the operand is joined to what stands to its left, and the rest to both
    have hu := u.nesting_expr_le
    have hjoin := joinLeft_and_nesting_le left u.expr
    have hrest := rest.nesting_expr_le (some (joinLeft .and left u.expr))
    simp only [ConjunctionTree.exprAfter, ConjunctionTree.nesting]
    omega
  | .joined u _ rest, left => by
    have hu := u.nesting_expr_le
    have hjoin := joinLeft_and_nesting_le left u.expr
    have hrest := rest.nesting_expr_le (some (joinLeft .and left u.expr))
    simp only [ConjunctionTree.exprAfter, ConjunctionTree.nesting]
    omega

theorem DisjunctionTree.nesting_expr_le : ∀ (d : DisjunctionTree) (left : Option Expr),
    (d.exprAfter left).nesting ≤ max (left.elim 0 Expr.nesting) d.nesting
  | .last c, left => by
    have hc := c.nesting_expr_le none
    have hjoin := joinLeft_or_nesting_le left (c.exprAfter none)
    simp only [conjunctionDepth, Option.elim_some, Option.elim_none] at hc
    simp only [DisjunctionTree.exprAfter, DisjunctionTree.nesting]
    omega
  | .joined c _ rest, left => by
    have hc := c.nesting_expr_le none
    have hjoin := joinLeft_or_nesting_le left (c.exprAfter none)
    have hrest := rest.nesting_expr_le (some (joinLeft .or left (c.exprAfter none)))
    simp only [conjunctionDepth, Option.elim_some, Option.elim_none] at hc hrest
    simp only [DisjunctionTree.exprAfter, DisjunctionTree.nesting]
    omega

end

theorem QueryTree.nesting_query_le (d : QueryTree) : d.query.nesting ≤ d.nesting := by
  obtain ⟨e, o⟩ := d
  cases e with
  | none => exact Nat.le_refl 0
  | some e =>
    show (e.exprAfter none).nesting ≤ e.nesting
    simpa using e.nesting_expr_le none

/-! ## Section 4: Texts and their lexemes -/

/-- The text is these lexemes, wherever it stands, unless more of a word follows. -/
def Spells (t : Text) (ls : List Lexeme) : Prop :=
  ∀ rest, EndsWord rest → Cuts (t ++ rest) ls rest

theorem Spells.lex_eq {t : Text} {ls : List Lexeme} (h : Spells t ls) :
    (lex t).error = none ∧ (lex t).tokens.map Token.lexeme = ls := by
  have hcuts := h [] endsWord_nil
  rw [List.append_nil] at hcuts
  exact hcuts.lex_eq

theorem Spells.nil : Spells [] [] := fun rest _ => Cuts.nil rest

theorem Spells.word {w : Text} (hw : isWholeWord w = true) : Spells w [.word w] :=
  fun _ hrest => Cuts.word hw hrest

theorem Spells.string (t : Text) : Spells (Literal.renderText t) [.string t] :=
  fun rest _ => Cuts.string t rest

/-- What writing puts after a word goes on with no word. -/
theorem isWordChar_separator :
    [' ', ')', ']', ','].all (fun c => !Token.isWordChar c) = true := by
  decide +kernel

theorem endsWord_separator {c : Char} (hc : c ∈ [' ', ')', ']', ',']) (t : Text) :
    EndsWord (c :: t) := by
  have hall := List.all_eq_true.mp isWordChar_separator c hc
  rw [Bool.not_eq_true'] at hall
  exact EndsRun.of_cons hall t

section joining
variable {t t' : Text} {ls ls' : List Lexeme}

theorem Spells.space (h : Spells t ls) (h' : Spells t' ls') :
    Spells (t ++ ' ' :: t') (ls ++ ls') := by
  intro rest hrest
  rw [List.append_assoc]
  exact (h _ (endsWord_separator (by simp) _)).append (h' rest hrest).space

theorem Spells.symbol {op : Operator} (hop : op.isSymbol = true) (h : Spells t ls) :
    Spells (op.symbol ++ ' ' :: t) (.op op :: ls) := by
  intro rest hrest
  rw [List.append_assoc]
  exact (Cuts.symbol hop _).append (h rest hrest).space

/-- Opening punctuation, a text, and closing punctuation. -/
theorem Spells.enclosed {o c : Char} {lo lc : Lexeme} (ho : Text.isBlank o = false)
    (hlo : Token.punctuation? o = some lo) (hc : Text.isBlank c = false)
    (hlc : Token.punctuation? c = some lc) (hends : c ∈ [' ', ')', ']', ','])
    (h : Spells t ls) : Spells (o :: t ++ [c]) (lo :: ls ++ [lc]) := by
  intro rest _
  have hopen := Cuts.punctuation ho hlo (t ++ c :: rest)
  have hbody := h (c :: rest) (endsWord_separator hends rest)
  have hclose := Cuts.punctuation hc hlc rest
  have hall := hopen.append (hbody.append hclose)
  simpa using hall

theorem Spells.parenthesized (h : Spells t ls) :
    Spells ('(' :: t ++ [')']) (.openParen :: ls ++ [.closeParen]) :=
  h.enclosed rfl rfl rfl rfl (by simp)

theorem Spells.bracketed (h : Spells t ls) :
    Spells ('[' :: t ++ [']']) (.openBracket :: ls ++ [.closeBracket]) :=
  h.enclosed rfl rfl rfl rfl (by simp)

theorem Spells.comma (h : Spells t ls) (h' : Spells t' ls') :
    Spells (t ++ ", ".toList ++ t') (ls ++ .comma :: ls') := by
  intro rest hrest
  have hfirst := h (',' :: ' ' :: (t' ++ rest)) (endsWord_separator (by simp) _)
  have hcomma := Cuts.punctuation (c := ',') rfl rfl (' ' :: (t' ++ rest))
  have hall := hfirst.append (hcomma.append (h' rest hrest).space)
  simpa using hall

end joining

/-! ## Section 5: Words as they are written -/

def capitalNot : Keyword "not" := ⟨"NOT".toList, by decide +kernel⟩

def capitalAnd : Keyword "and" := ⟨"AND".toList, by decide +kernel⟩

def capitalOr : Keyword "or" := ⟨"OR".toList, by decide +kernel⟩

def capitalIs : Keyword "is" := ⟨"IS".toList, by decide +kernel⟩

def capitalIn : Keyword "in" := ⟨"IN".toList, by decide +kernel⟩

def capitalOrder : Keyword "order" := ⟨"ORDER".toList, by decide +kernel⟩

def capitalBy : Keyword "by" := ⟨"BY".toList, by decide +kernel⟩

def capitalAsc : Keyword "asc" := ⟨"ASC".toList, by decide +kernel⟩

def capitalDesc : Keyword "desc" := ⟨"DESC".toList, by decide +kernel⟩

def smallNull : Keyword "null" := ⟨"null".toList, by decide +kernel⟩

def smallTrue : Keyword "true" := ⟨"true".toList, by decide +kernel⟩

def smallFalse : Keyword "false" := ⟨"false".toList, by decide +kernel⟩

/-- The canonical name of a field. -/
def Field.canonicalName (f : Field) : FieldName :=
  ⟨f.name, f, by cases f <;> decide +kernel⟩

/-- The words that writing uses. -/
def writtenWords : List Text :=
  [capitalNot.word, capitalAnd.word, capitalOr.word, capitalIs.word, capitalIn.word,
   capitalOrder.word, capitalBy.word, capitalAsc.word, capitalDesc.word,
   smallNull.word, smallTrue.word, smallFalse.word] ++ Field.every.map Field.name

theorem isWholeWord_written : writtenWords.all isWholeWord = true := by decide +kernel

theorem Spells.written {w : Text} (hw : w ∈ writtenWords) : Spells w [.word w] :=
  Spells.word (List.all_eq_true.mp isWholeWord_written w hw)

theorem Field.spells_name (f : Field) : Spells f.name [f.canonicalName.lexeme] := by
  have hf : f ∈ Field.every := by cases f <;> decide
  exact Spells.written (List.mem_append.mpr (Or.inr (List.mem_map_of_mem hf)))

/-- A keyword that writing uses is spelled as its lexeme. -/
theorem Keyword.spells_word {w : String} {k : Keyword w} (hk : k.word ∈ writtenWords) :
    Spells k.word [k.lexeme] :=
  Spells.written hk

/-! ## Section 6: Values and conditions as they are written -/

mutual

/-- A value that can be typed is written as the lexemes of a tree for it. -/
theorem Literal.written : ∀ v : Literal, v.isTyped = true →
    ∃ tree : ValueTree, tree.literal = v ∧ Spells v.render tree.lexemes
  | .null, _ =>
    ⟨.atom smallNull.lexeme .null (.null smallNull.spells), rfl,
      Keyword.spells_word (by simp [writtenWords])⟩
  | .truth true, _ =>
    ⟨.atom smallTrue.lexeme (.truth true) (.isTrue smallTrue.spells), rfl,
      Keyword.spells_word (by simp [writtenWords])⟩
  | .truth false, _ =>
    ⟨.atom smallFalse.lexeme (.truth false) (.isFalse smallFalse.spells), rfl,
      Keyword.spells_word (by simp [writtenWords])⟩
  | .text t, _ => ⟨.atom _ (.text t) (.string t), rfl, Spells.string t⟩
  -- the empty list has a tree of its own
  | .list [], _ => ⟨.emptyList, rfl, Spells.nil.bracketed⟩
  | .list (v :: rest), h => by
    obtain ⟨tree, hliterals, hspells⟩ := Literal.written_items (v :: rest) (by simp) h
    exact ⟨.list tree, by rw [ValueTree.literal, hliterals], hspells.bracketed⟩

theorem Literal.written_items : ∀ items : List Literal, items ≠ [] →
    Literal.areTyped items = true →
    ∃ tree : ItemsTree, tree.literals = items ∧ Spells (Literal.renderItems items) tree.lexemes
  | [], hne, _ => absurd rfl hne
  | [v], _, h => by
    have hv : v.isTyped = true := by simpa [Literal.areTyped] using h
    obtain ⟨tree, rfl, hspells⟩ := Literal.written v hv
    exact ⟨.last tree, rfl, hspells⟩
  | v :: w :: rest, _, h => by
    rw [Literal.areTyped, Bool.and_eq_true] at h
    obtain ⟨tree, rfl, hspells⟩ := Literal.written v h.1
    obtain ⟨trees, hliterals, hrest⟩ := Literal.written_items (w :: rest) (by simp) h.2
    refine ⟨.more tree trees, by rw [ItemsTree.literals, hliterals], ?_⟩
    exact hspells.comma hrest

end

/-- An operator is written as the lexemes of a tree for it. -/
theorem Operator.written (op : Operator) :
    ∃ tree : OperatorTree, tree.operator = op ∧ ∀ {t : Text} {ls : List Lexeme},
      Spells t ls → Spells (op.symbol ++ ' ' :: t) (tree.lexemes ++ ls) := by
  have his : Spells "IS".toList [capitalIs.lexeme] :=
    Keyword.spells_word (by simp [writtenWords])
  have hin : Spells "IN".toList [capitalIn.lexeme] :=
    Keyword.spells_word (by simp [writtenWords])
  have hnot : Spells "NOT".toList [capitalNot.lexeme] :=
    Keyword.spells_word (by simp [writtenWords])
  -- a symbol is one lexeme, the other operators are one word or two
  by_cases hop : op.isSymbol = true
  · exact ⟨.symbol op, rfl, fun h => Spells.symbol hop h⟩
  · cases op <;> simp [Operator.isSymbol] at hop
    case is => exact ⟨.is capitalIs, rfl, fun h => his.space h⟩
    case isNot =>
      exact ⟨.isNot capitalIs capitalNot, rfl, fun h => his.space (hnot.space h)⟩
    case isIn => exact ⟨.isIn capitalIn, rfl, fun h => hin.space h⟩
    case notIn => exact ⟨.notIn capitalNot capitalIn, rfl, fun h => hnot.space (hin.space h)⟩

theorem Condition.written {c : Condition} (hc : c.Typed) :
    ∃ tree : ConditionTree, tree.condition = c ∧ Spells c.render tree.lexemes := by
  obtain ⟨f, op, v⟩ := c
  obtain ⟨value, rfl, hvalue⟩ := v.written hc.value
  obtain ⟨operator, rfl, hoperator⟩ := op.written
  refine ⟨⟨f.canonicalName, operator, value, hc.accepted, hc.fits⟩, rfl, ?_⟩
  have hspells := f.spells_name.space (hoperator hvalue)
  simpa [Condition.render, ConditionTree.lexemes] using hspells

/-! ## Section 7: Expressions as they are written -/

/-- A conjunction with one more operand. -/
def ConjunctionTree.snoc (k : Keyword "and") (u : OperandTree) : ConjunctionTree → ConjunctionTree
  | .last v => .joined v k (.last u)
  | .adjacent v rest => .adjacent v (rest.snoc k u)
  | .joined v k' rest => .joined v k' (rest.snoc k u)

theorem ConjunctionTree.lexemes_snoc (k : Keyword "and") (u : OperandTree) :
    ∀ c : ConjunctionTree, (c.snoc k u).lexemes = c.lexemes ++ k.lexeme :: u.lexemes
  | .last _ => rfl
  | .adjacent _ rest => by
    rw [snoc, lexemes, lexemes, rest.lexemes_snoc, List.append_assoc]
  | .joined _ _ rest => by
    rw [snoc, lexemes, lexemes, rest.lexemes_snoc, List.append_assoc, List.cons_append]

/-- The last operand of a chain is joined to all that stands before it. -/
theorem ConjunctionTree.exprAfter_snoc (k : Keyword "and") (u : OperandTree) :
    ∀ (c : ConjunctionTree) (left : Option Expr),
      (c.snoc k u).exprAfter left = .and (c.exprAfter left) u.expr
  | .last _, _ => rfl
  | .adjacent _ rest, _ => by rw [snoc, exprAfter, exprAfter, rest.exprAfter_snoc]
  | .joined _ _ rest, _ => by rw [snoc, exprAfter, exprAfter, rest.exprAfter_snoc]

theorem ConjunctionTree.nesting_snoc (k : Keyword "and") (u : OperandTree) :
    ∀ c : ConjunctionTree, (c.snoc k u).nesting = max c.nesting u.nesting
  | .last _ => rfl
  | .adjacent _ rest => by rw [snoc, nesting, nesting, rest.nesting_snoc, Nat.max_assoc]
  | .joined _ _ rest => by rw [snoc, nesting, nesting, rest.nesting_snoc, Nat.max_assoc]

/-- An alternative with one more operand. -/
def DisjunctionTree.snoc (k : Keyword "or") (c : ConjunctionTree) :
    DisjunctionTree → DisjunctionTree
  | .last c' => .joined c' k (.last c)
  | .joined c' k' rest => .joined c' k' (rest.snoc k c)

theorem DisjunctionTree.lexemes_snoc (k : Keyword "or") (c : ConjunctionTree) :
    ∀ d : DisjunctionTree, (d.snoc k c).lexemes = d.lexemes ++ k.lexeme :: c.lexemes
  | .last _ => rfl
  | .joined _ _ rest => by
    rw [snoc, lexemes, lexemes, rest.lexemes_snoc, List.append_assoc, List.cons_append]

theorem DisjunctionTree.exprAfter_snoc (k : Keyword "or") (c : ConjunctionTree) :
    ∀ (d : DisjunctionTree) (left : Option Expr),
      (d.snoc k c).exprAfter left = .or (d.exprAfter left) (c.exprAfter none)
  | .last _, _ => rfl
  | .joined _ _ rest, _ => by rw [snoc, exprAfter, exprAfter, rest.exprAfter_snoc]

theorem DisjunctionTree.nesting_snoc (k : Keyword "or") (c : ConjunctionTree) :
    ∀ d : DisjunctionTree, (d.snoc k c).nesting = max d.nesting c.nesting
  | .last _ => rfl
  | .joined _ _ rest => by rw [snoc, nesting, nesting, rest.nesting_snoc, Nat.max_assoc]

/-- Where an operand is due, the expression is written as the lexemes of an operand for it. -/
def Expr.WrittenAsOperand (e : Expr) : Prop :=
  ∃ u : OperandTree, u.expr = e ∧ u.nesting = e.nesting + e.isChain.toNat ∧
    Spells (parenthesize e.isChain e.render) u.lexemes

/-- Where a conjunction is due, the expression is written as the lexemes of one for it. -/
def Expr.WrittenAsConjunction (e : Expr) : Prop :=
  ∃ c : ConjunctionTree, c.exprAfter none = e ∧ c.nesting = e.nesting + e.isOr.toNat ∧
    Spells (parenthesize e.isOr e.render) c.lexemes

/-- The expression is written as the lexemes of an alternative for it. -/
def Expr.WrittenAsAlternative (e : Expr) : Prop :=
  ∃ d : DisjunctionTree, d.exprAfter none = e ∧ d.nesting = e.nesting ∧
    Spells e.render d.lexemes

section places
variable {e : Expr}

theorem Expr.WrittenAsOperand.conjunction (he : e.isChain = false) (h : e.WrittenAsOperand) :
    e.WrittenAsConjunction := by
  obtain ⟨u, hu, hnesting, hspells⟩ := h
  have hor : e.isOr = false := by
    have hle := e.isOr_le_isChain
    simpa [he] using hle
  rw [he] at hnesting hspells
  refine ⟨.last u, hu, ?_, ?_⟩
  · rw [hor]
    exact hnesting
  · rw [hor]
    exact hspells

theorem Expr.WrittenAsConjunction.alternative (he : e.isOr = false)
    (h : e.WrittenAsConjunction) : e.WrittenAsAlternative := by
  obtain ⟨c, hc, hnesting, hspells⟩ := h
  rw [he] at hnesting hspells
  exact ⟨.last c, hc, hnesting, hspells⟩

/-- Parentheses make an operand of a chain. -/
theorem Expr.WrittenAsAlternative.operand (he : e.isChain = true)
    (h : e.WrittenAsAlternative) : e.WrittenAsOperand := by
  obtain ⟨d, hd, hnesting, hspells⟩ := h
  refine ⟨.group d, hd, ?_, ?_⟩
  · rw [OperandTree.nesting, hnesting, he]
    rfl
  · rw [he]
    exact hspells.parenthesized

/-- Parentheses make a conjunction of an alternative. -/
theorem Expr.WrittenAsAlternative.conjunction (he : e.isOr = true)
    (h : e.WrittenAsAlternative) : e.WrittenAsConjunction := by
  obtain ⟨d, hd, hnesting, hspells⟩ := h
  refine ⟨.last (.group d), hd, ?_, ?_⟩
  · rw [ConjunctionTree.nesting, OperandTree.nesting, hnesting, he]
    rfl
  · rw [he]
    exact hspells.parenthesized

end places

theorem Expr.writtenAsOperand_cond {c : Condition} (hc : c.Typed) :
    (Expr.cond c).WrittenAsOperand := by
  obtain ⟨tree, rfl, hspells⟩ := Condition.written hc
  exact ⟨.condition tree, rfl, rfl, hspells⟩

theorem Expr.writtenAsOperand_not {e : Expr} (he : e.WrittenAsOperand) :
    e.not.WrittenAsOperand := by
  obtain ⟨u, rfl, hnesting, hspells⟩ := he
  have hnot : Spells "NOT".toList [capitalNot.lexeme] :=
    Keyword.spells_word (by simp [writtenWords])
  refine ⟨.negation capitalNot u, rfl, ?_, ?_⟩
  · rw [OperandTree.nesting, hnesting]
    rfl
  · exact hnot.space hspells

theorem Expr.writtenAsConjunction_and {l r : Expr} (hl : l.WrittenAsConjunction)
    (hr : r.WrittenAsOperand) : (l.and r).WrittenAsConjunction := by
  obtain ⟨c, rfl, hc, hspells⟩ := hl
  obtain ⟨u, rfl, hu, hspells'⟩ := hr
  have hand : Spells "AND".toList [capitalAnd.lexeme] :=
    Keyword.spells_word (by simp [writtenWords])
  refine ⟨c.snoc capitalAnd u, c.exprAfter_snoc capitalAnd u none, ?_, ?_⟩
  · rw [c.nesting_snoc, hc, hu]
    rfl
  · rw [c.lexemes_snoc]
    have hall := hspells.space (hand.space hspells')
    simpa [parenthesize, isOr, render] using hall

theorem Expr.writtenAsAlternative_or {l r : Expr} (hl : l.WrittenAsAlternative)
    (hr : r.WrittenAsConjunction) : (l.or r).WrittenAsAlternative := by
  obtain ⟨d, rfl, hd, hspells⟩ := hl
  obtain ⟨c, rfl, hc, hspells'⟩ := hr
  have hor : Spells "OR".toList [capitalOr.lexeme] :=
    Keyword.spells_word (by simp [writtenWords])
  refine ⟨d.snoc capitalOr c, d.exprAfter_snoc capitalOr c none, ?_, ?_⟩
  · rw [d.nesting_snoc, hd, hc]
    rfl
  · rw [d.lexemes_snoc]
    have hall := hspells.space (hor.space hspells')
    simpa [render] using hall

/-- An expression that can be typed is written as what each place asks for. -/
theorem Expr.written {e : Expr} (he : e.Typed) :
    e.WrittenAsOperand ∧ e.WrittenAsConjunction ∧ e.WrittenAsAlternative := by
  -- each constructor is at home in one place, from which the other two follow
  induction e with
  | cond c =>
    have hu := Expr.writtenAsOperand_cond he
    have hc := hu.conjunction rfl
    exact ⟨hu, hc, hc.alternative rfl⟩
  | not e ih =>
    have hu := Expr.writtenAsOperand_not (ih he).1
    have hc := hu.conjunction rfl
    exact ⟨hu, hc, hc.alternative rfl⟩
  | and l r ihl ihr =>
    have hc := Expr.writtenAsConjunction_and (ihl he.1).2.1 (ihr he.2).1
    have hd := hc.alternative rfl
    exact ⟨hd.operand rfl, hc, hd⟩
  | or l r ihl ihr =>
    have hd := Expr.writtenAsAlternative_or (ihl he.1).2.2 (ihr he.2).2.1
    exact ⟨hd.operand rfl, hd.conjunction rfl, hd⟩

/-! ## Section 8: Queries as they are written -/

theorem Direction.written (d : Direction) :
    ∃ tree : DirectionTree, tree.direction = d ∧ Spells d.word tree.lexemes := by
  cases d with
  | ascending =>
    exact ⟨.ascending capitalAsc, rfl, Keyword.spells_word (by simp [writtenWords])⟩
  | descending =>
    exact ⟨.descending capitalDesc, rfl, Keyword.spells_word (by simp [writtenWords])⟩

theorem OrderBy.render_eq (o : OrderBy) :
    o.render = "ORDER".toList ++ ' ' ::
      ("BY".toList ++ ' ' :: (o.field.name ++ ' ' :: o.direction.word)) := by
  have hwords : "ORDER BY ".toList = "ORDER".toList ++ ' ' :: ("BY".toList ++ [' ']) := by
    decide +kernel
  unfold OrderBy.render
  rw [hwords]
  simp only [List.append_assoc, List.cons_append, List.nil_append]

theorem OrderBy.written {o : OrderBy} (ho : o.field.sortable = true) :
    ∃ tree : OrderTree, tree.orderBy = o ∧ Spells o.render tree.lexemes := by
  obtain ⟨f, d⟩ := o
  obtain ⟨direction, rfl, hdirection⟩ := d.written
  have horder : Spells "ORDER".toList [capitalOrder.lexeme] :=
    Keyword.spells_word (by simp [writtenWords])
  have hby : Spells "BY".toList [capitalBy.lexeme] :=
    Keyword.spells_word (by simp [writtenWords])
  refine ⟨⟨capitalOrder, capitalBy, f.canonicalName, ho, direction⟩, rfl, ?_⟩
  rw [OrderBy.render_eq]
  exact horder.space (hby.space (f.spells_name.space hdirection))

/-- A query that can be typed is written as the lexemes of a derivation of it. -/
theorem Query.written {q : Query} (hq : q.Typed) :
    ∃ d : QueryTree, d.query = q ∧ d.nesting = q.nesting ∧ Spells q.render d.lexemes := by
  obtain ⟨e, o⟩ := q
  match e, o with
  | none, none => exact ⟨⟨none, none⟩, rfl, rfl, Spells.nil⟩
  | none, some o =>
    obtain ⟨order, rfl, horder⟩ := OrderBy.written (hq.sortable o rfl)
    refine ⟨⟨none, some order⟩, rfl, rfl, ?_⟩
    simpa [QueryTree.lexemes, render, Text.join] using horder
  | some e, none =>
    obtain ⟨d, rfl, hd, hspells⟩ := (Expr.written (hq.expression e rfl)).2.2
    refine ⟨⟨some d, none⟩, rfl, hd, ?_⟩
    simpa [QueryTree.lexemes, render, Text.join] using hspells
  | some e, some o =>
    obtain ⟨d, rfl, hd, hspells⟩ := (Expr.written (hq.expression e rfl)).2.2
    obtain ⟨order, rfl, horder⟩ := OrderBy.written (hq.sortable o rfl)
    refine ⟨⟨some d, some order⟩, rfl, hd, ?_⟩
    have hall := hspells.space horder
    simpa [QueryTree.lexemes, render, Text.join] using hall

/-- A query that can be typed and does not nest too deeply is read back from what it is written
    as. -/
theorem read_render {q : Query} (hq : q.Typed) (hnesting : q.nesting ≤ maxNesting) :
    Query.read q.render = .ok q := by
  obtain ⟨d, rfl, hd, hspells⟩ := Query.written hq
  obtain ⟨herror, hlex⟩ := hspells.lex_eq
  exact read_of_lexemes herror hlex.symm (hd ▸ hnesting)

/-- What was read is typed, and no text for it nests less than what it is written as. -/
theorem typed_of_read {t : Text} {q : Query} (h : Query.read t = .ok q) :
    q.Typed ∧ q.nesting ≤ maxNesting := by
  obtain ⟨-, d, -, rfl, hd⟩ := exists_tree_of_read h
  exact ⟨d.typed, Nat.le_trans d.nesting_query_le hd⟩

/-- **Saved filters round-trip**: a query that was read is read back from the text it is saved
    as, so that text is a fixed point, and nests no deeper than the text it came from. -/
theorem read_render_of_read {t : Text} {q : Query} (h : Query.read t = .ok q) :
    Query.read q.render = .ok q ∧
    (∀ title, ∃ f, CompiledFilter.ofText t = .ok f ∧
      (SavedFilter.ofCompiled title f).compile = .ok { text := q.render, query := q }) ∧
    (∀ d : QueryTree, d.lexemes = (lex t).tokens.map Token.lexeme →
      ∃ d' : QueryTree, d'.lexemes = (lex q.render).tokens.map Token.lexeme ∧
        d'.query = q ∧ d'.nesting ≤ d.nesting) := by
  obtain ⟨hq, hnesting⟩ := typed_of_read h
  have hread := read_render hq hnesting
  refine ⟨hread, ?_, ?_⟩
  · intro title
    refine ⟨{ text := t, query := q }, by rw [CompiledFilter.ofText, h]; rfl, ?_⟩
    show (Query.read q.render).map _ = _
    rw [hread]
    rfl
  · intro d hd
    -- the text has one derivation only, so `d` is the one that was read
    obtain ⟨-, source, hsource, rfl, -⟩ := exists_tree_of_read h
    obtain rfl := QueryTree.eq_of_lexemes (hd.trans hsource.symm)
    obtain ⟨d', hd', hnesting', hspells⟩ := Query.written hq
    refine ⟨d', hspells.lex_eq.2.symm, hd', ?_⟩
    rw [hnesting']
    exact d.nesting_query_le

/-- A typed query in small letters, with other names of fields and bare words as values: it is
    saved with the parentheses it needs. -/
theorem read_render_of_read_due :
    ∃ q, Query.read "not (tag=a or body=b) order by due".toList = .ok q ∧
      q.render = "NOT (tags = 'a' OR body = 'b') ORDER BY due_date ASC".toList ∧
      Query.read q.render = .ok q := by
  have hread : (Query.read "not (tag=a or body=b) order by due".toList).toOption.map
      Query.render =
        some "NOT (tags = 'a' OR body = 'b') ORDER BY due_date ASC".toList := by
    decide +kernel
  cases h : Query.read "not (tag=a or body=b) order by due".toList with
  | error e =>
    rw [h] at hread
    cases hread
  | ok q =>
    rw [h] at hread
    exact ⟨q, rfl, Option.some.inj hread, (read_render_of_read h).1⟩

end Agenda.Filter
