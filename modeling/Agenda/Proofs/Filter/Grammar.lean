import Mathlib.Logic.Function.Basic
import Agenda.Filter.Reader

/-! # Derivations of queries

    The grammar of queries as a type of derivation trees.  A tree carries what makes it one
    (keywords are spelled as such, fields exist, operators and values fit their fields), and
    tells the lexemes that it derives, the query that it stands for, and how deeply it nests
    negations and parentheses.

    The grammar is unambiguous: a row of lexemes has at most one tree
    (`QueryTree.lexemes_injective`). -/

namespace Agenda.Filter

/-! ## Section 1: Words -/

/-- Is the lexeme this word, whatever its case?  `w` is in small letters. -/
def Lexeme.isWord (w : Text) : Lexeme → Bool
  | .word v => Text.lower v == w
  | _ => false

/-- Does an operand begin with this lexeme, or try to? -/
def Lexeme.beginsOperand : Lexeme → Bool
  | .openParen => true
  | .word w =>
    Text.lower w == "not".toList ||
      !(["and".toList, "or".toList, "order".toList].contains (Text.lower w))
  | _ => false

/-- A word that spells `w`, whatever its case. -/
structure Keyword (w : String) where
  word   : Text
  spells : Text.lower word = w.toList

/-- The lexeme that a keyword is. -/
def Keyword.lexeme {w : String} (k : Keyword w) : Lexeme := .word k.word

theorem Keyword.isWord_lexeme {w : String} (k : Keyword w) (v : Text) :
    k.lexeme.isWord v = (w.toList == v) := by
  simp [Keyword.lexeme, Lexeme.isWord, k.spells]

theorem Keyword.lexeme_inj {w : String} {k k' : Keyword w} (h : k.lexeme = k'.lexeme) :
    k = k' := by
  obtain ⟨v, hv⟩ := k
  obtain ⟨v', hv'⟩ := k'
  simp only [Keyword.lexeme, Lexeme.word.injEq] at h
  subst h
  rfl

/-- Two keywords of one spelling are one keyword. -/
theorem Keyword.eq_of_lexeme_eq {w v : String} {k : Keyword w} {k' : Keyword v}
    (h : k.lexeme = k'.lexeme) : w = v := by
  simp only [Keyword.lexeme, Lexeme.word.injEq] at h
  have hw := k.spells
  rw [h, k'.spells] at hw
  exact (String.toList_injective hw).symm

/-- A word that names a field. -/
structure FieldName where
  word  : Text
  field : Field
  found : Field.find? word = some field

/-- The lexeme that the name of a field is. -/
def FieldName.lexeme (n : FieldName) : Lexeme := .word n.word

theorem FieldName.lexeme_inj {n n' : FieldName} (h : n.lexeme = n'.lexeme) : n = n' := by
  obtain ⟨w, f, hf⟩ := n
  obtain ⟨w', f', hf'⟩ := n'
  simp only [FieldName.lexeme, Lexeme.word.injEq] at h
  subst h
  obtain rfl : f = f' := by rw [hf] at hf'; exact Option.some.inj hf'
  rfl

/-- The words that join operands, negate them, or end an expression. -/
def reservedWords : List Text := ["and".toList, "or".toList, "not".toList, "order".toList]

theorem names_notMem_reservedWords (f : Field) :
    ∀ w ∈ f.name :: f.aliases, w ∉ reservedWords := by
  cases f <;> decide +kernel

theorem lower_mem_of_find? {w : Text} {f : Field} (h : Field.find? w = some f) :
    Text.lower w ∈ f.name :: f.aliases := by
  have hf := List.find?_some h
  simp only [Bool.or_eq_true, beq_iff_eq, List.contains_iff_mem] at hf
  rcases hf with hf | hf
  · exact List.mem_cons.mpr (Or.inl hf.symm)
  · exact List.mem_cons_of_mem _ hf

/-- No reserved word names a field. -/
theorem FieldName.lower_notMem (n : FieldName) : Text.lower n.word ∉ reservedWords :=
  names_notMem_reservedWords n.field _ (lower_mem_of_find? n.found)

theorem FieldName.isWord_lexeme (n : FieldName) {v : Text} (hv : v ∈ reservedWords) :
    n.lexeme.isWord v = false := by
  simp only [FieldName.lexeme, Lexeme.isWord, beq_eq_false_iff_ne, ne_eq]
  rintro rfl
  exact n.lower_notMem hv

/-- The name of a field begins a condition. -/
theorem FieldName.beginsOperand_lexeme (n : FieldName) : n.lexeme.beginsOperand = true := by
  have h := n.lower_notMem
  simp [reservedWords] at h
  simp [FieldName.lexeme, Lexeme.beginsOperand, h]

theorem FieldName.lexeme_ne_keyword (n : FieldName) {w : String} (k : Keyword w)
    (hw : w.toList ∈ reservedWords) : n.lexeme ≠ k.lexeme := by
  intro h
  have hn := n.isWord_lexeme hw
  rw [h, k.isWord_lexeme] at hn
  simp at hn

/-! ## Section 2: Values and conditions -/

/-- What one lexeme is as a value: a string, a number, or a word, which stands for itself
    whatever it spells, but for the null value and the truth values. -/
inductive Atom : Lexeme → Literal → Prop where
  | string (t : Text) : Atom (.string t) (.text t)
  | number (t : Text) : Atom (.number t) (.text t)
  | null {w : Text} (h : Text.lower w = "null".toList) : Atom (.word w) .null
  | isTrue {w : Text} (h : Text.lower w = "true".toList) : Atom (.word w) (.truth true)
  | isFalse {w : Text} (h : Text.lower w = "false".toList) : Atom (.word w) (.truth false)
  | word {w : Text} (h : Text.lower w ∉ ["null".toList, "true".toList, "false".toList]) :
      Atom (.word w) (.text w)

mutual

/-- `value := string | number | word | '[' [value (',' value)*] ']'` -/
inductive ValueTree where
  | atom (lexeme : Lexeme) (value : Literal) (spelled : Atom lexeme value)
  | emptyList
  | list (items : ItemsTree)

/-- `value (',' value)*` -/
inductive ItemsTree where
  | last (value : ValueTree)
  | more (value : ValueTree) (rest : ItemsTree)

end

mutual

/-- The lexemes of a value. -/
def ValueTree.lexemes : ValueTree → List Lexeme
  | .atom l _ _ => [l]
  | .emptyList => [.openBracket, .closeBracket]
  | .list items => .openBracket :: items.lexemes ++ [.closeBracket]

/-- The lexemes of the items of a list. -/
def ItemsTree.lexemes : ItemsTree → List Lexeme
  | .last v => v.lexemes
  | .more v rest => v.lexemes ++ .comma :: rest.lexemes

end

mutual

/-- The value that a tree stands for. -/
def ValueTree.literal : ValueTree → Literal
  | .atom _ v _ => v
  | .emptyList => .list []
  | .list items => .list items.literals

/-- The items that a tree stands for. -/
def ItemsTree.literals : ItemsTree → List Literal
  | .last v => [v.literal]
  | .more v rest => v.literal :: rest.literals

end

/-- `operator := = | != | =~ | !~ | > | < | >= | <= | IS [NOT] | IN | NOT IN` -/
inductive OperatorTree where
  | symbol (op : Operator)
  | is (word : Keyword "is")
  | isNot (word : Keyword "is") (negation : Keyword "not")
  | isIn (word : Keyword "in")
  | notIn (negation : Keyword "not") (word : Keyword "in")

/-- The lexemes of an operator. -/
def OperatorTree.lexemes : OperatorTree → List Lexeme
  | .symbol op => [.op op]
  | .is k => [k.lexeme]
  | .isNot k n => [k.lexeme, n.lexeme]
  | .isIn k => [k.lexeme]
  | .notIn n k => [n.lexeme, k.lexeme]

/-- The operator that a tree stands for. -/
def OperatorTree.operator : OperatorTree → Operator
  | .symbol op => op
  | .is _ => .is
  | .isNot _ _ => .isNot
  | .isIn _ => .isIn
  | .notIn _ _ => .notIn

/-- `condition := field operator value`, where the field accepts the operator and can be
    compared with the value. -/
structure ConditionTree where
  name     : FieldName
  operator : OperatorTree
  value    : ValueTree
  accepted : name.field.accepts operator.operator = true
  fits     : Reader.checkValue name.field operator.operator value.literal = none

/-- The lexemes of a condition. -/
def ConditionTree.lexemes (c : ConditionTree) : List Lexeme :=
  c.name.lexeme :: (c.operator.lexemes ++ c.value.lexemes)

/-- The condition that a tree stands for. -/
def ConditionTree.condition (c : ConditionTree) : Condition :=
  ⟨c.name.field, c.operator.operator, c.value.literal⟩

/-! ## Section 3: Expressions -/

mutual

/-- `unary := NOT unary | '(' or ')' | condition` -/
inductive OperandTree where
  | negation (word : Keyword "not") (operand : OperandTree)
  | group (body : DisjunctionTree)
  | condition (c : ConditionTree)

/-- `and := unary ([AND] unary)*` -/
inductive ConjunctionTree where
  | last (operand : OperandTree)
  | adjacent (operand : OperandTree) (rest : ConjunctionTree)
  | joined (operand : OperandTree) (word : Keyword "and") (rest : ConjunctionTree)

/-- `or := and (OR and)*` -/
inductive DisjunctionTree where
  | last (operand : ConjunctionTree)
  | joined (operand : ConjunctionTree) (word : Keyword "or") (rest : DisjunctionTree)

end

mutual

/-- The lexemes of an operand. -/
def OperandTree.lexemes : OperandTree → List Lexeme
  | .negation k u => k.lexeme :: u.lexemes
  | .group d => .openParen :: d.lexemes ++ [.closeParen]
  | .condition c => c.lexemes

/-- The lexemes of a conjunction. -/
def ConjunctionTree.lexemes : ConjunctionTree → List Lexeme
  | .last u => u.lexemes
  | .adjacent u rest => u.lexemes ++ rest.lexemes
  | .joined u k rest => u.lexemes ++ k.lexeme :: rest.lexemes

/-- The lexemes of an alternative. -/
def DisjunctionTree.lexemes : DisjunctionTree → List Lexeme
  | .last c => c.lexemes
  | .joined c k rest => c.lexemes ++ k.lexeme :: rest.lexemes

end

/-- Join an operand to what stands to its left, if anything does. -/
def joinLeft (join : Expr → Expr → Expr) (left : Option Expr) (e : Expr) : Expr :=
  match left with
  | some l => join l e
  | none => e

mutual

/-- The expression that an operand stands for. -/
def OperandTree.expr : OperandTree → Expr
  | .negation _ u => .not u.expr
  | .group d => d.exprAfter none
  | .condition c => .cond c.condition

/-- The conjunction of `left` with the operands, one after another: chains lean to the
    left. -/
def ConjunctionTree.exprAfter (left : Option Expr) : ConjunctionTree → Expr
  | .last u => joinLeft .and left u.expr
  | .adjacent u rest => rest.exprAfter (some (joinLeft .and left u.expr))
  | .joined u _ rest => rest.exprAfter (some (joinLeft .and left u.expr))

/-- The alternative of `left` with the operands, one after another. -/
def DisjunctionTree.exprAfter (left : Option Expr) : DisjunctionTree → Expr
  | .last c => joinLeft .or left (c.exprAfter none)
  | .joined c _ rest => rest.exprAfter (some (joinLeft .or left (c.exprAfter none)))

end

mutual

/-- How many negations and parentheses are open at once, at most. -/
def OperandTree.nesting : OperandTree → Nat
  | .negation _ u => u.nesting + 1
  | .group d => d.nesting + 1
  | .condition _ => 0

/-- How many negations and parentheses are open at once: neighbours do not add up. -/
def ConjunctionTree.nesting : ConjunctionTree → Nat
  | .last u => u.nesting
  | .adjacent u rest => max u.nesting rest.nesting
  | .joined u _ rest => max u.nesting rest.nesting

/-- How many negations and parentheses are open at once: neighbours do not add up. -/
def DisjunctionTree.nesting : DisjunctionTree → Nat
  | .last c => c.nesting
  | .joined c _ rest => max c.nesting rest.nesting

end

/-! ## Section 4: Queries -/

/-- `[ASC | DESC]` -/
inductive DirectionTree where
  | absent
  | ascending (word : Keyword "asc")
  | descending (word : Keyword "desc")

/-- The lexemes of a direction. -/
def DirectionTree.lexemes : DirectionTree → List Lexeme
  | .absent => []
  | .ascending k => [k.lexeme]
  | .descending k => [k.lexeme]

/-- The direction that a tree stands for; without a word it ascends. -/
def DirectionTree.direction : DirectionTree → Direction
  | .absent => .ascending
  | .ascending _ => .ascending
  | .descending _ => .descending

/-- `ORDER BY field [ASC | DESC]`, where results can be ordered by the field. -/
structure OrderTree where
  orderWord : Keyword "order"
  byWord    : Keyword "by"
  name      : FieldName
  sortable  : name.field.sortable = true
  direction : DirectionTree

/-- The lexemes of an order. -/
def OrderTree.lexemes (o : OrderTree) : List Lexeme :=
  o.orderWord.lexeme :: o.byWord.lexeme :: o.name.lexeme :: o.direction.lexemes

/-- The order that a tree stands for. -/
def OrderTree.orderBy (o : OrderTree) : OrderBy := ⟨o.name.field, o.direction.direction⟩

/-- `query := [or] [ORDER BY field [ASC | DESC]]` -/
structure QueryTree where
  expression : Option DisjunctionTree
  order      : Option OrderTree

namespace QueryTree

/-- The lexemes of a query. -/
def lexemes (d : QueryTree) : List Lexeme :=
  (d.expression.elim [] DisjunctionTree.lexemes) ++ (d.order.elim [] OrderTree.lexemes)

/-- The query that a tree stands for. -/
def query (d : QueryTree) : Query :=
  { expression := d.expression.map (DisjunctionTree.exprAfter none)
    orderBy := d.order.map OrderTree.orderBy }

/-- How many negations and parentheses are open at once, at most. -/
def nesting (d : QueryTree) : Nat := d.expression.elim 0 DisjunctionTree.nesting

end QueryTree

/-! ## Section 5: No two trees for one row of lexemes -/

theorem Atom.eq_of_atom {l : Lexeme} {v v' : Literal} (h : Atom l v) (h' : Atom l v') :
    v = v' := by
  have hnull : "null".toList ≠ "true".toList := by simp
  have hnull' : "null".toList ≠ "false".toList := by simp
  have htrue : "true".toList ≠ "false".toList := by simp
  cases h <;> cases h' <;> simp_all

/-- No value begins with a closing bracket. -/
theorem ValueTree.lexemes_ne_closeBracket (v : ValueTree) (r r' : List Lexeme) :
    v.lexemes ++ r ≠ .closeBracket :: r' := by
  intro h
  cases v with
  | atom l lit spelled =>
    simp only [ValueTree.lexemes, List.cons_append, List.cons.injEq] at h
    rw [h.1] at spelled
    cases spelled
  | emptyList => simp [ValueTree.lexemes] at h
  | list items => simp [ValueTree.lexemes] at h

theorem ItemsTree.lexemes_ne_closeBracket (items : ItemsTree) (r r' : List Lexeme) :
    items.lexemes ++ r ≠ .closeBracket :: r' := by
  cases items with
  | last v => exact v.lexemes_ne_closeBracket r r'
  | more v rest =>
    simp only [ItemsTree.lexemes, List.append_assoc]
    exact v.lexemes_ne_closeBracket _ r'

mutual

/-- A value ends where its lexemes say. -/
theorem ValueTree.eq_of_append : ∀ (v v' : ValueTree) {r r' : List Lexeme},
    v.lexemes ++ r = v'.lexemes ++ r' → v = v' ∧ r = r'
  | .atom l lit spelled, .atom l' lit' spelled', r, r', h => by
    simp only [ValueTree.lexemes, List.cons_append, List.nil_append, List.cons.injEq] at h
    obtain ⟨rfl, rfl⟩ := h
    obtain rfl := spelled.eq_of_atom spelled'
    exact ⟨rfl, rfl⟩
  | .atom l lit spelled, .emptyList, r, r', h => by
    simp only [ValueTree.lexemes, List.cons_append, List.cons.injEq] at h
    rw [h.1] at spelled
    cases spelled
  | .atom l lit spelled, .list items, r, r', h => by
    simp only [ValueTree.lexemes, List.cons_append, List.cons.injEq] at h
    rw [h.1] at spelled
    cases spelled
  | .emptyList, .atom l lit spelled, r, r', h => by
    simp only [ValueTree.lexemes, List.cons_append, List.cons.injEq] at h
    rw [← h.1] at spelled
    cases spelled
  | .emptyList, .emptyList, r, r', h => by
    simpa [ValueTree.lexemes] using h
  | .emptyList, .list items, r, r', h => by
    simp only [ValueTree.lexemes, List.cons_append, List.append_assoc, List.cons.injEq,
      true_and] at h
    -- a list with items does not begin with its closing bracket
    exact absurd h.symm (items.lexemes_ne_closeBracket _ _)
  | .list items, .atom l lit spelled, r, r', h => by
    simp only [ValueTree.lexemes, List.cons_append, List.cons.injEq] at h
    rw [← h.1] at spelled
    cases spelled
  | .list items, .emptyList, r, r', h => by
    simp only [ValueTree.lexemes, List.cons_append, List.append_assoc, List.cons.injEq,
      true_and] at h
    exact absurd h (items.lexemes_ne_closeBracket _ _)
  | .list items, .list items', r, r', h => by
    simp only [ValueTree.lexemes, List.cons_append, List.append_assoc, List.cons.injEq,
      true_and, List.nil_append] at h
    obtain ⟨rfl, rfl⟩ := ItemsTree.eq_of_append items items' h
    exact ⟨rfl, rfl⟩

/-- The items of a list end at its closing bracket. -/
theorem ItemsTree.eq_of_append : ∀ (items items' : ItemsTree) {r r' : List Lexeme},
    items.lexemes ++ .closeBracket :: r = items'.lexemes ++ .closeBracket :: r' →
      items = items' ∧ r = r'
  | .last v, .last v', r, r', h => by
    obtain ⟨rfl, h⟩ := ValueTree.eq_of_append v v' h
    exact ⟨rfl, by simpa using h⟩
  -- after the last item stands a bracket, after any other one a comma
  | .last v, .more v' rest', r, r', h => by
    simp only [ItemsTree.lexemes, List.append_assoc, List.cons_append] at h
    obtain ⟨-, h⟩ := ValueTree.eq_of_append v v' h
    simp at h
  | .more v rest, .last v', r, r', h => by
    simp only [ItemsTree.lexemes, List.append_assoc, List.cons_append] at h
    obtain ⟨-, h⟩ := ValueTree.eq_of_append v v' h
    simp at h
  | .more v rest, .more v' rest', r, r', h => by
    simp only [ItemsTree.lexemes, List.append_assoc, List.cons_append] at h
    obtain ⟨rfl, hrest⟩ := ValueTree.eq_of_append v v' h
    simp only [List.cons.injEq, true_and] at hrest
    obtain ⟨rfl, rfl⟩ := ItemsTree.eq_of_append rest rest' hrest
    exact ⟨rfl, rfl⟩

end

/-- A value that begins with the word `NOT` is that word. -/
theorem ValueTree.literal_of_not {v : ValueTree} {k : Keyword "not"} {r r' : List Lexeme}
    (h : v.lexemes ++ r = k.lexeme :: r') : v.literal = .text k.word := by
  cases v with
  | atom l lit spelled =>
    simp only [ValueTree.lexemes, List.cons_append, List.cons.injEq, Keyword.lexeme] at h
    obtain ⟨rfl, -⟩ := h
    have hword : Text.lower k.word ∉ ["null".toList, "true".toList, "false".toList] := by
      rw [k.spells]
      simp
    exact spelled.eq_of_atom (.word hword)
  | emptyList => simp [ValueTree.lexemes, Keyword.lexeme] at h
  | list items => simp [ValueTree.lexemes, Keyword.lexeme] at h

/-- `IS` is compared with null alone, so it is not followed by the word `NOT` as a value. -/
theorem ValueTree.not_fits_is {v : ValueTree} {k : Keyword "not"} {r r' : List Lexeme}
    {f : Field} (h : v.lexemes ++ r = k.lexeme :: r') :
    Reader.checkValue f .is v.literal ≠ none := by
  simp [v.literal_of_not h, Reader.checkValue, Reader.isNull]

/-- Where an operator ends and its value begins is settled by what fits. -/
theorem OperatorTree.eq_of_append {f : Field} {o o' : OperatorTree} {v v' : ValueTree}
    {r r' : List Lexeme} (hfits : Reader.checkValue f o.operator v.literal = none)
    (hfits' : Reader.checkValue f o'.operator v'.literal = none)
    (h : o.lexemes ++ (v.lexemes ++ r) = o'.lexemes ++ (v'.lexemes ++ r')) :
    o = o' ∧ v = v' ∧ r = r' := by
  cases o <;> cases o' <;>
    simp only [OperatorTree.lexemes, List.cons_append, List.nil_append, List.cons.injEq] at h
  case symbol.symbol op op' =>
    obtain ⟨hop, h⟩ := h
    obtain rfl : op = op' := by simpa using hop
    simpa using v.eq_of_append v' h
  case is.is k k' =>
    obtain rfl := Keyword.lexeme_inj h.1
    simpa using v.eq_of_append v' h.2
  case is.isNot k k' n => exact absurd hfits (ValueTree.not_fits_is h.2)
  case isNot.is k n k' => exact absurd hfits' (ValueTree.not_fits_is h.2.symm)
  case isNot.isNot k n k' n' =>
    obtain ⟨hk, hn, h⟩ := h
    obtain rfl := Keyword.lexeme_inj hk
    obtain rfl := Keyword.lexeme_inj hn
    simpa using v.eq_of_append v' h
  case isIn.isIn k k' =>
    obtain rfl := Keyword.lexeme_inj h.1
    simpa using v.eq_of_append v' h.2
  case notIn.notIn n k n' k' =>
    obtain ⟨hn, hk, h⟩ := h
    obtain rfl := Keyword.lexeme_inj hk
    obtain rfl := Keyword.lexeme_inj hn
    simpa using v.eq_of_append v' h
  case is.isIn | is.notIn | isNot.isIn | isNot.notIn | isIn.is | isIn.isNot | isIn.notIn
      | notIn.is | notIn.isNot | notIn.isIn =>
    exact absurd (Keyword.eq_of_lexeme_eq h.1) (by decide)
  -- a symbol is no word
  all_goals simp [Keyword.lexeme] at h

theorem ConditionTree.eq_of_append {c c' : ConditionTree} {r r' : List Lexeme}
    (h : c.lexemes ++ r = c'.lexemes ++ r') : c = c' ∧ r = r' := by
  -- the fields agree, so both values are checked against one field
  obtain ⟨n, o, v, hacc, hfits⟩ := c
  obtain ⟨n', o', v', hacc', hfits'⟩ := c'
  simp only [ConditionTree.lexemes, List.cons_append, List.append_assoc, List.cons.injEq] at h
  obtain ⟨hn, h⟩ := h
  obtain rfl := FieldName.lexeme_inj hn
  obtain ⟨rfl, rfl, rfl⟩ := OperatorTree.eq_of_append hfits hfits' h
  exact ⟨rfl, rfl⟩

/-- What follows goes on neither with `AND` nor with a further operand. -/
def EndsConjunction (r : List Lexeme) : Prop :=
  ∀ l ∈ r.head?, l.isWord "and".toList = false ∧ l.beginsOperand = false

/-- What follows goes on with no connective and no further operand. -/
def EndsDisjunction (r : List Lexeme) : Prop :=
  EndsConjunction r ∧ ∀ l ∈ r.head?, l.isWord "or".toList = false

/-- Every operand begins with a lexeme that begins operands, and with no `AND`. -/
theorem OperandTree.exists_head (u : OperandTree) :
    ∃ l rest, u.lexemes = l :: rest ∧ l.beginsOperand = true ∧
      l.isWord "and".toList = false := by
  cases u with
  | negation k u =>
    refine ⟨k.lexeme, u.lexemes, rfl, ?_, ?_⟩
    · simp [Keyword.lexeme, Lexeme.beginsOperand, k.spells]
    · rw [k.isWord_lexeme]
      simp
  | group d => exact ⟨.openParen, d.lexemes ++ [.closeParen], rfl, rfl, rfl⟩
  | condition c =>
    exact ⟨c.name.lexeme, _, rfl, c.name.beginsOperand_lexeme,
      c.name.isWord_lexeme (by simp [reservedWords])⟩

theorem ConjunctionTree.exists_head (c : ConjunctionTree) :
    ∃ l rest, c.lexemes = l :: rest ∧ l.beginsOperand = true ∧
      l.isWord "and".toList = false := by
  cases c with
  | last u => exact u.exists_head
  | adjacent u rest =>
    obtain ⟨l, ls, h, hl⟩ := u.exists_head
    exact ⟨l, ls ++ rest.lexemes, by rw [ConjunctionTree.lexemes, h]; rfl, hl⟩
  | joined u k rest =>
    obtain ⟨l, ls, h, hl⟩ := u.exists_head
    exact ⟨l, ls ++ k.lexeme :: rest.lexemes, by rw [ConjunctionTree.lexemes, h]; rfl, hl⟩

/-- After a conjunction stands no connective that it could go on with: what begins with a
    further conjunction does not end one. -/
theorem ConjunctionTree.not_endsConjunction (c : ConjunctionTree) (r : List Lexeme) :
    ¬EndsConjunction (c.lexemes ++ r) := by
  obtain ⟨l, ls, h, hl, -⟩ := c.exists_head
  intro hends
  have := (hends l (by simp [h])).2
  simp [hl] at this

theorem ConjunctionTree.lexemes_ne_and (c : ConjunctionTree) (k : Keyword "and")
    (r r' : List Lexeme) : c.lexemes ++ r ≠ k.lexeme :: r' := by
  obtain ⟨l, ls, hl, -, hand⟩ := c.exists_head
  intro h
  rw [hl, List.cons_append, List.cons.injEq] at h
  rw [h.1, k.isWord_lexeme] at hand
  simp at hand

theorem Keyword.not_endsConjunction (k : Keyword "and") (r : List Lexeme) :
    ¬EndsConjunction (k.lexeme :: r) := by
  intro hends
  have := (hends k.lexeme (by simp)).1
  simp [k.isWord_lexeme] at this

theorem Keyword.not_endsDisjunction (k : Keyword "or") (r : List Lexeme) :
    ¬EndsDisjunction (k.lexeme :: r) := by
  intro hends
  have := hends.2 k.lexeme (by simp)
  simp [k.isWord_lexeme] at this

/-- An `OR` ends a conjunction. -/
theorem Keyword.endsConjunction_or (k : Keyword "or") (r : List Lexeme) :
    EndsConjunction (k.lexeme :: r) := by
  intro l hl
  obtain rfl : k.lexeme = l := by simpa using hl
  refine ⟨?_, ?_⟩
  · rw [k.isWord_lexeme]
    simp
  · simp [Keyword.lexeme, Lexeme.beginsOperand, k.spells]

/-- A closing parenthesis ends an alternative. -/
theorem endsDisjunction_closeParen (r : List Lexeme) : EndsDisjunction (.closeParen :: r) := by
  refine ⟨?_, ?_⟩ <;> rintro l ⟨⟩ <;> simp [Lexeme.isWord, Lexeme.beginsOperand]

mutual

/-- An operand ends where its lexemes say. -/
theorem OperandTree.eq_of_append : ∀ (u u' : OperandTree) {r r' : List Lexeme},
    u.lexemes ++ r = u'.lexemes ++ r' → u = u' ∧ r = r'
  | .negation k u, .negation k' u', r, r', h => by
    simp only [OperandTree.lexemes, List.cons_append, List.cons.injEq] at h
    obtain rfl := Keyword.lexeme_inj h.1
    obtain ⟨rfl, rfl⟩ := OperandTree.eq_of_append u u' h.2
    exact ⟨rfl, rfl⟩
  | .negation k u, .group d, r, r', h => by
    simp [OperandTree.lexemes, Keyword.lexeme] at h
  | .negation k u, .condition c, r, r', h => by
    simp only [OperandTree.lexemes, ConditionTree.lexemes, List.cons_append,
      List.cons.injEq] at h
    -- no field is named `NOT`
    exact absurd h.1.symm (c.name.lexeme_ne_keyword k (by simp [reservedWords]))
  | .group d, .negation k u, r, r', h => by
    simp [OperandTree.lexemes, Keyword.lexeme] at h
  | .group d, .group d', r, r', h => by
    simp only [OperandTree.lexemes, List.cons_append, List.append_assoc, List.cons.injEq,
      true_and, List.nil_append] at h
    obtain ⟨rfl, hr⟩ := DisjunctionTree.eq_of_append d d'
      (endsDisjunction_closeParen r) (endsDisjunction_closeParen r') h
    exact ⟨rfl, by simpa using hr⟩
  | .group d, .condition c, r, r', h => by
    simp [OperandTree.lexemes, ConditionTree.lexemes, FieldName.lexeme] at h
  | .condition c, .negation k u, r, r', h => by
    simp only [OperandTree.lexemes, ConditionTree.lexemes, List.cons_append,
      List.cons.injEq] at h
    exact absurd h.1 (c.name.lexeme_ne_keyword k (by simp [reservedWords]))
  | .condition c, .group d, r, r', h => by
    simp [OperandTree.lexemes, ConditionTree.lexemes, FieldName.lexeme] at h
  | .condition c, .condition c', r, r', h => by
    obtain ⟨rfl, rfl⟩ := ConditionTree.eq_of_append h
    exact ⟨rfl, rfl⟩

/-- A conjunction ends where nothing goes on with it. -/
theorem ConjunctionTree.eq_of_append : ∀ (c c' : ConjunctionTree) {r r' : List Lexeme},
    EndsConjunction r → EndsConjunction r' → c.lexemes ++ r = c'.lexemes ++ r' →
      c = c' ∧ r = r'
  | .last u, .last u', r, r', _, _, h => by
    obtain ⟨rfl, rfl⟩ := OperandTree.eq_of_append u u' h
    exact ⟨rfl, rfl⟩
  -- one conjunction would end where the other goes on
  | .last u, .adjacent u' rest', r, r', hr, _, h => by
    rw [ConjunctionTree.lexemes, ConjunctionTree.lexemes, List.append_assoc] at h
    obtain ⟨-, rfl⟩ := OperandTree.eq_of_append u u' h
    exact absurd hr (rest'.not_endsConjunction r')
  | .last u, .joined u' k rest', r, r', hr, _, h => by
    rw [ConjunctionTree.lexemes, ConjunctionTree.lexemes, List.append_assoc] at h
    obtain ⟨-, rfl⟩ := OperandTree.eq_of_append u u' h
    exact absurd hr (k.not_endsConjunction _)
  | .adjacent u rest, .last u', r, r', _, hr', h => by
    rw [ConjunctionTree.lexemes, ConjunctionTree.lexemes, List.append_assoc] at h
    obtain ⟨-, rfl⟩ := OperandTree.eq_of_append u u' h
    exact absurd hr' (rest.not_endsConjunction r)
  | .adjacent u rest, .adjacent u' rest', r, r', hr, hr', h => by
    simp only [ConjunctionTree.lexemes, List.append_assoc] at h
    obtain ⟨rfl, hrest⟩ := OperandTree.eq_of_append u u' h
    obtain ⟨rfl, rfl⟩ := ConjunctionTree.eq_of_append rest rest' hr hr' hrest
    exact ⟨rfl, rfl⟩
  -- no conjunction begins with `AND`
  | .adjacent u rest, .joined u' k rest', r, r', _, _, h => by
    simp only [ConjunctionTree.lexemes, List.append_assoc] at h
    obtain ⟨-, hrest⟩ := OperandTree.eq_of_append u u' h
    exact absurd hrest (rest.lexemes_ne_and k _ _)
  | .joined u k rest, .last u', r, r', _, hr', h => by
    rw [ConjunctionTree.lexemes, ConjunctionTree.lexemes, List.append_assoc] at h
    obtain ⟨-, rfl⟩ := OperandTree.eq_of_append u u' h
    exact absurd hr' (k.not_endsConjunction _)
  | .joined u k rest, .adjacent u' rest', r, r', _, _, h => by
    simp only [ConjunctionTree.lexemes, List.append_assoc] at h
    obtain ⟨-, hrest⟩ := OperandTree.eq_of_append u u' h
    exact absurd hrest.symm (rest'.lexemes_ne_and k _ _)
  | .joined u k rest, .joined u' k' rest', r, r', hr, hr', h => by
    simp only [ConjunctionTree.lexemes, List.append_assoc, List.cons_append] at h
    obtain ⟨rfl, hrest⟩ := OperandTree.eq_of_append u u' h
    simp only [List.cons.injEq] at hrest
    obtain rfl := Keyword.lexeme_inj hrest.1
    obtain ⟨rfl, rfl⟩ := ConjunctionTree.eq_of_append rest rest' hr hr' hrest.2
    exact ⟨rfl, rfl⟩

/-- An alternative ends where nothing goes on with it. -/
theorem DisjunctionTree.eq_of_append : ∀ (d d' : DisjunctionTree) {r r' : List Lexeme},
    EndsDisjunction r → EndsDisjunction r' → d.lexemes ++ r = d'.lexemes ++ r' →
      d = d' ∧ r = r'
  | .last c, .last c', r, r', hr, hr', h => by
    obtain ⟨rfl, rfl⟩ := ConjunctionTree.eq_of_append c c' hr.1 hr'.1 h
    exact ⟨rfl, rfl⟩
  -- one alternative would end before an `OR`
  | .last c, .joined c' k rest', r, r', hr, _, h => by
    rw [DisjunctionTree.lexemes, DisjunctionTree.lexemes, List.append_assoc] at h
    obtain ⟨-, rfl⟩ := ConjunctionTree.eq_of_append c c' hr.1 (k.endsConjunction_or _) h
    exact absurd hr (k.not_endsDisjunction _)
  | .joined c k rest, .last c', r, r', _, hr', h => by
    rw [DisjunctionTree.lexemes, DisjunctionTree.lexemes, List.append_assoc] at h
    obtain ⟨-, rfl⟩ := ConjunctionTree.eq_of_append c c' (k.endsConjunction_or _) hr'.1 h
    exact absurd hr' (k.not_endsDisjunction _)
  | .joined c k rest, .joined c' k' rest', r, r', hr, hr', h => by
    simp only [DisjunctionTree.lexemes, List.append_assoc, List.cons_append] at h
    obtain ⟨rfl, hrest⟩ := ConjunctionTree.eq_of_append c c'
      (k.endsConjunction_or _) (k'.endsConjunction_or _) h
    simp only [List.cons.injEq] at hrest
    obtain rfl := Keyword.lexeme_inj hrest.1
    obtain ⟨rfl, rfl⟩ := DisjunctionTree.eq_of_append rest rest' hr hr' hrest.2
    exact ⟨rfl, rfl⟩

end

theorem DirectionTree.eq_of_lexemes {d d' : DirectionTree} (h : d.lexemes = d'.lexemes) :
    d = d' := by
  cases d <;> cases d' <;>
    simp only [DirectionTree.lexemes, List.cons.injEq, and_true, reduceCtorEq] at h
  case absent.absent => rfl
  case ascending.ascending k k' => rw [Keyword.lexeme_inj h]
  case ascending.descending => exact absurd (Keyword.eq_of_lexeme_eq h) (by decide)
  case descending.ascending => exact absurd (Keyword.eq_of_lexeme_eq h) (by decide)
  case descending.descending k k' => rw [Keyword.lexeme_inj h]

theorem OrderTree.eq_of_lexemes {o o' : OrderTree} (h : o.lexemes = o'.lexemes) : o = o' := by
  obtain ⟨k, b, n, hn, d⟩ := o
  obtain ⟨k', b', n', hn', d'⟩ := o'
  simp only [OrderTree.lexemes, List.cons.injEq] at h
  obtain ⟨hk, hb, hname, hd⟩ := h
  obtain rfl := Keyword.lexeme_inj hk
  obtain rfl := Keyword.lexeme_inj hb
  obtain rfl := FieldName.lexeme_inj hname
  obtain rfl := DirectionTree.eq_of_lexemes hd
  rfl

/-- An order ends an expression. -/
theorem endsDisjunction_order (o : Option OrderTree) :
    EndsDisjunction (o.elim [] OrderTree.lexemes) := by
  cases o with
  | none => simp [EndsDisjunction, EndsConjunction]
  | some o =>
    refine ⟨?_, ?_⟩ <;> intro l hl <;>
      obtain rfl : o.orderWord.lexeme = l := by simpa [OrderTree.lexemes] using hl
    · refine ⟨?_, ?_⟩
      · rw [Keyword.isWord_lexeme]
        simp
      · simp [Keyword.lexeme, Lexeme.beginsOperand, o.orderWord.spells]
    · rw [Keyword.isWord_lexeme]
      simp

theorem DisjunctionTree.not_endsConjunction (d : DisjunctionTree) (r : List Lexeme) :
    ¬EndsConjunction (d.lexemes ++ r) := by
  cases d with
  | last c => exact c.not_endsConjunction r
  | joined c k rest =>
    rw [DisjunctionTree.lexemes, List.append_assoc]
    exact c.not_endsConjunction _

theorem QueryTree.eq_of_lexemes {d d' : QueryTree} (h : d.lexemes = d'.lexemes) : d = d' := by
  obtain ⟨e, o⟩ := d
  obtain ⟨e', o'⟩ := d'
  have ho := endsDisjunction_order o
  have ho' := endsDisjunction_order o'
  -- an order, or nothing, does not begin with an operand: both have an expression or neither
  have horder : e = e' ∧ o.elim [] OrderTree.lexemes = o'.elim [] OrderTree.lexemes := by
    cases e with
    | none =>
      cases e' with
      | none => exact ⟨rfl, h⟩
      | some e' =>
        simp only [QueryTree.lexemes, Option.elim_none, Option.elim_some, List.nil_append] at h
        rw [h] at ho
        exact absurd ho.1 (e'.not_endsConjunction _)
    | some e =>
      cases e' with
      | none =>
        simp only [QueryTree.lexemes, Option.elim_none, Option.elim_some, List.nil_append] at h
        rw [← h] at ho'
        exact absurd ho'.1 (e.not_endsConjunction _)
      | some e' =>
        obtain ⟨rfl, hrest⟩ := DisjunctionTree.eq_of_append e e' ho ho' h
        exact ⟨rfl, hrest⟩
  obtain ⟨rfl, horder⟩ := horder
  cases o with
  | none =>
    cases o' with
    | none => rfl
    | some o' => simp [OrderTree.lexemes] at horder
  | some o =>
    cases o' with
    | none => simp [OrderTree.lexemes] at horder
    | some o' => rw [OrderTree.eq_of_lexemes horder]

/-- **The grammar is unambiguous**: no two trees derive the same lexemes. -/
theorem QueryTree.lexemes_injective : Function.Injective QueryTree.lexemes :=
  fun _ _ h => QueryTree.eq_of_lexemes h

end Agenda.Filter
