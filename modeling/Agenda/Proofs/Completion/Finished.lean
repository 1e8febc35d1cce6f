import Agenda.Proofs.Completion.Pieces
import Agenda.Proofs.Filter.RoundTrip

/-! # Completion after a finished query

    What is written for an expression ends in the pieces of its last condition, with every
    bracket closed (`Expr.adds`).  Behind those completion offers keywords, with one exception:
    a list operator in capitals, `NOT IN`, that is followed by a single value
    (`context_render`).  All this holds for texts without single quotation marks; a mark that
    is written with a backslash ends the string for completion. -/

namespace Agenda.Filter

/-! ## Section 1: What is written without quotation marks -/

mutual

/-- Does no text in the value hold a single quotation mark? -/
def Literal.isPlain : Literal → Bool
  | .text t => Completion.plain t
  | .list items => arePlain items
  | _ => true

/-- Does no text in the values hold a single quotation mark? -/
def Literal.arePlain : List Literal → Bool
  | [] => true
  | v :: rest => v.isPlain && arePlain rest

end

/-- Does no text in the expression hold a single quotation mark? -/
def Expr.isPlain : Expr → Bool
  | cond c => c.value.isPlain
  | not e => e.isPlain
  | and l r => l.isPlain && r.isPlain
  | or l r => l.isPlain && r.isPlain

/-- The condition that is written last. -/
def Expr.last : Expr → Condition
  | cond c => c
  | not e => e.last
  | and _ r => r.last
  | or _ r => r.last

/-- Is one value, and no list, excluded by `NOT IN`? -/
def Condition.excludesOne (c : Condition) : Bool := decide (c.op = .notIn) && !c.value.isList

namespace Completion

/-! ## Section 2: Looking back over pieces -/

/-- The words of operators. -/
def operatorWords : List Text := ["IS".toList, "IN".toList, "NOT".toList]

/-- Every bracket among the pieces is closed, and every closing one is opened, among them. -/
def Balanced (ps : List Piece) : Prop :=
  ∀ n rest, beforeOpenBracket? n (ps ++ rest) = beforeOpenBracket? n rest

section looking
variable {ps qs rest : List Piece} {p : Piece} {n : Nat} {ws ws' : List Text}

theorem beforeOpenBracket?_cons (hopen : p.kind ≠ .openBracket) (hclose : p.kind ≠ .closeBracket)
    (n : Nat) (rest : List Piece) :
    beforeOpenBracket? n (p :: rest) = beforeOpenBracket? n rest := by
  conv_lhs => unfold beforeOpenBracket?
  split
  · next h => exact absurd h hclose
  · next h => exact absurd h hopen
  · next h => exact absurd h hopen
  · rfl

theorem balanced_nil : Balanced [] := fun _ _ => rfl

theorem Balanced.append (h : Balanced ps) (h' : Balanced qs) : Balanced (qs ++ ps) := by
  intro n rest
  rw [List.append_assoc, h', h]

theorem Balanced.cons (h : Balanced ps) (hopen : p.kind ≠ .openBracket)
    (hclose : p.kind ≠ .closeBracket) : Balanced (p :: ps) := by
  intro n rest
  rw [List.cons_append, beforeOpenBracket?_cons hopen hclose, h]

theorem Balanced.bracketed (h : Balanced ps) {pos pos' : Nat} {t t' : Text} :
    Balanced (⟨.closeBracket, t', pos'⟩ :: ps ++ [⟨.openBracket, t, pos⟩]) := by
  intro n rest
  rw [List.append_assoc, List.cons_append]
  show beforeOpenBracket? (n + 1) (ps ++ ⟨.openBracket, t, pos⟩ :: rest) = _
  rw [h]
  rfl

theorem meaningful_append (ps qs : List Piece) :
    meaningful (ps ++ qs) = meaningful ps ++ meaningful qs := List.filter_append ps qs

theorem meaningful_eq_self (h : ∀ p ∈ ps, p.isParen = false) : meaningful ps = ps := by
  unfold meaningful
  rw [List.filter_eq_self]
  intro p hp
  simp [h p hp]

theorem meaningful_paren (hp : p.isParen = true) (ps : List Piece) :
    meaningful (p :: ps) = meaningful ps := by
  simp [meaningful, hp]

/-- Parentheses do not matter to brackets. -/
theorem beforeOpenBracket?_meaningful (n : Nat) (ps : List Piece) :
    beforeOpenBracket? n (meaningful ps) = (beforeOpenBracket? n ps).map meaningful := by
  induction ps generalizing n with
  | nil => rfl
  | cons p ps ih =>
    cases hp : p.isParen with
    | true =>
      have hkinds : p.kind ≠ .openBracket ∧ p.kind ≠ .closeBracket := by
        constructor <;>
        · intro hkind
          simp [Piece.isParen, hkind] at hp
      rw [meaningful_paren hp, beforeOpenBracket?_cons hkinds.1 hkinds.2, ih]
    | false =>
      have hcons : meaningful (p :: ps) = p :: meaningful ps := by simp [meaningful, hp]
      rw [hcons]
      unfold beforeOpenBracket?
      split
      · exact ih _
      · rfl
      · exact ih _
      · exact ih _

theorem isWord_ident (ws : List Text) (w : Text) (pos : Nat) :
    Piece.isWord ws ⟨.ident, w, pos⟩ = ws.contains (Text.upper w) := rfl

theorem field?_ident (w : Text) (pos : Nat) : Piece.field? ⟨.ident, w, pos⟩ = Field.find? w := rfl

theorem isWord_of_subset (hsub : ws' ⊆ ws) (h : p.isWord ws = false) : p.isWord ws' = false := by
  unfold Piece.isWord at h ⊢
  rw [Bool.and_eq_false_iff] at h ⊢
  refine h.imp_right fun hno => ?_
  rw [Bool.eq_false_iff] at hno ⊢
  simp only [ne_eq, List.contains_iff_mem] at hno ⊢
  exact fun hmem => hno (hsub hmem)

/-- Behind a piece that is no operator no value is due. -/
theorem fieldBeforeOperator?_eq_none (hkind : p.kind ≠ .op)
    (hword : p.isWord operatorWords = false) (rest : List Piece) :
    fieldBeforeOperator? (p :: rest) = none := by
  have hisIn : p.isWord ["IS".toList, "IN".toList] = false := isWord_of_subset (by simp [operatorWords]) hword
  have hnot : p.isWord ["NOT".toList] = false :=
    isWord_of_subset (by simp [operatorWords]) hword
  cases rest with
  | nil => rfl
  | cons second rest =>
    have hneither : ¬(p.kind = .op ∨ p.isWord ["IS".toList, "IN".toList] = true) := by
      rintro (h | h)
      · exact hkind h
      · rw [hisIn] at h
        cases h
    unfold fieldBeforeOperator?
    dsimp only
    rw [if_neg hneither, hnot]
    rfl

end looking

/-! ## Section 3: Values -/

/-- The pieces of a value: a list ends in its bracket, and any other value is one piece. -/
structure IsValue (list : Bool) (ps : List Piece) : Prop where
  balanced  : Balanced ps
  noParen   : ∀ p ∈ ps, p.isParen = false
  noPartial : ∀ p ∈ ps, p.kind ≠ .partialIdent
  ending    : if list then ∃ p qs, ps = p :: qs ∧ p.kind = .closeBracket
    else ∃ p, ps = [p] ∧ isValue p = true

/-- The pieces between the brackets of a list. -/
structure AreItems (ps : List Piece) : Prop where
  balanced  : Balanced ps
  noParen   : ∀ p ∈ ps, p.isParen = false
  noPartial : ∀ p ∈ ps, p.kind ≠ .partialIdent

theorem areItems_nil : AreItems [] := ⟨balanced_nil, nofun, nofun⟩

theorem IsValue.items {list : Bool} {ps : List Piece} (h : IsValue list ps) : AreItems ps :=
  ⟨h.balanced, h.noParen, h.noPartial⟩

theorem AreItems.append {ps qs : List Piece} (h : AreItems ps) (h' : AreItems qs) :
    AreItems (qs ++ ps) := by
  refine ⟨h.balanced.append h'.balanced, ?_, ?_⟩
  · exact List.forall_mem_append.mpr ⟨h'.noParen, h.noParen⟩
  · exact List.forall_mem_append.mpr ⟨h'.noPartial, h.noPartial⟩

/-- A single piece that may stand between brackets, and no bracket itself. -/
theorem areItems_singleton {p : Piece} (hopen : p.kind ≠ .openBracket)
    (hclose : p.kind ≠ .closeBracket) (hparen : p.isParen = false)
    (hpartial : p.kind ≠ .partialIdent) : AreItems [p] :=
  ⟨balanced_nil.cons hopen hclose, List.forall_mem_singleton.mpr hparen,
    List.forall_mem_singleton.mpr hpartial⟩

theorem isValue_word {w : Text} (hw : Piece.isWord reserved ⟨.ident, w, 0⟩ = false) (pos : Nat) :
    IsValue false [⟨.ident, w, pos⟩] := by
  obtain ⟨hbalanced, hparen, hpartial⟩ := areItems_singleton (p := ⟨.ident, w, pos⟩)
    nofun nofun rfl nofun
  have hw' : Piece.isWord reserved ⟨.ident, w, pos⟩ = false := hw
  exact ⟨hbalanced, hparen, hpartial, _, rfl, by simp [isValue, hw']⟩

theorem isValue_string (body : Text) (pos : Nat) : IsValue false [⟨.string, body, pos⟩] := by
  obtain ⟨hbalanced, hparen, hpartial⟩ := areItems_singleton (p := ⟨.string, body, pos⟩)
    nofun nofun rfl nofun
  exact ⟨hbalanced, hparen, hpartial, _, rfl, rfl⟩

theorem AreItems.bracketed {ps : List Piece} (h : AreItems ps) (pos pos' : Nat) :
    IsValue true (⟨.closeBracket, [']'], pos'⟩ :: ps ++ [⟨.openBracket, ['['], pos⟩]) := by
  refine ⟨h.balanced.bracketed, ?_, ?_, _, _, rfl, rfl⟩
  · intro p hp
    rcases List.mem_append.mp hp with hp | hp
    · rcases List.mem_cons.mp hp with rfl | hp
      · rfl
      · exact h.noParen p hp
    · obtain rfl := List.mem_singleton.mp hp
      rfl
  · intro p hp
    rcases List.mem_append.mp hp with hp | hp
    · rcases List.mem_cons.mp hp with rfl | hp
      · nofun
      · exact h.noPartial p hp
    · obtain rfl := List.mem_singleton.mp hp
      nofun

theorem Adds.items {t : Text} {list : Bool} (h : Adds t (IsValue list)) : Adds t AreItems :=
  h.mono fun _ => IsValue.items

theorem Adds.bracketed {t : Text} (h : Adds t AreItems) :
    Adds ('[' :: t ++ [']']) (IsValue true) :=
  (h.enclosed rfl rfl).mono fun _ ⟨_, pos, pos', hqs, hps⟩ => hps ▸ hqs.bracketed pos pos'

theorem Adds.comma {t t' : Text} (h : Adds t AreItems) (h' : Adds t' AreItems) :
    Adds (t ++ ", ".toList ++ t') AreItems := by
  have hrest : Adds (',' :: ' ' :: t') _ := h'.space.punctuation (c := ',') rfl
  have hends : EndsIdent (',' :: ' ' :: t') := ⟨',', rfl, by decide +kernel⟩
  have hall := h.append hrest hends
  have htext : t ++ ", ".toList ++ t' = t ++ ',' :: ' ' :: t' := by simp
  rw [htext]
  refine hall.mono ?_
  rintro ps ⟨qs, _, hqs, ⟨qs', pos, hqs', rfl⟩, rfl⟩
  have hcomma : AreItems [⟨.comma, [','], pos⟩] := areItems_singleton nofun nofun rfl nofun
  exact hqs.append (hcomma.append hqs')

mutual

/-- A value that can be typed, with no quotation mark in it, adds the pieces of a value. -/
theorem Literal.adds : ∀ v : Literal, v.isTyped = true → v.isPlain = true →
    Adds v.render (IsValue v.isList)
  | .null, _, _ => (Adds.ident (w := "null".toList) (by decide +kernel)).mono
      fun _ ⟨pos, h⟩ => h ▸ isValue_word (by decide +kernel) pos
  | .truth true, _, _ => (Adds.ident (w := "true".toList) (by decide +kernel)).mono
      fun _ ⟨pos, h⟩ => h ▸ isValue_word (by decide +kernel) pos
  | .truth false, _, _ => (Adds.ident (w := "false".toList) (by decide +kernel)).mono
      fun _ ⟨pos, h⟩ => h ▸ isValue_word (by decide +kernel) pos
  | .text t, _, h => (Adds.string h).mono fun _ ⟨pos, hps⟩ => hps ▸ isValue_string _ pos
  | .list items, ht, hp => (Literal.adds_items items ht hp).bracketed

theorem Literal.adds_items : ∀ items : List Literal, Literal.areTyped items = true →
    Literal.arePlain items = true → Adds (Literal.renderItems items) AreItems
  | [], _, _ => Adds.nil.mono fun _ h => h ▸ areItems_nil
  | [v], ht, hp => by
    have ht' : v.isTyped = true := by simpa [Literal.areTyped] using ht
    have hp' : v.isPlain = true := by simpa [Literal.arePlain] using hp
    exact (Literal.adds v ht' hp').items
  | v :: w :: rest, ht, hp => by
    rw [Literal.areTyped, Bool.and_eq_true] at ht
    rw [Literal.arePlain, Bool.and_eq_true] at hp
    exact (Literal.adds v ht.1 hp.1).items.comma (Literal.adds_items (w :: rest) ht.2 hp.2)

end

/-! ## Section 4: Conditions -/

/-- The kinds and texts of the pieces of an operator, latest first. -/
def operatorShapes : Operator → List (PieceKind × Text)
  | .is => [(.ident, "IS".toList)]
  | .isNot => [(.ident, "NOT".toList), (.ident, "IS".toList)]
  | .isIn => [(.ident, "IN".toList)]
  | .notIn => [(.ident, "IN".toList), (.ident, "NOT".toList)]
  | op => [(.op, op.symbol)]

/-- What a piece is and its text. -/
def Piece.shape (p : Piece) : PieceKind × Text := (p.kind, p.text)

section conditions
variable {P : List Piece → Prop} {t : Text} {f : Field} {op : Operator} {c : Condition}
  {vs ops ps qs front : List Piece} {p : Piece}

theorem adds_word {w : Text} (hw : isIdent w = true) :
    Adds w (fun ps => ps.map Piece.shape = [(.ident, w)]) :=
  (Adds.ident hw).mono fun _ ⟨_, h⟩ => h ▸ rfl

theorem Operator.adds (op : Operator) (h : Adds t P) : Adds (op.symbol ++ ' ' :: t)
    (fun ps => ∃ qs ops, P qs ∧ ops.map Piece.shape = operatorShapes op ∧ ps = qs ++ ops) := by
  have his := adds_word (w := "IS".toList) (by decide +kernel)
  have hin := adds_word (w := "IN".toList) (by decide +kernel)
  have hnot := adds_word (w := "NOT".toList) (by decide +kernel)
  by_cases hop : op.isSymbol = true
  · refine (Adds.symbol hop h).mono ?_
    rintro ps ⟨qs, pos, hqs, rfl⟩
    refine ⟨qs, _, hqs, ?_, rfl⟩
    cases op <;> first | rfl | cases hop
  · -- the other operators are one word or two
    cases op <;> simp [Operator.isSymbol] at hop
    case is =>
      refine (his.spaced h).mono ?_
      rintro ps ⟨ops, qs, hops, hqs, hps⟩
      exact ⟨qs, ops, hqs, hops, hps⟩
    case isIn =>
      refine (hin.spaced h).mono ?_
      rintro ps ⟨ops, qs, hops, hqs, hps⟩
      exact ⟨qs, ops, hqs, hops, hps⟩
    case isNot =>
      refine (his.spaced (hnot.spaced h)).mono ?_
      rintro ps ⟨first, _, hfirst, ⟨second, qs, hsecond, hqs, rfl⟩, rfl⟩
      exact ⟨qs, second ++ first, hqs, by rw [List.map_append, hfirst, hsecond]; rfl, by simp⟩
    case notIn =>
      refine (hnot.spaced (hin.spaced h)).mono ?_
      rintro ps ⟨first, _, hfirst, ⟨second, qs, hsecond, hqs, rfl⟩, rfl⟩
      exact ⟨qs, second ++ first, hqs, by rw [List.map_append, hfirst, hsecond]; rfl, by simp⟩

/-- The pieces of a condition: its value, its operator and the name of its field, latest
    first. -/
structure Forms (c : Condition) (ps : List Piece) : Prop where
  split : ∃ vs ops name, ps = vs ++ (ops ++ [name]) ∧ IsValue c.value.isList vs ∧
    ops.map Piece.shape = operatorShapes c.op ∧ name.shape = (.ident, c.field.name)

theorem Condition.adds (hc : c.Typed) (hp : c.value.isPlain = true) : Adds c.render (Forms c) := by
  have hname := adds_word (w := c.field.name) (by cases c.field <;> decide +kernel)
  have hall := hname.spaced (Operator.adds c.op (Literal.adds c.value hc.value hp))
  have htext : c.render = c.field.name ++ ' ' :: (c.op.symbol ++ ' ' :: c.value.render) := by
    simp [Condition.render]
  rw [htext]
  refine hall.mono ?_
  rintro ps ⟨name, _, hname, ⟨vs, ops, hvs, hops, rfl⟩, rfl⟩
  obtain ⟨name, rfl⟩ : ∃ p, name = [p] := List.length_eq_one_iff.mp (by
    simpa using congrArg List.length hname)
  refine ⟨vs, ops, name, by simp, hvs, hops, ?_⟩
  simpa using hname

/-- Pieces that a word or an operator makes are neither brackets nor parentheses, and end before
    the cursor. -/
theorem areItems_of_shape (h : p.kind = .ident ∨ p.kind = .op) : AreItems [p] := by
  apply areItems_singleton
  all_goals rcases h with h | h <;> simp [Piece.isParen, h]

theorem areItems_operator (h : ops.map Piece.shape = operatorShapes op) : AreItems ops := by
  have hkinds : ∀ p ∈ ops, p.kind = .ident ∨ p.kind = .op := by
    intro p hp
    have hmem : p.shape ∈ operatorShapes op := by
      rw [← h]
      exact List.mem_map_of_mem hp
    have hall : ∀ op, ∀ s ∈ operatorShapes op, s.1 = .ident ∨ s.1 = .op := by
      intro op
      cases op <;> decide
    exact hall op _ hmem
  clear h
  induction ops with
  | nil => exact areItems_nil
  | cons p ops ih =>
    exact (ih fun q hq => hkinds q (List.mem_cons_of_mem p hq)).append
      (areItems_of_shape (hkinds p List.mem_cons_self))

theorem Forms.items (h : Forms c ps) : AreItems ps := by
  obtain ⟨vs, ops, name, rfl, hvs, hops, hname⟩ := h.split
  have hname' : AreItems [name] := areItems_of_shape (Or.inl (congrArg Prod.fst hname))
  exact (hname'.append (areItems_operator hops)).append hvs.items

/-- What completion sees behind the pieces of the condition, whatever stands before them. -/
structure Finishes (c : Condition) (ps : List Piece) : Prop where
  nonempty   : ps ≠ []
  noPartial  : ∀ p ∈ ps, p.kind ≠ .partialIdent
  balanced   : Balanced ps
  noOperator : ∀ front, fieldBeforeOperator? (meaningful (ps ++ front)) = none
  condition  : ∀ front, beforeOpenBracket? 0 front = none →
    afterCondition (ps ++ front) = !c.excludesOne

theorem field?_of_shape (h : p.shape = (.ident, f.name)) : p.field? = some f := by
  obtain ⟨kind, t, pos⟩ := p
  obtain ⟨rfl, rfl⟩ := Prod.mk.inj h
  exact f.canonicalName.found

/-- Behind a list whose brackets are all closed, completion sees a condition. -/
theorem afterCondition_list {rest : List Piece} (hps : meaningful ps = p :: rest)
    (hp : p.kind = .closeBracket) (hclosed : beforeOpenBracket? 0 ps = none) :
    afterCondition ps = true := by
  have hnone : beforeOpenBracket? 0 (p :: rest) = none := by
    rw [← hps, beforeOpenBracket?_meaningful, hclosed]
    rfl
  unfold afterCondition
  rw [hps]
  dsimp only
  rw [if_pos hp, hnone]
  rfl

/-- Behind a single value, completion looks for the operator and the field in front of it, and
    does not know that `NOT IN` is two words. -/
theorem afterCondition_value {front : List Piece} (hp : isValue p = true)
    (hops : ops.map Piece.shape = operatorShapes op) {name : Piece}
    (hname : name.shape = (.ident, f.name))
    (hps : meaningful ps = p :: (ops ++ name :: front)) :
    afterCondition ps = !decide (op = .notIn) := by
  have hfield := field?_of_shape hname
  have hkind : p.kind ≠ .closeBracket := by
    intro hkind
    simp [isValue, hkind] at hp
  -- the pieces of an operator that is a symbol or one word
  have hone : ∀ o, ops = [o] → (o.kind == .op || o.isWord operatorWords) = true →
      afterCondition ps = true := by
    rintro o rfl ho
    unfold afterCondition
    rw [hps]
    dsimp only [List.singleton_append]
    rw [if_neg hkind, hp, hfield]
    show (true && (o.kind == .op || o.isWord operatorWords) && _) = true
    rw [ho]
    rfl
  have htwo : ∀ {first second : Text}, ops.map Piece.shape = [(.ident, second), (.ident, first)] →
      ∃ pos pos', ops = [⟨.ident, second, pos⟩, ⟨.ident, first, pos'⟩] := by
    intro first second hshapes
    obtain ⟨⟨kind, t, pos⟩, more, rfl, ho, hmore⟩ := List.map_eq_cons_iff.mp hshapes
    obtain ⟨⟨kind', t', pos'⟩, rfl, ho'⟩ := List.map_eq_singleton_iff.mp hmore
    obtain ⟨rfl, rfl⟩ := Prod.mk.inj ho
    obtain ⟨rfl, rfl⟩ := Prod.mk.inj ho'
    exact ⟨pos, pos', rfl⟩
  cases op with
  | notIn =>
    obtain ⟨pos, pos', rfl⟩ := htwo hops
    unfold afterCondition
    rw [hps]
    dsimp only [List.cons_append, List.nil_append]
    have hnot : Field.find? "NOT".toList = none ∧
        ["IS".toList].contains (Text.upper "NOT".toList) = false := by decide +kernel
    rw [if_neg hkind, field?_ident, isWord_ident ["IS".toList], hnot.1, hnot.2]
    simp
  | isNot =>
    obtain ⟨pos, pos', rfl⟩ := htwo hops
    unfold afterCondition
    rw [hps]
    dsimp only [List.cons_append, List.nil_append]
    have his : ["IS".toList].contains (Text.upper "IS".toList) = true ∧
        ["IS".toList, "IN".toList, "NOT".toList].contains (Text.upper "NOT".toList) = true := by
      decide +kernel
    rw [if_neg hkind, hp, isWord_ident, isWord_ident ["IS".toList], his.1, his.2]
    simp [hfield]
  | is | isIn =>
    obtain ⟨⟨kind, t, pos⟩, rfl, ho⟩ := List.map_eq_singleton_iff.mp hops
    obtain ⟨rfl, rfl⟩ := Prod.mk.inj ho
    have hword : ∀ w ∈ operatorWords, operatorWords.contains (Text.upper w) = true := by
      decide +kernel
    refine hone _ rfl ?_
    rw [isWord_ident, hword _ (by simp [operatorWords])]
    rfl
  | _ =>
    obtain ⟨o, rfl, ho⟩ := List.map_eq_singleton_iff.mp hops
    have hsymbol : o.kind = .op := congrArg Prod.fst ho
    exact hone o rfl (by simp [hsymbol])

theorem Forms.finishes (h : Forms c ps) : Finishes c ps := by
  obtain ⟨hbalanced, hparen, hpartial⟩ := h.items
  obtain ⟨vs, ops, name, rfl, hvs, hops, hname⟩ := h.split
  have hmeaning : ∀ front, meaningful (vs ++ (ops ++ [name]) ++ front) =
      vs ++ (ops ++ name :: meaningful front) := by
    intro front
    rw [meaningful_append, meaningful_eq_self hparen]
    simp
  -- the condition ends in the bracket of its list or in the one piece of its value
  have hending := hvs.ending
  refine ⟨by simp, hpartial, hbalanced, fun front => ?_, fun front hfront => ?_⟩
  · rw [hmeaning]
    cases hlist : c.value.isList with
    | true =>
      rw [hlist, if_pos rfl] at hending
      obtain ⟨p, qs, rfl, hp⟩ := hending
      apply fieldBeforeOperator?_eq_none <;> simp [hp, Piece.isWord, Piece.isIdent]
    | false =>
      rw [hlist, if_neg Bool.false_ne_true] at hending
      obtain ⟨p, rfl, hp⟩ := hending
      simp only [isValue, Bool.and_eq_true, Bool.not_eq_true'] at hp
      apply fieldBeforeOperator?_eq_none
      · intro hkind
        simp [hkind] at hp
      · exact isWord_of_subset (by simp [reserved, operatorWords]) hp.2
  · cases hlist : c.value.isList with
    | true =>
      rw [hlist, if_pos rfl] at hending
      obtain ⟨p, qs, rfl, hp⟩ := hending
      rw [afterCondition_list (hmeaning front) hp (by rw [hbalanced, hfront])]
      simp [Condition.excludesOne, hlist]
    | false =>
      rw [hlist, if_neg Bool.false_ne_true] at hending
      obtain ⟨p, rfl, hp⟩ := hending
      rw [afterCondition_value hp hops hname (hmeaning front)]
      simp [Condition.excludesOne, hlist]

/-- What stands before does not matter. -/
theorem Finishes.append (h : Finishes c ps) (hqs : Balanced qs)
    (hpartial : ∀ p ∈ qs, p.kind ≠ .partialIdent) : Finishes c (ps ++ qs) := by
  refine ⟨by simp [h.nonempty], List.forall_mem_append.mpr ⟨h.noPartial, hpartial⟩,
    hqs.append h.balanced, fun front => ?_, fun front hfront => ?_⟩
  · rw [List.append_assoc]
    exact h.noOperator _
  · rw [List.append_assoc]
    exact h.condition _ (by rw [hqs, hfront])

theorem Finishes.parenthesized (h : Finishes c ps) (pos pos' : Nat) :
    Finishes c (⟨.closeParen, [')'], pos'⟩ :: ps ++ [⟨.openParen, ['('], pos⟩]) := by
  -- a parenthesis is no bracket of a list, and completion reads past it
  have hopen : ∀ qs, Balanced qs → Balanced (⟨.openParen, ['('], pos⟩ :: qs) :=
    fun _ hqs => hqs.cons (p := ⟨.openParen, ['('], pos⟩) nofun nofun
  have hbefore := (hopen [] balanced_nil).append h.balanced
  have hclose : ∀ qs, meaningful (⟨.closeParen, [')'], pos'⟩ :: qs) = meaningful qs :=
    meaningful_paren rfl
  refine ⟨by simp, ?_, hbefore.cons (p := ⟨.closeParen, [')'], pos'⟩) nofun nofun,
    fun front => ?_, fun front hfront => ?_⟩
  · intro p hp
    rcases List.mem_append.mp hp with hp | hp
    · rcases List.mem_cons.mp hp with rfl | hp
      · nofun
      · exact h.noPartial p hp
    · obtain rfl := List.mem_singleton.mp hp
      nofun
  · rw [List.append_assoc, List.cons_append, hclose]
    exact h.noOperator _
  · rw [List.append_assoc, List.cons_append]
    unfold afterCondition
    rw [hclose]
    refine h.condition _ (Eq.trans ?_ hfront)
    exact hopen [] balanced_nil 0 front

end conditions

/-! ## Section 5: Expressions -/

section expressions
variable {t t' w : Text} {c c' : Condition}

theorem Adds.parenthesized (h : Adds t (Finishes c)) (grouped : Bool) :
    Adds (parenthesize grouped t) (Finishes c) := by
  cases grouped with
  | false => exact h
  | true =>
    exact (h.enclosed (o := '(') (c := ')') rfl rfl).mono fun _ ⟨_, pos, pos', hqs, hps⟩ =>
      hps ▸ hqs.parenthesized pos pos'

/-- What a connective joins ends as its right side does. -/
theorem Adds.joined (h : Adds t (Finishes c)) (hw : isIdent w = true)
    (h' : Adds t' (Finishes c')) : Adds (t ++ ' ' :: (w ++ ' ' :: t')) (Finishes c') := by
  refine (h.spaced ((adds_word hw).spaced h')).mono ?_
  rintro ps ⟨qs, _, hqs, ⟨word, rs, hword, hrs, rfl⟩, rfl⟩
  obtain ⟨p, rfl, hp⟩ := List.map_eq_singleton_iff.mp hword
  obtain ⟨hbalanced, -, hpartial⟩ := areItems_of_shape (Or.inl (congrArg Prod.fst hp))
  exact (hrs.append hbalanced hpartial).append hqs.balanced hqs.noPartial

theorem Adds.negated (h : Adds t (Finishes c)) (hw : isIdent w = true) :
    Adds (w ++ ' ' :: t) (Finishes c) := by
  refine ((adds_word hw).spaced h).mono ?_
  rintro ps ⟨word, qs, hword, hqs, rfl⟩
  obtain ⟨p, rfl, hp⟩ := List.map_eq_singleton_iff.mp hword
  obtain ⟨hbalanced, -, hpartial⟩ := areItems_of_shape (Or.inl (congrArg Prod.fst hp))
  exact hqs.append hbalanced hpartial

end expressions

/-- **An expression ends in its last condition**: what is written for it adds pieces behind which
    completion sees what it sees behind that condition. -/
theorem Expr.adds {e : Expr} (he : e.Typed) (hp : e.isPlain = true) :
    Adds e.render (Finishes e.last) := by
  induction e with
  | cond c => exact (Condition.adds he hp).mono fun _ => Forms.finishes
  | not e ih =>
    exact ((ih he hp).parenthesized e.isChain).negated (w := "NOT".toList) (by decide +kernel)
  | and l r ihl ihr =>
    rw [Expr.isPlain, Bool.and_eq_true] at hp
    have hall := ((ihl he.1 hp.1).parenthesized l.isOr).joined (w := "AND".toList)
      (by decide +kernel) ((ihr he.2 hp.2).parenthesized r.isChain)
    simpa [Expr.render, Expr.last] using hall
  | or l r ihl ihr =>
    rw [Expr.isPlain, Bool.and_eq_true] at hp
    have hall := (ihl he.1 hp.1).joined (w := "OR".toList) (by decide +kernel)
      ((ihr he.2 hp.2).parenthesized r.isOr)
    simpa [Expr.render, Expr.last] using hall

/-! ## Section 6: Behind the query -/

/-- What completion sees between words behind a condition. -/
theorem gapContext_of_finishes {c : Condition} {ps : List Piece} (h : Finishes c ps)
    (before : Text) (cursor : Nat) : gapContext (before ++ [' ']) ps cursor =
      ⟨if c.excludesOne then .fieldName else .keyword, [], cursor⟩ := by
  have hbrackets : beforeOpenBracket? 0 ps = none := by
    have hnone := h.balanced 0 []
    rwa [List.append_nil] at hnone
  have hlist : arrayField? ps = none := by
    unfold arrayField?
    rw [hbrackets]
    rfl
  have hoperator := h.noOperator []
  have hcondition := h.condition [] rfl
  rw [List.append_nil] at hoperator hcondition
  have hboundary : ((before ++ [' ']).getLast?.any fun c =>
      Text.isBlank c || "([,".toList.contains c) = true := by
    rw [List.getLast?_concat]
    decide +kernel
  unfold gapContext
  rw [hboundary, hlist, hoperator, hcondition]
  cases c.excludesOne <;> rfl

/-- **Completion recognizes a finished query**: behind the text that a query is saved as, and a
    blank, the cursor at its end, keywords are completed, and all of them are offered; but where
    the last condition excludes one value by `NOT IN`, the name of a field is.  This holds for
    queries with an expression and without an order in which no text has a single quotation
    mark. -/
theorem context_render {t : Text} {q : Query} {e : Expr} (hread : Query.read t = .ok q)
    (he : q.expression = some e) (horder : q.orderBy = none) (hplain : e.isPlain = true)
    (cursor : Option Int)
    (hcursor : clampCursor (q.render ++ [' ']) cursor = (q.render ++ [' ']).length) :
    context (q.render ++ [' ']) cursor =
      ⟨if e.last.excludesOne then .fieldName else .keyword, [], q.render.length + 1⟩ ∧
    (e.last.excludesOne = false → ∀ tags projects,
      suggest (q.render ++ [' ']) cursor tags projects =
        keywords.map fun k => ⟨k, k, q.render.length + 1⟩) := by
  have hrender : q.render = e.render := by
    simp [Query.render, he, horder, Text.join]
  have htyped : e.Typed := (typed_of_read hread).1.expression e he
  have hadds := Expr.adds htyped hplain
  have hcontext : context (q.render ++ [' ']) cursor =
      ⟨if e.last.excludesOne then .fieldName else .keyword, [], q.render.length + 1⟩ := by
    obtain ⟨ps, hps, hscan⟩ := hadds.pieces [' '] ⟨' ', rfl, by decide +kernel⟩ [] 0
    have hquote : quoteOpen none (q.render ++ [' ']) = false := by
      rw [hrender, hadds.closed]
      decide
    have hpieces : scan (q.render ++ [' ']) = ps := by
      rw [hrender, scan, hscan, scanFrom_blank (by decide +kernel), scanFrom_nil, List.append_nil]
    unfold context
    dsimp only
    rw [hcursor, List.take_length, hquote, hpieces]
    cases ps with
    | nil => exact absurd rfl hps.nonempty
    | cons last prior =>
      -- the blank has ended the last piece, so there is no word to complete
      have hlast := hps.noPartial last List.mem_cons_self
      dsimp only
      rw [if_neg Bool.false_ne_true, if_neg hlast, gapContext_of_finishes hps,
        List.length_append, List.length_singleton]
  refine ⟨hcontext, fun hlast tags projects => ?_⟩
  unfold suggest
  rw [hcontext, hlast]
  rfl

/-- A query with a list and a text that holds a bracket, a keyword and a backslash. -/
theorem context_render_walk :
    ∃ q e, Query.read "tags IN ['a]'] AND title = 'walk AND \\ ('".toList = .ok q ∧
      q.expression = some e ∧ context (q.render ++ [' ']) none =
        ⟨if e.last.excludesOne then .fieldName else .keyword, [], q.render.length + 1⟩ := by
  have hread : (Query.read "tags IN ['a]'] AND title = 'walk AND \\ ('".toList).toOption.any
      (fun q => q.expression.any Expr.isPlain && q.orderBy.isNone) = true := by
    decide +kernel
  cases h : Query.read "tags IN ['a]'] AND title = 'walk AND \\ ('".toList with
  | error e =>
    rw [h] at hread
    cases hread
  | ok q =>
    rw [h] at hread
    obtain ⟨e, o⟩ := q
    cases e with
    | none => cases hread
    | some e =>
      obtain ⟨hplain, horder⟩ : e.isPlain = true ∧ o = none := by
        simpa [Except.toOption] using hread
      exact ⟨_, e, rfl, rfl, (context_render h rfl horder hplain none rfl).1⟩

/-- **Some finished queries are not recognized**: a text with a quotation mark, which is written
    with a backslash, leaves a string open for completion, and `NOT IN` with one value is no
    condition for it. -/
theorem context_unrecognized :
    (Query.read "title = \"it's\"".toList).toOption.map Query.render =
      some "title = 'it\\'s'".toList ∧
    context "title = 'it\\'s' ".toList none = ⟨.nothing, [], 16⟩ ∧
    (Query.read "tags NOT IN 'home'".toList).toOption.map Query.render =
      some "tags NOT IN 'home'".toList ∧
    context "tags NOT IN 'home' ".toList none = ⟨.fieldName, [], 19⟩ := by
  decide +kernel

end Completion

end Agenda.Filter
