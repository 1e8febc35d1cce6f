import Agenda.Proofs.Filter.Continuation
import Agenda.Proofs.Filter.Nesting
import Agenda.Proofs.Filter.Steps

/-! # What is open at once

    Negations and parentheses lie on the stack of the reader, and lists in lists in its mode.
    One token opens one of them at most (`step_opened`), and the reader has as much open at
    some time as the derivation of the query nests (`QueryTree.passes`).  The limit guards the
    stack only, so it is kept exactly where no list opens above it (`guarded_iff`). -/

namespace Agenda.Filter

open Reader

namespace Reader

/-! ## Section 1: What opens and what is open -/

/-- The lists that are open. -/
def Mode.lists : Mode → Nat
  | .list _ _ _ _ outer _ => outer.length + 1
  | _ => 0

/-- The negations, parentheses and lists that are open. -/
def State.opened (s : State) : Nat := s.frames.length + s.mode.lists

/-- May a value begin here? -/
def Mode.takesValue : Mode → Bool
  | .value _ _ => true
  | .afterIs field _ _ => field.accepts .is
  | .list _ _ _ _ _ place => place != .separator
  | _ => false

/-- The token opens a negation or a parenthesis. -/
def OpensOperand (s : State) (token : Token) : Prop :=
  s.mode.takesOperand = true ∧ token.lexeme.opens = true

/-- The token opens a list. -/
def OpensList (s : State) (token : Token) : Prop :=
  s.mode.takesValue = true ∧ token.lexeme = .openBracket

section steps
variable {s s' : State} {token : Token}

theorem opened_of_takesOperand (h : s.mode.takesOperand = true) :
    s.opened = s.frames.length := by
  unfold State.opened
  cases hs : s.mode <;> simp [hs, Mode.takesOperand] at h <;> rfl

theorem readOperand_opens (h : token.lexeme.opens = true) :
    ∃ frame group, readOperand s token = s.push frame group token := by
  unfold readOperand
  by_cases hnot : token.isWord "not".toList = true
  · rw [if_pos hnot]
    exact ⟨_, _, rfl⟩
  · rw [Token.isWord_eq] at hnot
    have hparen : token.lexeme = .openParen := by
      cases hl : token.lexeme <;> simp_all [Lexeme.opens, Lexeme.isWord]
    rw [Token.isWord_eq, if_neg hnot, if_pos (by simp [isOpenParen, hparen])]
    exact ⟨_, _, rfl⟩

theorem beginsOperand_of_opens {l : Lexeme} (h : l.opens = true) :
    l.beginsOperand = true ∧ l.isWord "and".toList = false := by
  cases l with
  | word w =>
    have hw : Text.lower w = "not".toList := by simpa [Lexeme.opens, Lexeme.isWord] using h
    simp [Lexeme.beginsOperand, Lexeme.isWord, hw]
  | openParen => exact ⟨rfl, rfl⟩
  | _ => simp [Lexeme.opens, Lexeme.isWord] at h

/-- Wherever an operand may begin it is read alike. -/
theorem step_of_takesOperand (hmode : s.mode.takesOperand = true)
    (hbegins : token.lexeme.beginsOperand = true)
    (hand : token.lexeme.isWord "and".toList = false) : step s token = readOperand s token := by
  cases hs : s.mode <;> simp [hs, Mode.takesOperand] at hmode
  · exact step_start hs hbegins
  · simp only [step, hs]
  · exact step_adjacent hs hbegins hand

/-- What opens a negation or a parenthesis puts it on the stack, if there is room. -/
theorem step_opensOperand (h : OpensOperand s token) :
    ∃ frame group, step s token = s.push frame group token := by
  obtain ⟨hmode, hopens⟩ := h
  obtain ⟨hbegins, hand⟩ := beginsOperand_of_opens hopens
  rw [step_of_takesOperand hmode hbegins hand]
  exact readOperand_opens hopens

/-- What opens a list adds it to those that are open. -/
theorem step_opensList (h : OpensList s token) :
    ∃ s', step s token = .ok s' ∧ s'.opened = s.opened + 1 := by
  obtain ⟨hmode, hbracket⟩ := h
  have hword : ∀ w, token.isWord w = false := by simp [Token.isWord_eq, hbracket, Lexeme.isWord]
  -- a list may stand as a value, as the value of `IS`, and in a list
  cases hs : s.mode with
  | value f op =>
    refine ⟨{ s with mode := .list f op token.start [] [] .first }, ?_, ?_⟩
    · simp [step, hs, readValue, single?_openBracket hbracket, hbracket]
    · simp [State.opened, hs, Mode.lists]
  | afterIs f start stop =>
    rw [hs] at hmode
    have haccepts : f.accepts .is = true := hmode
    refine ⟨{ s with mode := .list f .is token.start [] [] .first }, ?_, ?_⟩
    · simp [step, hs, hword, withOperator_of_accepts haccepts, bind, Except.bind, readValue,
        single?_openBracket hbracket, hbracket]
    · simp [State.opened, hs, Mode.lists]
  | list f op start items outer place =>
    rw [hs] at hmode
    have hplace : place ≠ .separator := by simpa [Mode.takesValue] using hmode
    refine ⟨_, step_list_openBracket hs hplace hbracket, ?_⟩
    simp [State.opened, hs, Mode.lists]
    omega
  | _ => simp [hs, Mode.takesValue] at hmode

theorem withOperand_opened_le (s : State) (e : Expr) :
    (s.withOperand e).opened ≤ s.frames.length := by
  have hlength : ∀ (frames : List Frame) (e : Expr) (group : Group),
      (addOperand e frames group).1.length ≤ frames.length := by
    intro frames
    induction frames with
    | nil => exact fun e group => Nat.le_refl 0
    | cons frame frames ih =>
      intro e group
      cases frame with
      | negation => exact Nat.le_succ_of_le (ih _ _)
      | group outer => exact Nat.le_refl _
  exact hlength s.frames e s.group

theorem frames_le_opened (s : State) : s.frames.length ≤ s.opened := Nat.le_add_right _ _

theorem Mode.Awaits.takesValue {m : Mode} {f : Field} {op : Operator} (h : m.Awaits f op) :
    m.takesValue = true := by
  rcases h with rfl | ⟨start, stop, rfl, -, hf⟩
  · rfl
  · exact hf

/-- What opens neither a negation or a parenthesis nor a list leaves no more open than was. -/
theorem Takes.opened_le {l : Lexeme} (h : Takes s l s')
    (hoperand : ¬(s.mode.takesOperand = true ∧ l.opens = true))
    (hlist : ¬(s.mode.takesValue = true ∧ l = .openBracket)) : s'.opened ≤ s.opened := by
  have hle := frames_le_opened s
  cases h with
  | negation k hmode hlt => exact absurd ⟨hmode, k.opens_lexeme⟩ hoperand
  | group hmode hlt => exact absurd ⟨hmode, rfl⟩ hoperand
  | list hmode start => exact absurd ⟨hmode.takesValue, rfl⟩ hlist
  | innerList hmode hplace =>
    exact absurd ⟨by simpa [hmode, Mode.takesValue] using hplace, rfl⟩ hlist
  | groupEnd hmode hframes =>
    -- the frame of the parenthesis is gone before the operand is handed on
    rw [hframes, List.length_cons] at hle
    exact Nat.le_trans (withOperand_opened_le _ _) (Nat.le_of_succ_le hle)
  | value hmode hv hfits | listEnd hmode hfits =>
    exact Nat.le_trans (withOperand_opened_le _ _) hle
  | item hmode | comma hmode | innerListEnd hmode =>
    -- the innermost list goes on, or the one around it does
    simp [State.opened, hmode, Mode.lists]
  | _ => exact hle

theorem step_opened_le (hoperand : ¬OpensOperand s token) (hlist : ¬OpensList s token)
    (h : step s token = .ok s') : s'.opened ≤ s.opened := by
  rcases step_cases h with htakes | ⟨-, rfl⟩
  · exact htakes.opened_le hoperand hlist
  · exact Nat.le_refl _

/-- **What a token opens**: a negation or a parenthesis, for which there has to be room on the
    stack, or a list, or nothing. -/
theorem step_opened (h : step s token = .ok s') :
    (OpensOperand s token ∧ s.opened < maxNesting ∧ s'.opened = s.opened + 1) ∨
    (OpensList s token ∧ s'.opened = s.opened + 1) ∨
    (¬OpensOperand s token ∧ ¬OpensList s token ∧ s'.opened ≤ s.opened) := by
  by_cases hoperand : OpensOperand s token
  · left
    obtain ⟨frame, group, hstep⟩ := step_opensOperand hoperand
    rw [hstep] at h
    obtain ⟨hlt, rfl⟩ := push_cases h
    have hopened := opened_of_takesOperand hoperand.1
    exact ⟨hoperand, by omega, by rw [hopened]; rfl⟩
  · by_cases hlist : OpensList s token
    · right
      left
      obtain ⟨s₁, hstep, hopened⟩ := step_opensList hlist
      rw [h] at hstep
      obtain rfl := Except.ok.inj hstep
      exact ⟨hlist, hopened⟩
    · exact Or.inr (Or.inr ⟨hoperand, hlist, step_opened_le hoperand hlist h⟩)

end steps

end Reader

/-! ## Section 2: Times when much is open -/

/-- Reading any tokens with these lexemes from `s`, at some time at least `n` are open. -/
def Passes (s : State) (ls : List Lexeme) (n : Nat) : Prop :=
  ∀ ts : List Token, ts.map Token.lexeme = ls →
    ∃ front rest s', ts = front ++ rest ∧ front.foldlM step s = .ok s' ∧ n ≤ s'.opened

section passes
variable {s s₁ : State} {l : Lexeme} {ls ls' : List Lexeme} {n : Nat}

theorem Passes.now (h : n ≤ s.opened) (ls : List Lexeme) : Passes s ls n :=
  fun ts _ => ⟨[], ts, s, rfl, rfl, h⟩

theorem Passes.append (h : Passes s ls n) (ls' : List Lexeme) : Passes s (ls ++ ls') n := by
  intro ts hts
  obtain ⟨ts₁, ts₂, rfl, h₁, -⟩ := List.map_eq_append_iff.mp hts
  obtain ⟨front, rest, s', rfl, hfold, hn⟩ := h ts₁ h₁
  exact ⟨front, rest ++ ts₂, s', List.append_assoc _ _ _, hfold, hn⟩

theorem Reads.passes (h : Reads s ls s₁) (h' : Passes s₁ ls' n) : Passes s (ls ++ ls') n := by
  intro ts hts
  obtain ⟨ts₁, ts₂, rfl, h₁, h₂⟩ := List.map_eq_append_iff.mp hts
  obtain ⟨front, rest, s', rfl, hfold, hn⟩ := h' ts₂ h₂
  refine ⟨ts₁ ++ front, rest, s', (List.append_assoc _ _ _).symm, ?_, hn⟩
  rw [List.foldlM_append, h ts₁ h₁]
  exact hfold

/-- Of two times the one at which more is open counts. -/
theorem Passes.max {k m : Nat} (h : Passes s ls (k + n)) (h' : Passes s (ls ++ ls') (k + m)) :
    Passes s (ls ++ ls') (k + max n m) := by
  rcases Nat.le_total m n with hle | hle
  · rw [Nat.max_eq_left hle]
    exact h.append ls'
  · rw [Nat.max_eq_right hle]
    exact h'

theorem Passes.cons
    (h : ∀ t : Token, t.lexeme = l → ∃ s₁, step s t = .ok s₁ ∧ Passes s₁ ls n) :
    Passes s (l :: ls) n := by
  intro ts hts
  obtain ⟨t, ts', rfl, ht, hts'⟩ := List.map_eq_cons_iff.mp hts
  obtain ⟨s₁, hstep, hpasses⟩ := h t ht
  obtain ⟨front, rest, s', rfl, hfold, hn⟩ := hpasses ts' hts'
  refine ⟨t :: front, rest, s', rfl, ?_, hn⟩
  rw [List.foldlM_cons, hstep]
  exact hfold

/-- Wherever an alternative may begin it is read as one that is expected. -/
theorem Passes.of_takesOperand (hs : s.mode.takesOperand = true) (d : DisjunctionTree)
    (h : Passes { s with mode := .operand } d.lexemes n) : Passes s d.lexemes n := by
  obtain ⟨l, ls, hl, hbegins, hand⟩ := d.exists_head
  rw [hl] at h ⊢
  intro ts hts
  obtain ⟨front, rest, s', rfl, hfold, hn⟩ := h ts hts
  cases front with
  | nil =>
    obtain rfl := Except.ok.inj hfold
    exact ⟨[], rest, s, rfl, rfl, Nat.le_trans hn (frames_le_opened s)⟩
  | cons t front =>
    obtain ⟨ht, -⟩ := List.cons.inj hts
    refine ⟨t :: front, rest, s', rfl, ?_, hn⟩
    rw [List.foldlM_cons] at hfold ⊢
    rw [step_of_takesOperand hs (ht ▸ hbegins) (ht ▸ hand)]
    exact hfold

end passes

/-! ## Section 3: How deep a derivation is -/

mutual

/-- How many lists are open at once, at most. -/
def ValueTree.depth : ValueTree → Nat
  | .atom _ _ _ => 0
  | .emptyList => 1
  | .list items => items.depth + 1

/-- How many lists are open at once: neighbours do not add up. -/
def ItemsTree.depth : ItemsTree → Nat
  | .last v => v.depth
  | .more v rest => max v.depth rest.depth

end

mutual

/-- How many negations, parentheses and lists are open at once, at most. -/
def OperandTree.depth : OperandTree → Nat
  | .negation _ u => u.depth + 1
  | .group d => d.depth + 1
  | .condition c => c.value.depth

/-- How many negations, parentheses and lists are open at once. -/
def ConjunctionTree.depth : ConjunctionTree → Nat
  | .last u => u.depth
  | .adjacent u rest => max u.depth rest.depth
  | .joined u _ rest => max u.depth rest.depth

/-- How many negations, parentheses and lists are open at once. -/
def DisjunctionTree.depth : DisjunctionTree → Nat
  | .last c => c.depth
  | .joined c _ rest => max c.depth rest.depth

end

/-- How many negations, parentheses and lists are open at once, at most. -/
def QueryTree.depth (d : QueryTree) : Nat := d.expression.elim 0 DisjunctionTree.depth

mutual

/-- The lists in an item are open at some time, with those around it. -/
theorem ValueTree.passes_item : ∀ (v : ValueTree) {s : State} {f : Field} {op : Operator}
    {start : Nat} {items : List Literal} {outer : List (List Literal)} {place : ListPlace},
    s.mode = .list f op start items outer place → place ≠ .separator →
      Passes s v.lexemes (s.opened + v.depth)
  | .atom l lit spelled, s, f, op, start, items, outer, place, _, _ =>
    Passes.now (Nat.le_refl _) _
  | .emptyList, s, f, op, start, items, outer, place, hs, hp =>
    Passes.cons fun t ht => ⟨_, step_list_openBracket hs hp ht, Passes.now (by
      simp only [State.opened, Mode.lists, hs, ValueTree.depth, List.length_cons]
      omega) _⟩
  | .list its, s, f, op, start, items, outer, place, hs, hp =>
    Passes.cons fun t ht => ⟨_, step_list_openBracket hs hp ht, by
      refine Passes.append ?_ _
      have h := ItemsTree.passes its (s := { s with
        mode := .list f op start [] (items :: outer) .first }) rfl (by simp)
      simp only [State.opened, Mode.lists, hs, ValueTree.depth, List.length_cons] at h ⊢
      rwa [show s.frames.length + (outer.length + 1) + (its.depth + 1) =
        s.frames.length + (outer.length + 1 + 1) + its.depth by omega]⟩

theorem ItemsTree.passes : ∀ (its : ItemsTree) {s : State} {f : Field} {op : Operator}
    {start : Nat} {items : List Literal} {outer : List (List Literal)} {place : ListPlace},
    s.mode = .list f op start items outer place → place ≠ .separator →
      Passes s its.lexemes (s.opened + its.depth)
  | .last v, s, f, op, start, items, outer, place, hs, hp => ValueTree.passes_item v hs hp
  | .more v rest, s, f, op, start, items, outer, place, hs, hp => by
    refine (ValueTree.passes_item v hs hp).max ?_
    refine (v.reads_item hs hp).passes (Passes.cons fun t ht => ?_)
    refine ⟨_, step_list_comma rfl ht, ?_⟩
    have h := ItemsTree.passes rest (s := { s with
      mode := .list f op start (items ++ [v.literal]) outer .item }) rfl (by simp)
    simpa only [State.opened, Mode.lists, hs] using h

end

/-- The lists in a value are open at some time. -/
theorem ValueTree.passes (v : ValueTree) {s : State} {f : Field} {op : Operator}
    (hs : s.mode = .value f op) : Passes s v.lexemes (s.frames.length + v.depth) := by
  have hopen : ∀ t : Token, t.lexeme = .openBracket →
      step s t = .ok { s with mode := .list f op t.start [] [] .first } := by
    intro t ht
    simp [step, hs, readValue, single?_openBracket ht, ht]
  cases v with
  | atom l lit spelled => exact Passes.now (frames_le_opened s) _
  | emptyList => exact Passes.cons fun t ht => ⟨_, hopen t ht, Passes.now (Nat.le_refl _) _⟩
  | list items =>
    refine Passes.cons fun t ht => ⟨_, hopen t ht, Passes.append ?_ _⟩
    have h := items.passes (s := { s with mode := .list f op t.start [] [] .first }) rfl (by simp)
    simp only [State.opened, Mode.lists, List.length_nil, ValueTree.depth] at h ⊢
    rwa [show s.frames.length + (items.depth + 1) = s.frames.length + (0 + 1) + items.depth by
      omega]

/-- Where null is compared, no list is open. -/
theorem ValueTree.depth_of_null {v : ValueTree} (h : v.literal = .null) : v.depth = 0 := by
  cases v with
  | atom l lit spelled => rfl
  | emptyList => simp [ValueTree.literal] at h
  | list items => simp [ValueTree.literal] at h

theorem ConditionTree.passes (c : ConditionTree) {s : State} (hs : s.mode = .operand) :
    Passes s c.lexemes (s.frames.length + c.value.depth) := by
  obtain ⟨n, o, v, hacc, hfits⟩ := c
  refine Passes.cons fun t ht => ⟨{ s with mode := .operator n.field }, ?_, ?_⟩
  · exact step_name hs ht
  · cases o with
    | is k =>
      dsimp only
      rw [ValueTree.depth_of_null (literal_eq_null hfits)]
      exact Passes.now (frames_le_opened _) _
    | _ =>
      have hreads := OperatorTree.reads_lexemes _
        (s := { s with mode := .operator n.field }) rfl hacc (by simp)
      exact hreads.passes (v.passes rfl)

mutual

/-- What an operand opens is open at some time, with what is around it. -/
theorem OperandTree.passes : ∀ (u : OperandTree) {s : State}, s.mode = .operand →
    s.frames.length + u.nesting ≤ maxNesting → Passes s u.lexemes (s.frames.length + u.depth)
  | .negation k u, s, hs, hd => by
    simp only [OperandTree.nesting] at hd
    refine Passes.cons fun t ht => ⟨{ s with frames := .negation :: s.frames }, ?_, ?_⟩
    · rw [step_not hs ht, push_of_lt (by omega), hs]
    · have h := OperandTree.passes u (s := { s with frames := .negation :: s.frames }) hs
        (by simp only [List.length_cons]; omega)
      rw [List.length_cons] at h
      rwa [OperandTree.depth, ← Nat.add_assoc, Nat.add_right_comm]
  | .group d, s, hs, hd => by
    simp only [OperandTree.nesting] at hd
    refine Passes.cons fun t ht =>
      ⟨{ s with frames := .group s.group :: s.frames, group := {} }, ?_, Passes.append ?_ _⟩
    · rw [step_openParen hs ht, push_of_lt (by omega), hs]
    · have h := DisjunctionTree.passes d
        (s := { s with frames := .group s.group :: s.frames, group := {} }) hs
        (by simp only [List.length_cons]; omega) trivial
      rw [List.length_cons] at h
      rwa [OperandTree.depth, ← Nat.add_assoc, Nat.add_right_comm]
  | .condition c, s, hs, _ => ConditionTree.passes c hs

theorem ConjunctionTree.passes : ∀ (c : ConjunctionTree) {s : State}, s.mode = .operand →
    s.frames.length + c.nesting ≤ maxNesting → Settled s.frames →
      Passes s c.lexemes (s.frames.length + c.depth)
  | .last u, s, hs, hd, _ => OperandTree.passes u hs hd
  | .adjacent u rest, s, hs, hd, hset => by
    simp only [ConjunctionTree.nesting] at hd
    refine (OperandTree.passes u hs (by omega)).max ?_
    have h := u.reads hs (by omega)
    rw [withOperand_of_settled hset] at h
    refine h.passes (Passes.of_takesOperand rfl (.last rest) ?_)
    exact ConjunctionTree.passes rest rfl (by dsimp only; omega) hset
  | .joined u k rest, s, hs, hd, hset => by
    simp only [ConjunctionTree.nesting] at hd
    refine (OperandTree.passes u hs (by omega)).max ?_
    have h := u.reads hs (by omega)
    rw [withOperand_of_settled hset] at h
    refine h.passes (Passes.cons fun t ht => ⟨_, step_and rfl ht, ?_⟩)
    exact ConjunctionTree.passes rest rfl (by dsimp only; omega) hset

theorem DisjunctionTree.passes : ∀ (d : DisjunctionTree) {s : State}, s.mode = .operand →
    s.frames.length + d.nesting ≤ maxNesting → Settled s.frames →
      Passes s d.lexemes (s.frames.length + d.depth)
  | .last c, s, hs, hd, hset => ConjunctionTree.passes c hs hd hset
  | .joined c k rest, s, hs, hd, hset => by
    simp only [DisjunctionTree.nesting] at hd
    refine (ConjunctionTree.passes c hs (by omega) hset).max ?_
    have h := c.reads hs (by omega) hset
    refine h.passes (Passes.cons fun t ht => ⟨_, step_or rfl ht, ?_⟩)
    exact DisjunctionTree.passes rest rfl (by dsimp only; omega) hset

end

/-- **What a derivation nests is open at some time** when its lexemes are read. -/
theorem QueryTree.passes (d : QueryTree) (hd : d.nesting ≤ maxNesting) :
    Passes {} d.lexemes d.depth := by
  obtain ⟨e, o⟩ := d
  cases e with
  | none => exact Passes.now (Nat.zero_le _) _
  | some e =>
    refine Passes.append (Passes.of_takesOperand rfl e ?_) _
    have hd' : (0 : Nat) + e.nesting ≤ maxNesting := by rwa [Nat.zero_add]
    have h := e.passes (s := { mode := .operand }) rfl hd' trivial
    rwa [List.length_nil, Nat.zero_add] at h

/-! ## Section 4: The limit -/

/-- Reading `t` comes to the state `s`, where `rest` is left of the tokens. -/
def Reaches (t : Text) (s : State) (rest : List Token) : Prop :=
  ∃ front, (lex t).upToEnd t.length = front ++ rest ∧ front.foldlM step {} = .ok s

/-- The limit guards all that nests: no more than a hundred constructs are ever open, the first
    token that would open one more is refused, and no query that is read nests deeper. -/
structure Guarded (t : Text) : Prop where
  within   : ∀ {s : State} {rest : List Token}, Reaches t s rest → s.opened ≤ maxNesting
  refused  : ∀ {s : State} {token : Token} {rest : List Token}, Reaches t s (token :: rest) →
    s.opened = maxNesting → OpensOperand s token ∨ OpensList s token →
      Query.read t = .error ⟨.tooDeep, token.start, token.stop⟩
  accepted : ∀ {q : Query} {d : QueryTree}, Query.read t = .ok q →
    d.lexemes = (lex t).tokens.map Token.lexeme → d.depth ≤ maxNesting

section limit
variable {t : Text} {s : State} {token : Token} {rest : List Token}

theorem Reaches.step {s' : State} (h : Reaches t s (token :: rest))
    (hstep : step s token = .ok s') : Reaches t s' rest := by
  obtain ⟨front, hcut, hfold⟩ := h
  refine ⟨front ++ [token], by simp [hcut], ?_⟩
  rw [List.foldlM_append, hfold]
  show [token].foldlM Reader.step s = .ok s'
  rw [List.foldlM_cons, hstep]
  rfl

theorem Reaches.read_eq_error {e : QueryError} (h : Reaches t s (token :: rest))
    (hstep : Reader.step s token = .error e) : Query.read t = .error e := by
  obtain ⟨front, hcut, hfold⟩ := h
  exact read_of_step_error hcut hfold hstep

/-- What holds at the beginning and is kept by each token that is taken holds of every state
    that reading comes to. -/
theorem Reaches.induction {motive : State → Prop} (start : motive {})
    (next : ∀ {s s' : State} {token : Token} {rest : List Token}, Reaches t s (token :: rest) →
      motive s → Reader.step s token = .ok s' → motive s') (h : Reaches t s rest) :
    motive s := by
  obtain ⟨front, hcut, hfold⟩ := h
  -- the last token that was taken leads here from a state that was reached before
  induction front using List.reverseRecOn generalizing s rest with
  | nil =>
    obtain rfl := Except.ok.inj hfold
    exact start
  | append_singleton front token ih =>
    rw [List.append_assoc, List.singleton_append] at hcut
    rw [List.foldlM_append] at hfold
    obtain ⟨s₁, hfold₁, hlast⟩ := bind_eq_ok_iff.mp hfold
    rw [List.foldlM_cons] at hlast
    obtain ⟨s₂, hstep, hlast⟩ := bind_eq_ok_iff.mp hlast
    obtain rfl := Except.ok.inj hlast
    exact next ⟨front, hcut, hfold₁⟩ (ih hcut hfold₁) hstep

/-- **The limit guards exactly what nests on the stack**: all three parts of it hold of a text
    if and only if no list opens in it where a hundred negations, parentheses and lists are
    open already. -/
theorem guarded_iff (t : Text) : Guarded t ↔
    ∀ s token rest, Reaches t s (token :: rest) → s.opened = maxNesting → ¬OpensList s token := by
  constructor
  · -- a list that opens above the limit leaves too much open
    intro hguarded s token rest hreaches hopened hlist
    obtain ⟨s', hstep, hopened'⟩ := step_opensList hlist
    have hwithin := hguarded.within (hreaches.step hstep)
    omega
  · intro hlists
    have hwithin : ∀ {s : State} {rest : List Token}, Reaches t s rest →
        s.opened ≤ maxNesting := by
      intro s rest hreaches
      refine hreaches.induction (motive := fun s => s.opened ≤ maxNesting) (Nat.zero_le _) ?_
      intro s s' token rest hreaches hs hstep
      -- the stack has a limit of its own, and lists open below it only
      rcases step_opened hstep with ⟨-, hlt, hs'⟩ | ⟨hlist, hs'⟩ | ⟨-, -, hle⟩
      · omega
      · have hne : s.opened ≠ maxNesting := fun hopened =>
          hlists s token rest hreaches hopened hlist
        omega
      · omega
    refine ⟨hwithin, ?_, ?_⟩
    · intro s token rest hreaches hopened hopens
      have hoperand : OpensOperand s token :=
        hopens.resolve_right (hlists s token rest hreaches hopened)
      obtain ⟨frame, group, hstep⟩ := step_opensOperand hoperand
      rw [opened_of_takesOperand hoperand.1] at hopened
      refine hreaches.read_eq_error ?_
      rw [hstep, State.push, if_neg (by omega)]
      rfl
    · -- the derivation is the one that was read, and what it nests was open at some time
      intro q d hread hlex
      obtain ⟨-, d', hlex', -, hd⟩ := exists_tree_of_read hread
      obtain rfl := QueryTree.eq_of_lexemes (hlex'.trans hlex.symm)
      obtain ⟨front, rest, s, hcut, hfold, hn⟩ := d'.passes hd (lex t).tokens hlex'.symm
      have hreaches : Reaches t s (rest ++ if (lex t).error.isNone then
          [Token.atEnd t.length] else []) := by
        refine ⟨front, ?_, hfold⟩
        rw [Lexing.upToEnd, hcut, List.append_assoc]
      exact Nat.le_trans hn (hwithin hreaches)

/-- A text without lists is guarded. -/
theorem guarded_of_no_list (h : ∀ token ∈ (lex t).tokens, token.lexeme ≠ .openBracket) :
    Guarded t := by
  refine (guarded_iff t).mpr ?_
  intro s token rest hreaches _ hlist
  obtain ⟨front, hcut, -⟩ := hreaches
  rcases upToEnd_cases hcut with ⟨rest', htokens⟩ | ⟨-, -, rfl⟩
  · exact h token (by simp [htokens]) hlist.2
  · cases hlist.2

end limit

/-! ## Section 5: Lists in lists -/

/-- As many lists in one another around an empty list. -/
def ValueTree.nested : Nat → ValueTree
  | 0 => .emptyList
  | n + 1 => .list (.last (nested n))

theorem ValueTree.depth_nested (n : Nat) : (ValueTree.nested n).depth = n + 1 := by
  induction n with
  | zero => rfl
  | succ n ih => rw [ValueTree.nested, ValueTree.depth, ItemsTree.depth, ih]

theorem ValueTree.spells_nested (n : Nat) :
    Spells (List.replicate (n + 1) '[' ++ List.replicate (n + 1) ']')
      (ValueTree.nested n).lexemes := by
  induction n with
  | zero => exact Spells.nil.bracketed
  | succ n ih =>
    rw [List.replicate_succ, List.replicate_succ' (a := ']'), ← List.append_assoc]
    exact ih.bracketed

/-- Tags accept any list of lists. -/
theorem ValueTree.nested_fits (n : Nat) :
    checkValue .tags .isIn (ValueTree.nested n).literal = none := by
  obtain ⟨items, hitems⟩ : ∃ items, (ValueTree.nested n).literal = .list items := by
    cases n with
    | zero => exact ⟨[], rfl⟩
    | succ n => exact ⟨_, rfl⟩
  rw [hitems]
  show (Literal.list items).items.findSome? (checkItem .tags) = none
  exact List.findSome?_eq_none_iff.mpr fun item _ => rfl

/-- Are the tags in the lists? -/
def nestedTags (n : Nat) : QueryTree :=
  { expression := some (.last (.last (.condition
      ⟨Field.tags.canonicalName, .isIn capitalIn, .nested n, rfl, ValueTree.nested_fits n⟩)))
    order := none }

/-- Lists nest without a limit. -/
theorem read_nestedTags (n : Nat) :
    (lex ("tags IN ".toList ++
        (List.replicate (n + 1) '[' ++ List.replicate (n + 1) ']'))).tokens.map Token.lexeme =
      (nestedTags n).lexemes ∧
    Query.read ("tags IN ".toList ++
        (List.replicate (n + 1) '[' ++ List.replicate (n + 1) ']')) =
      .ok (nestedTags n).query := by
  have hin : Spells "IN".toList [capitalIn.lexeme] :=
    Keyword.spells_word (by simp [writtenWords])
  have hspells := Field.tags.spells_name.space (hin.space (ValueTree.spells_nested n))
  obtain ⟨herror, hlex⟩ := hspells.lex_eq
  have hlexemes : (nestedTags n).lexemes = [Field.tags.canonicalName.lexeme] ++
      ([capitalIn.lexeme] ++ (ValueTree.nested n).lexemes) := List.append_nil _
  rw [← hlexemes] at hlex
  exact ⟨hlex, read_of_lexemes herror hlex.symm (Nat.zero_le _)⟩

/-- **The limit does not guard lists**: a query with a hundred and one lists in one another is
    read. -/
theorem not_guarded_nestedTags :
    ¬Guarded ("tags IN ".toList ++ (List.replicate 101 '[' ++ List.replicate 101 ']')) := by
  intro hguarded
  obtain ⟨hlex, hread⟩ := read_nestedTags 100
  have hdepth := hguarded.accepted hread hlex.symm
  have hnested : (nestedTags 100).depth = 101 := ValueTree.depth_nested 100
  rw [hnested] at hdepth
  exact absurd hdepth (by decide)

end Agenda.Filter
