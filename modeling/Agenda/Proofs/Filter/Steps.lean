import Mathlib.Data.List.Induction
import Agenda.Proofs.Filter.Reading

/-! # What the reader does with one token

    Every way to take a token, each with the lexemes it is open to, the place where it is open,
    and the state it leads to (`Takes`).  Whatever step the reader makes is one of them
    (`step_cases`), so what is to hold of every state that reading comes to is shown by going
    through them once (`reached_of_steps`). -/

namespace Agenda.Filter.Reader

/-! ## Section 1: Ways to take a token -/

/-- May an operand begin here? -/
def Mode.takesOperand : Mode → Bool
  | .start | .operand | .connective => true
  | _ => false

/-- A value for the field and the operator may begin here. -/
def Mode.Awaits (m : Mode) (f : Field) (op : Operator) : Prop :=
  m = .value f op ∨ ∃ start stop, m = .afterIs f start stop ∧ op = .is ∧ f.accepts .is = true

/-- In the state `s` the reader takes a token with this lexeme and is in the next state then. -/
inductive Takes (s : State) : Lexeme → State → Prop where
  | negation (k : Keyword "not") (hmode : s.mode.takesOperand = true)
      (hlt : s.frames.length < maxNesting) :
      Takes s k.lexeme { s with frames := .negation :: s.frames, mode := .operand }
  | group (hmode : s.mode.takesOperand = true) (hlt : s.frames.length < maxNesting) :
      Takes s .openParen
        { s with frames := .group s.group :: s.frames, group := {}, mode := .operand }
  | field (n : FieldName) (hmode : s.mode.takesOperand = true) :
      Takes s n.lexeme { s with mode := .operator n.field }
  | conjunction (k : Keyword "and") (hmode : s.mode = .connective) :
      Takes s k.lexeme { s with mode := .operand }
  | alternative (k : Keyword "or") (hmode : s.mode = .connective) :
      Takes s k.lexeme { s with group := s.group.nextAlternative, mode := .operand }
  | groupEnd {outer : Group} {frames : List Frame} {e : Expr} (hmode : s.mode = .connective)
      (hframes : s.frames = .group outer :: frames) :
      Takes s .closeParen (({ s with frames := frames, group := outer } : State).withOperand e)
  | symbol {f : Field} (op : Operator) (hmode : s.mode = .operator f)
      (hf : f.accepts op = true) : Takes s (.op op) { s with mode := .value f op }
  | is {f : Field} (k : Keyword "is") (hmode : s.mode = .operator f) (start stop : Nat) :
      Takes s k.lexeme { s with mode := .afterIs f start stop }
  | isNot {f : Field} {start stop : Nat} (k : Keyword "not")
      (hmode : s.mode = .afterIs f start stop) (hf : f.accepts .isNot = true) :
      Takes s k.lexeme { s with mode := .value f .isNot }
  | isIn {f : Field} (k : Keyword "in") (hmode : s.mode = .operator f)
      (hf : f.accepts .isIn = true) : Takes s k.lexeme { s with mode := .value f .isIn }
  | not {f : Field} (k : Keyword "not") (hmode : s.mode = .operator f) (start : Nat) :
      Takes s k.lexeme { s with mode := .afterNot f start }
  | notIn {f : Field} {start : Nat} (k : Keyword "in") (hmode : s.mode = .afterNot f start)
      (hf : f.accepts .notIn = true) : Takes s k.lexeme { s with mode := .value f .notIn }
  | value {f : Field} {op : Operator} {l : Lexeme} {v : Literal} (hmode : s.mode.Awaits f op)
      (hv : Atom l v) (hfits : checkValue f op v = none) :
      Takes s l (s.withOperand (.cond ⟨f, op, v⟩))
  | list {f : Field} {op : Operator} (hmode : s.mode.Awaits f op) (start : Nat) :
      Takes s .openBracket { s with mode := .list f op start [] [] .first }
  | item {f : Field} {op : Operator} {start : Nat} {items : List Literal}
      {outer : List (List Literal)} {place : ListPlace} {l : Lexeme} {v : Literal}
      (hmode : s.mode = .list f op start items outer place) (hplace : place ≠ .separator)
      (hv : Atom l v) :
      Takes s l { s with mode := .list f op start (items ++ [v]) outer .separator }
  | innerList {f : Field} {op : Operator} {start : Nat} {items : List Literal}
      {outer : List (List Literal)} {place : ListPlace}
      (hmode : s.mode = .list f op start items outer place) (hplace : place ≠ .separator) :
      Takes s .openBracket { s with mode := .list f op start [] (items :: outer) .first }
  | innerListEnd {f : Field} {op : Operator} {start : Nat} {items around : List Literal}
      {outer : List (List Literal)} {place : ListPlace}
      (hmode : s.mode = .list f op start items (around :: outer) place) :
      Takes s .closeBracket
        { s with mode := .list f op start (around ++ [.list items]) outer .separator }
  | listEnd {f : Field} {op : Operator} {start : Nat} {items : List Literal} {place : ListPlace}
      (hmode : s.mode = .list f op start items [] place)
      (hfits : checkValue f op (.list items) = none) :
      Takes s .closeBracket (s.withOperand (.cond ⟨f, op, .list items⟩))
  | comma {f : Field} {op : Operator} {start : Nat} {items : List Literal}
      {outer : List (List Literal)} (hmode : s.mode = .list f op start items outer .separator) :
      Takes s .comma { s with mode := .list f op start items outer .item }
  | order (k : Keyword "order")
      (hmode : s.mode = .start ∨
        s.mode = .connective ∧ ∀ outer frames, s.frames ≠ .group outer :: frames) :
      Takes s k.lexeme { s with mode := .order }
  | orderBy (k : Keyword "by") (hmode : s.mode = .order) :
      Takes s k.lexeme { s with mode := .orderField }
  | orderField (n : FieldName) (hmode : s.mode = .orderField) (hf : n.field.sortable = true) :
      Takes s n.lexeme
        { s with mode := .orderDirection n.field, orderBy := some { field := n.field } }
  | ascending {f : Field} (k : Keyword "asc") (hmode : s.mode = .orderDirection f) :
      Takes s k.lexeme { s with mode := .finish }
  | descending {f : Field} (k : Keyword "desc") (hmode : s.mode = .orderDirection f) :
      Takes s k.lexeme
        { s with mode := .finish, orderBy := some { field := f, direction := .descending } }

/-! ## Section 2: Every step is one of them -/

section steps
variable {s s' : State} {token : Token} {f : Field} {op : Operator}

theorem takes_of_readOperand (hmode : s.mode.takesOperand = true)
    (h : readOperand s token = .ok s') : Takes s token.lexeme s' := by
  rcases readOperand_cases h with ⟨k, hk, hlt, rfl⟩ | ⟨hparen, hlt, rfl⟩ | ⟨n, hn, rfl⟩
  · exact hk ▸ .negation k hmode hlt
  · exact hparen ▸ .group hmode hlt
  · exact hn ▸ .field n hmode

/-- The mode of a state that is not read any further can be any. -/
theorem takes_of_readValue {m : Mode} (hmode : s.mode.Awaits f op)
    (h : readValue { s with mode := m } f op token = .ok s') : Takes s token.lexeme s' := by
  rcases readValue_cases h with ⟨v, hv, hfits, rfl⟩ | ⟨hbracket, rfl⟩
  · exact .value hmode hv hfits
  · exact hbracket ▸ .list hmode token.start

theorem takes_of_closeList {start : Nat} {items : List Literal} {outer : List (List Literal)}
    {place : ListPlace} (hmode : s.mode = .list f op start items outer place)
    (h : s.closeList f op start items outer token = .ok s') : Takes s .closeBracket s' := by
  unfold State.closeList at h
  cases outer with
  | nil =>
    obtain ⟨hfits, rfl⟩ := withValue_cases h
    exact .listEnd hmode hfits
  | cons around outer =>
    obtain rfl := Except.ok.inj h
    exact .innerListEnd hmode

theorem takes_of_list {start : Nat} {items : List Literal} {outer : List (List Literal)}
    {place : ListPlace} (hmode : s.mode = .list f op start items outer place)
    (h : step s token = .ok s') : Takes s token.lexeme s' := by
  have hclose : place ≠ .item → token.lexeme = .closeBracket → Takes s token.lexeme s' := by
    intro hplace ht
    rw [step_list_closeBracket hmode hplace ht] at h
    exact ht ▸ takes_of_closeList hmode h
  by_cases hplace : place = .separator
  · subst hplace
    rcases step_separator_cases hmode h with ⟨ht, rfl⟩ | ht
    · exact ht ▸ .comma hmode
    · exact hclose (by simp) ht
  · rcases step_list_cases hmode hplace h with ⟨v, hv, rfl⟩ | ⟨ht, rfl⟩ | ⟨ht, hfirst⟩
    · exact .item hmode hplace hv
    · exact ht ▸ .innerList hmode hplace
    · exact hclose (by simp [hfirst]) ht

theorem takes_of_readGroupEnd (hmode : s.mode = .connective)
    (h : readGroupEnd s token = .ok s') :
    Takes s token.lexeme s' ∨ token.lexeme = .finish ∧ s' = s := by
  unfold readGroupEnd at h
  split at h
  · next outer frames hframes =>
    split at h
    · next ht he =>
      obtain rfl := Except.ok.inj h
      exact Or.inl (ht ▸ .groupEnd hmode hframes)
    · cases h
  · next hframes =>
    split_ifs at h with horder
    · obtain ⟨k, hk⟩ := exists_keyword horder
      obtain rfl := Except.ok.inj h
      exact Or.inl (hk ▸ .order k (Or.inr ⟨hmode, hframes⟩))
    · exact Or.inr (readEnd_cases h)

theorem takes_of_readConnective (hmode : s.mode = .connective)
    (h : readConnective s token = .ok s') :
    Takes s token.lexeme s' ∨ token.lexeme = .finish ∧ s' = s := by
  unfold readConnective at h
  split_ifs at h with hand hbegins hor
  · obtain ⟨k, hk⟩ := exists_keyword hand
    obtain rfl := Except.ok.inj h
    exact Or.inl (hk ▸ .conjunction k hmode)
  · exact Or.inl (takes_of_readOperand (by rw [hmode]; rfl) h)
  · obtain ⟨k, hk⟩ := exists_keyword hor
    obtain rfl := Except.ok.inj h
    exact Or.inl (hk ▸ .alternative k hmode)
  · exact takes_of_readGroupEnd hmode h

/-- **Every step of the reader is one of the ways to take a token**, but for the end of the text,
    which leaves the reader where it is. -/
theorem step_cases (h : step s token = .ok s') :
    Takes s token.lexeme s' ∨ token.lexeme = .finish ∧ s' = s := by
  cases hs : s.mode with
  | start =>
    simp only [step, hs] at h
    split_ifs at h with horder
    · obtain ⟨k, hk⟩ := exists_keyword horder
      obtain rfl := Except.ok.inj h
      exact Or.inl (hk ▸ .order k (Or.inl hs))
    · split at h
      · next hfinish => exact Or.inr ⟨hfinish, (Except.ok.inj h).symm⟩
      · exact Or.inl (takes_of_readOperand (by rw [hs]; rfl) h)
  | operand =>
    simp only [step, hs] at h
    exact Or.inl (takes_of_readOperand (by rw [hs]; rfl) h)
  | operator f =>
    left
    simp only [step, hs] at h
    rcases readOperator_cases h with
      ⟨op, ht, hf, rfl⟩ | ⟨k, hk, rfl⟩ | ⟨k, hk, hf, rfl⟩ | ⟨k, hk, rfl⟩
    · exact ht ▸ .symbol op hs hf
    · exact hk ▸ .is k hs _ _
    · exact hk ▸ .isIn k hs hf
    · exact hk ▸ .not k hs _
  | afterIs f start stop =>
    left
    rcases step_afterIs_cases hs h with ⟨k, hk, hf, rfl⟩ | ⟨hf, h⟩
    · exact hk ▸ .isNot k hs hf
    · exact takes_of_readValue (Or.inr ⟨start, stop, hs, rfl, hf⟩) h
  | afterNot f start =>
    obtain ⟨k, hk, hf, rfl⟩ := step_afterNot_cases hs h
    exact Or.inl (hk ▸ .notIn k hs hf)
  | value f op =>
    simp only [step, hs] at h
    exact Or.inl (takes_of_readValue (m := s.mode) (Or.inl hs) h)
  | list f op start items outer place => exact Or.inl (takes_of_list hs h)
  | connective =>
    simp only [step, hs] at h
    exact takes_of_readConnective hs h
  | order =>
    simp only [step, hs] at h
    split_ifs at h with hby
    · obtain ⟨k, hk⟩ := exists_keyword hby
      obtain rfl := Except.ok.inj h
      exact Or.inl (hk ▸ .orderBy k hs)
    · cases h
  | orderField =>
    simp only [step, hs] at h
    obtain ⟨n, hn, hf, rfl⟩ := readOrderField_cases h
    exact Or.inl (hn ▸ .orderField n hs hf)
  | orderDirection f =>
    simp only [step, hs, readDirection] at h
    split_ifs at h with hasc hdesc
    · obtain ⟨k, hk⟩ := exists_keyword hasc
      obtain rfl := Except.ok.inj h
      exact Or.inl (hk ▸ .ascending k hs)
    · obtain ⟨k, hk⟩ := exists_keyword hdesc
      obtain rfl := Except.ok.inj h
      exact Or.inl (hk ▸ .descending k hs)
    · exact Or.inr (readEnd_cases h)
  | finish =>
    simp only [step, hs] at h
    exact Or.inr (readEnd_cases h)

theorem step_takes (h : step s token = .ok s') (hend : token.lexeme ≠ .finish) :
    Takes s token.lexeme s' :=
  (step_cases h).resolve_right fun hfinish => hend hfinish.1

/-- **What holds at the beginning and is kept by every way to take a token** holds of the state
    that reading comes to and of the tokens that have been taken. -/
theorem reached_of_steps {motive : State → List Token → Prop} {tokens : List Token}
    (start : motive {} [])
    (next : ∀ {s s' : State} {front : List Token} {token : Token}, token ∈ tokens →
      motive s front → Takes s token.lexeme s' → motive s' (front ++ [token]))
    (hend : NoEnd tokens) (h : tokens.foldlM step {} = .ok s) : motive s tokens := by
  -- the induction is on the tokens taken so far, which begin those that there are
  have hfront : ∀ front rest, tokens = front ++ rest → ∀ s, front.foldlM step {} = .ok s →
      motive s front := by
    intro front
    induction front using List.reverseRecOn with
    | nil =>
      intro rest _ s hfold
      obtain rfl := Except.ok.inj hfold
      exact start
    | append_singleton front token ih =>
      intro rest htokens s hfold
      rw [List.append_assoc] at htokens
      rw [List.foldlM_append] at hfold
      obtain ⟨s₁, hfold₁, hlast⟩ := bind_eq_ok_iff.mp hfold
      rw [List.foldlM_cons] at hlast
      obtain ⟨s₂, hstep, hlast⟩ := bind_eq_ok_iff.mp hlast
      obtain rfl := Except.ok.inj hlast
      have hmem : token ∈ tokens := by simp [htokens]
      exact next hmem (ih _ htokens s₁ hfold₁) (step_takes hstep (hend token hmem))
  exact hfront tokens [] (List.append_nil tokens).symm s h

end steps

end Agenda.Filter.Reader
