import Agenda.Proofs.Completion.Offers
import Agenda.Proofs.Filter.Longer

/-! # Where suggestions lead

    Completion looks at the last pieces in front of the word and never at what a field accepts,
    so not all that it offers can be read there.  What can is known from the state that the
    reader is in (`Leads`): with such a suggestion the reader can come to rest
    (`Leads.completesAfter`), and behind any other nothing is accepted (`leads_of_taken`).  Where
    the pieces show that a value or an item is due, what is offered leads on
    (`leads_of_keeps`). -/

namespace Agenda.Filter.Completion

open Reader

/-! ## Section 1: What is offered, as tokens -/

/-- A text that can be offered, and the lexemes that it is cut into. -/
inductive Offer : Text → List Lexeme → Prop where
  | name (f : Field) : Offer f.name [f.canonicalName.lexeme]
  | conjunction : Offer "AND".toList [capitalAnd.lexeme]
  | alternative : Offer "OR".toList [capitalOr.lexeme]
  | negation : Offer "NOT".toList [capitalNot.lexeme]
  | order : Offer "ORDER BY".toList [capitalOrder.lexeme, capitalBy.lexeme]
  | status {w : Text} (hw : w ∈ Status.offered) : Offer w [.word w]
  | quoted (t : Text) : Offer (Literal.renderText t) [.string t]

/-- The words that go on with an operator or an order, and those that are no texts. -/
def laterWords : List Text :=
  ["is".toList, "in".toList, "by".toList, "asc".toList, "desc".toList,
   "null".toList, "true".toList, "false".toList]

/-- A string, or a word that is none of those. -/
def Quiet : Lexeme → Prop
  | .string _ => True
  | .word w => Text.lower w ∉ laterWords
  | _ => False

/-- A string, or a word that neither joins operands nor begins one. -/
def Stray : Lexeme → Prop
  | .string _ => True
  | .word w => Text.lower w ∉ reservedWords ∧ Field.find? w = none
  | _ => False

section offers
variable {v : Text} {l : Lexeme} {ls ls' : List Lexeme} {f : Field}

/-- The words of a status are words, name no field and are no words of the language. -/
theorem offered_words : ∀ w ∈ Status.offered, isWholeWord w = true ∧
    Text.lower w ∉ laterWords ∧ Text.lower w ∉ reservedWords ∧ Field.find? w = none := by
  decide +kernel

theorem Offer.spells (h : Offer v ls) : Spells v ls := by
  cases h with
  | name f => exact f.spells_name
  | conjunction => exact capitalAnd.spells_word (by simp [writtenWords])
  | alternative => exact capitalOr.spells_word (by simp [writtenWords])
  | negation => exact capitalNot.spells_word (by simp [writtenWords])
  | order =>
    have hby : Spells capitalBy.word [capitalBy.lexeme] :=
      capitalBy.spells_word (by simp [writtenWords])
    exact (capitalOrder.spells_word (by simp [writtenWords])).space hby
  | status hw => exact .word (offered_words _ hw).1
  | quoted t => exact .string t

/-- A text is cut in one way only. -/
theorem Offer.eq_of_spells (h : Offer v ls) (h' : Spells v ls') : ls = ls' :=
  h.spells.lex_eq.2.symm.trans h'.lex_eq.2

theorem quiet_name (f : Field) : Quiet f.canonicalName.lexeme := by
  show Text.lower f.name ∉ laterWords
  cases f <;> decide +kernel

theorem quiet_keyword {w : String} (k : Keyword w) (hw : w.toList ∉ laterWords) :
    Quiet k.lexeme := by
  show Text.lower k.word ∉ laterWords
  rwa [k.spells]

theorem Offer.quiet (h : Offer v ls) : ∃ l rest, ls = l :: rest ∧ Quiet l := by
  cases h with
  | name f => exact ⟨_, _, rfl, quiet_name f⟩
  | status hw => exact ⟨_, _, rfl, (offered_words _ hw).2.1⟩
  | quoted t => exact ⟨_, _, rfl, trivial⟩
  | _ => exact ⟨_, _, rfl, quiet_keyword _ (by decide)⟩

theorem Quiet.ne_keyword {w : String} (h : Quiet l) (k : Keyword w) (hw : w.toList ∈ laterWords) :
    l ≠ k.lexeme := by
  rintro rfl
  have hno : Text.lower k.word ∉ laterWords := h
  rw [k.spells] at hno
  exact hno hw

theorem Stray.ne_keyword {w : String} (h : Stray l) (k : Keyword w)
    (hw : w.toList ∈ reservedWords) : l ≠ k.lexeme := by
  rintro rfl
  have hno : Text.lower k.word ∉ reservedWords := h.1
  rw [k.spells] at hno
  exact hno hw

theorem Stray.ne_name (h : Stray l) (n : FieldName) : l ≠ n.lexeme := by
  rintro rfl
  have hnone : Field.find? n.word = none := h.2
  rw [n.found] at hnone
  cases hnone

theorem Stray.ne_finish (h : Stray l) : l ≠ .finish := by
  rintro rfl
  exact h

theorem Quiet.atom_word {w : Text} (h : Quiet (.word w)) : Atom (.word w) (.text w) := by
  have hw : Text.lower w ∉ laterWords := h
  have hsub : ["null".toList, "true".toList, "false".toList] ⊆ laterWords := by decide
  exact .word fun hmem => hw (hsub hmem)

/-- As a value such a lexeme is a text. -/
theorem Quiet.exists_text (h : Quiet l) : ∃ x, Atom l (.text x) ∧ ∀ v, Atom l v → v = .text x := by
  cases l with
  | string t =>
    refine ⟨t, .string t, fun v hv => ?_⟩
    cases hv
    rfl
  | word w =>
    have hw : Text.lower w ∉ laterWords := h
    refine ⟨w, h.atom_word, fun v hv => ?_⟩
    cases hv with
    | null hnull => exact absurd (by rw [hnull]; decide) hw
    | isTrue htrue => exact absurd (by rw [htrue]; decide) hw
    | isFalse hfalse => exact absurd (by rw [hfalse]; decide) hw
    | word => rfl
  | _ => exact h.elim

/-- Only the negation is cut into `NOT`. -/
theorem Offer.eq_not {k : Keyword "not"} (h : Offer v (k.lexeme :: ls)) :
    v = "NOT".toList ∧ ls = [] := by
  generalize hls : k.lexeme :: ls = ls' at h
  have hmem : "not".toList ∈ reservedWords := by simp [reservedWords]
  cases h with
  | negation => exact ⟨rfl, (List.cons.inj hls).2⟩
  | name f => exact absurd (List.cons.inj hls).1.symm (f.canonicalName.lexeme_ne_keyword k hmem)
  | status hw =>
    have hstray : Stray (.word v) := (offered_words _ hw).2.2
    exact absurd (List.cons.inj hls).1.symm (hstray.ne_keyword k hmem)
  | quoted t => exact absurd (List.cons.inj hls).1 nofun
  | _ => exact absurd (Keyword.eq_of_lexeme_eq (List.cons.inj hls).1) (by decide)

/-- Only the name of a field is cut into one. -/
theorem Offer.eq_name {n : FieldName} (h : Offer v (n.lexeme :: ls)) : v = n.field.name := by
  generalize hls : n.lexeme :: ls = ls' at h
  cases h with
  | name f =>
    obtain rfl := FieldName.lexeme_inj (List.cons.inj hls).1
    rfl
  | status hw =>
    have hstray : Stray (.word v) := (offered_words _ hw).2.2
    exact absurd (List.cons.inj hls).1.symm (hstray.ne_name n)
  | quoted t => exact absurd (List.cons.inj hls).1 nofun
  | _ => exact absurd (List.cons.inj hls).1 (n.lexeme_ne_keyword _ (by simp [reservedWords]))

end offers

/-! ## Section 2: What leads on -/

/-- The text can be read here: as a value that fits, or as an item of a list that can be
    closed with it. -/
inductive Fits (s : State) (x : Text) : Prop where
  | value {f : Field} {op : Operator} (hs : s.mode = .value f op)
      (hx : checkValue f op (.text x) = none)
  | item {f : Field} {op : Operator} {start : Nat} {items : List Literal}
      {outer : List (List Literal)} {place : ListPlace}
      (hs : s.mode = .list f op start items outer place) (hplace : place ≠ .separator)
      (hx : ListFits f op (items ++ [.text x]) outer)

/-- The text `v` is one lexeme, and it says the text `x`. -/
def Says (v x : Text) : Prop := ∃ l, Spells v [l] ∧ Atom l (.text x)

/-- What can be read in the state `s`, of all that completion offers anywhere. -/
inductive Leads (s : State) (v : Text) : Prop where
  /-- A field where an operand may begin. -/
  | name {f : Field} (hs : s.mode.takesOperand = true) (hv : v = f.name)
  /-- `AND` or `OR` behind an operand. -/
  | joining (hs : s.mode = .connective) (hv : v = "AND".toList ∨ v = "OR".toList)
  /-- `NOT` where an operand may begin, unless too many constructs are open. -/
  | negation (hs : s.mode.takesOperand = true) (hroom : s.frames.length < maxNesting)
      (hv : v = "NOT".toList)
  /-- `ORDER BY` at the beginning, or behind an operand that no parenthesis is open around. -/
  | order (hs : s.mode = .start ∨ s.mode = .connective ∧ s.frames = [])
      (hv : v = "ORDER BY".toList)
  /-- The `NOT` of `NOT IN` behind a field that accepts it. -/
  | notIn {f : Field} (hs : s.mode = .operator f) (hf : f.accepts .notIn = true)
      (hv : v = "NOT".toList)
  /-- The `NOT` of `IS NOT` behind a field that accepts it. -/
  | isNot {f : Field} {start stop : Nat} (hs : s.mode = .afterIs f start stop)
      (hf : f.accepts .isNot = true) (hv : v = "NOT".toList)
  /-- What says a text that fits, a value that is offered or any other word. -/
  | text {x : Text} (hv : Says v x) (hx : Fits s x)
  /-- A field to order by. -/
  | sortable {f : Field} (hs : s.mode = .orderField) (hf : f.sortable = true) (hv : v = f.name)

section leading
variable {σ : State} {v x : Text} {l : Lexeme} {ls : List Lexeme} {f : Field} {op : Operator}

theorem completesAfter_name (hs : σ.mode.takesOperand = true) (n : FieldName) :
    CompletesAfter σ [n.lexeme] := by
  have hnext : Completes { σ with mode := .operator n.field } := completes_operator rfl
  refine hnext.after (.single fun t ht => ?_)
  have hand : t.lexeme.isWord "and".toList = false := by
    rw [ht]
    exact n.isWord_lexeme (by simp [reservedWords])
  have hstep := step_of_takesOperand hs (ht ▸ n.beginsOperand_lexeme) hand
  exact hstep.trans (step_name (s := { σ with mode := .operand }) rfl ht)

theorem completesAfter_negation (hs : σ.mode.takesOperand = true)
    (hroom : σ.frames.length < maxNesting) (k : Keyword "not") :
    CompletesAfter σ [k.lexeme] := by
  have hnext : Completes { σ with frames := .negation :: σ.frames, mode := .operand } :=
    completes_operand rfl
  refine hnext.after (.single fun t ht => ?_)
  have hopens : t.lexeme.opens = true := by
    rw [ht]
    simp [Lexeme.opens, Keyword.lexeme, Lexeme.isWord, k.spells]
  obtain ⟨hbegins, hand⟩ := beginsOperand_of_opens hopens
  have hstep := step_of_takesOperand hs hbegins hand
  have hnot := step_not (s := { σ with mode := .operand }) rfl ht
  exact (hstep.trans hnot).trans (push_of_lt hroom .negation σ.group t)

theorem completesAfter_order (hs : σ.mode = .start ∨ σ.mode = .connective ∧ σ.frames = [])
    (k : Keyword "order") (k' : Keyword "by") : CompletesAfter σ [k.lexeme, k'.lexeme] := by
  have hnext : Completes { σ with mode := .orderField } := completes_orderField rfl
  refine hnext.after (.cons fun t ht =>
    ⟨{ σ with mode := .order }, step_order hs ht, .single fun t ht => ?_⟩)
  simp [step, Token.isWord_eq, ht, k'.isWord_lexeme]

theorem completesAfter_isNot {start stop : Nat} (hs : σ.mode = .afterIs f start stop)
    (hf : f.accepts .isNot = true) (k : Keyword "not") : CompletesAfter σ [k.lexeme] := by
  have hnext : Completes { σ with mode := .value f .isNot } := completes_value rfl nofun
  refine hnext.after (.single fun t ht => ?_)
  simp [step, hs, Token.isWord_eq, ht, k.isWord_lexeme, State.withOperator, hf]

theorem completesAfter_orderField (hs : σ.mode = .orderField) {n : FieldName}
    (hn : n.field.sortable = true) : CompletesAfter σ [n.lexeme] := by
  let next : State :=
    { σ with mode := .orderDirection n.field, orderBy := some { field := n.field } }
  have hnext : Completes next := .of_atRest (atRest_of_mode (Or.inr (Or.inr ⟨_, rfl⟩)))
  refine hnext.after (.single fun t ht => ?_)
  simp only [step, hs, readOrderField, readField_of_name ht]
  exact if_pos hn

theorem Fits.completesAfter (h : Fits σ x) (hlegal : σ.Legal) (hl : Atom l (.text x)) :
    CompletesAfter σ [l] := by
  cases h with
  | value hs hx =>
    let value : ValueTree := .atom l (.text x) hl
    exact (completes_withOperand _ _).after (value.reads hs hx)
  | @item f op start items outer place hs hplace hx =>
    have hf := hlegal.mode
    rw [hs] at hf
    have hnext : Completes
        { σ with mode := .list f op start (items ++ [.text x]) outer .separator } :=
      completes_list hf rfl hx
    exact hnext.after (.single fun t ht => step_list_atom hs hplace (ht ▸ hl))

/-- **What leads on can be read**, and the reader can come to rest behind it. -/
theorem Leads.completesAfter (h : Leads σ v) (hlegal : σ.Legal) (hv : Offer v ls) :
    CompletesAfter σ ls := by
  cases h with
  | @name f hs hword =>
    subst hword
    obtain rfl := hv.eq_of_spells (Offer.name f).spells
    exact completesAfter_name hs f.canonicalName
  | joining hs hword =>
    rcases hword with rfl | rfl
    · obtain rfl := hv.eq_of_spells Offer.conjunction.spells
      have hreads : Reads σ [capitalAnd.lexeme] { σ with mode := .operand } :=
        .single fun t ht => step_and hs ht
      exact (completes_operand rfl).after hreads
    · obtain rfl := hv.eq_of_spells Offer.alternative.spells
      have hreads : Reads σ [capitalOr.lexeme]
          { σ with group := σ.group.nextAlternative, mode := .operand } :=
        .single fun t ht => step_or hs ht
      exact (completes_operand rfl).after hreads
  | negation hs hroom hword =>
    subst hword
    obtain rfl := hv.eq_of_spells Offer.negation.spells
    exact completesAfter_negation hs hroom capitalNot
  | order hs hword =>
    subst hword
    obtain rfl := hv.eq_of_spells Offer.order.spells
    exact completesAfter_order hs capitalOrder capitalBy
  | notIn hs hf hword =>
    subst hword
    obtain rfl := hv.eq_of_spells Offer.negation.spells
    exact completesAfter_not hs hf capitalNot
  | isNot hs hf hword =>
    subst hword
    obtain rfl := hv.eq_of_spells Offer.negation.spells
    exact completesAfter_isNot hs hf capitalNot
  | text hsays hx =>
    obtain ⟨l, hl, hatom⟩ := hsays
    obtain rfl := hv.eq_of_spells hl
    exact hx.completesAfter hlegal hatom
  | @sortable f hs hf hword =>
    subst hword
    obtain rfl := hv.eq_of_spells (Offer.name f).spells
    exact completesAfter_orderField hs hf

end leading

/-! ## Section 3: What is taken -/

/-- A value or an item ends here. -/
def EndsText : Mode → Prop
  | .connective => True
  | .list _ _ _ _ _ place => place = .separator
  | _ => False

/-- How something that can be offered is taken. -/
inductive Taken (s s' : State) (l : Lexeme) : Prop where
  | operand (hs : s.mode.takesOperand = true)
  | notIn {f : Field} (k : Keyword "not") (hs : s.mode = .operator f) (hl : l = k.lexeme)
      (hf : Alive s' → f.accepts .notIn = true)
  | isNot {f : Field} {start stop : Nat} (k : Keyword "not") (hs : s.mode = .afterIs f start stop)
      (hl : l = k.lexeme) (hf : f.accepts .isNot = true)
  | text {x : Text} (hl : Atom l (.text x)) (hx : Alive s' → Fits s x) (hs' : EndsText s'.mode)
  | sortable (n : FieldName) (hs : s.mode = .orderField) (hl : l = n.lexeme)
      (hf : n.field.sortable = true)

section taking
variable {σ σ' : State} {v : Text} {l : Lexeme} {ls : List Lexeme}

theorem taken_of_takes (hl : Quiet l) (h : Takes σ l σ') : Taken σ σ' l := by
  obtain ⟨x, hx, honly⟩ := hl.exists_text
  cases h with
  | negation k hmode hlt => exact .operand hmode
  | group hmode hlt => exact .operand hmode
  | field n hmode => exact .operand hmode
  | conjunction k hmode => exact .operand (by rw [hmode]; rfl)
  | alternative k hmode => exact .operand (by rw [hmode]; rfl)
  | order k hmode =>
    refine .operand ?_
    rcases hmode with hmode | ⟨hmode, -⟩ <;> rw [hmode] <;> rfl
  -- no other word of an operator or of an order is offered
  | is k hmode start stop => exact absurd rfl (hl.ne_keyword k (by simp [laterWords]))
  | isIn k hmode hf => exact absurd rfl (hl.ne_keyword k (by simp [laterWords]))
  | notIn k hmode hf => exact absurd rfl (hl.ne_keyword k (by simp [laterWords]))
  | orderBy k hmode => exact absurd rfl (hl.ne_keyword k (by simp [laterWords]))
  | ascending k hmode => exact absurd rfl (hl.ne_keyword k (by simp [laterWords]))
  | descending k hmode => exact absurd rfl (hl.ne_keyword k (by simp [laterWords]))
  | not k hmode start => exact .notIn k hmode rfl (accepts_of_alive rfl)
  | isNot k hmode hf => exact .isNot k hmode rfl hf
  | @value f op l v hmode hv hfits =>
    obtain rfl := honly v hv
    rcases hmode with hmode | ⟨start, stop, hmode, rfl, -⟩
    · exact .text hx (fun _ => .value hmode hfits) trivial
    · -- only null can follow `IS`
      exact absurd (literal_eq_null hfits) nofun
  | @item f op start items outer place l v hmode hplace hv =>
    obtain rfl := honly v hv
    exact .text hx (fun halive => .item hmode hplace (listFits_of_alive rfl halive)) rfl
  | orderField n hmode hf => exact .sortable n hmode rfl hf
  | _ => exact hl.elim

/-- What neither joins operands nor begins one is not taken where an operand may begin, nor
    where a value or an item ends. -/
theorem not_takes_stray (hl : Stray l) (hs : σ.mode.takesOperand = true ∨ EndsText σ.mode) :
    ¬Takes σ l σ' := by
  have hno : ∀ m, σ.mode = m → m.takesOperand = true ∨ EndsText m := by
    rintro m rfl
    exact hs
  intro h
  cases h with
  | negation k hmode hlt => exact hl.ne_keyword k (by simp [reservedWords]) rfl
  | conjunction k hmode => exact hl.ne_keyword k (by simp [reservedWords]) rfl
  | alternative k hmode => exact hl.ne_keyword k (by simp [reservedWords]) rfl
  | order k hmode => exact hl.ne_keyword k (by simp [reservedWords]) rfl
  | not k hmode start => exact hl.ne_keyword k (by simp [reservedWords]) rfl
  | isNot k hmode hf => exact hl.ne_keyword k (by simp [reservedWords]) rfl
  | field n hmode => exact hl.ne_name n rfl
  | orderField n hmode hf => exact hl.ne_name n rfl
  | value hawaits hv hfits =>
    rcases hawaits with hmode | ⟨start, stop, hmode, -⟩ <;>
      simpa [Mode.takesOperand, EndsText] using hno _ hmode
  | item hlist hplace hv => simpa [Mode.takesOperand, EndsText, hplace] using hno _ hlist
  | is k hmode start stop => simpa [Mode.takesOperand, EndsText] using hno _ hmode
  | isIn k hmode hf => simpa [Mode.takesOperand, EndsText] using hno _ hmode
  | notIn k hmode hf => simpa [Mode.takesOperand, EndsText] using hno _ hmode
  | orderBy k hmode => simpa [Mode.takesOperand, EndsText] using hno _ hmode
  | ascending k hmode => simpa [Mode.takesOperand, EndsText] using hno _ hmode
  | descending k hmode => simpa [Mode.takesOperand, EndsText] using hno _ hmode
  | _ => exact hl.elim

/-- How a reserved word is taken where an operand may begin. -/
theorem takes_reserved {w : String} {k : Keyword w} (hmode : σ.mode.takesOperand = true)
    (hw : w.toList ∈ reservedWords) (h : Takes σ k.lexeme σ') :
    (w = "not" ∧ σ.frames.length < maxNesting) ∨
    ((w = "and" ∨ w = "or") ∧ σ.mode = .connective) ∨
    (w = "order" ∧ (σ.mode = .start ∨
      σ.mode = .connective ∧ ∀ outer frames, σ.frames ≠ .group outer :: frames)) := by
  generalize hl : k.lexeme = l at h
  cases h with
  | negation k' hmode hlt => exact Or.inl ⟨Keyword.eq_of_lexeme_eq hl, hlt⟩
  | field n hmode => exact absurd hl.symm (n.lexeme_ne_keyword k hw)
  | conjunction k' hmode => exact Or.inr (Or.inl ⟨Or.inl (Keyword.eq_of_lexeme_eq hl), hmode⟩)
  | alternative k' hmode => exact Or.inr (Or.inl ⟨Or.inr (Keyword.eq_of_lexeme_eq hl), hmode⟩)
  | order k' hmode => exact Or.inr (Or.inr ⟨Keyword.eq_of_lexeme_eq hl, hmode⟩)
  | value hawaits hv hfits | list hawaits start =>
    rcases hawaits with hs | ⟨start, stop, hs, -, -⟩ <;> rw [hs] at hmode <;> cases hmode
  | _ => simp_all [Mode.takesOperand, Keyword.lexeme]

/-- A parenthesis that is open around what was read is a group. -/
theorem frames_eq_nil {s : State} (hlegal : s.Legal) (hs : s.mode = .connective)
    (h : ∀ outer frames, s.frames ≠ .group outer :: frames) : s.frames = [] := by
  rcases settled_cases (hlegal.settled hs) with hframes | ⟨outer, frames, hframes⟩
  · exact hframes
  · exact absurd hframes (h outer frames)

/-- A word or a string that is no name and no word of the language is read as a text. -/
theorem exists_fits_of_takes (hquiet : Quiet l) (hstray : Stray l) (h : Takes σ l σ') :
    ∃ x, Atom l (.text x) ∧ (Alive σ' → Fits σ x) ∧ EndsText σ'.mode := by
  cases taken_of_takes hquiet h with
  | operand hs => exact absurd h (not_takes_stray hstray (Or.inl hs))
  | notIn k hs hl hf => exact absurd hl (hstray.ne_keyword k (by simp [reservedWords]))
  | isNot k hs hl hf => exact absurd hl (hstray.ne_keyword k (by simp [reservedWords]))
  | text hl hx hs' => exact ⟨_, hl, hx, hs'⟩
  | sortable n hs hl hf => exact absurd hl (hstray.ne_name n)

/-- Where an operand may begin, names and words of the language are taken. -/
theorem leads_of_operand (hlegal : σ.Legal) (hs : σ.mode.takesOperand = true)
    (hv : Offer v (l :: ls)) (htakes : Takes σ l σ') : Leads σ v := by
  cases hv with
  | name f => exact .name hs rfl
  | conjunction =>
    rcases takes_reserved hs (by simp [reservedWords]) htakes with ⟨hw, -⟩ | ⟨-, hmode⟩ | ⟨hw, -⟩
    · exact absurd hw (by decide)
    · exact .joining hmode (Or.inl rfl)
    · exact absurd hw (by decide)
  | alternative =>
    rcases takes_reserved hs (by simp [reservedWords]) htakes with ⟨hw, -⟩ | ⟨-, hmode⟩ | ⟨hw, -⟩
    · exact absurd hw (by decide)
    · exact .joining hmode (Or.inr rfl)
    · exact absurd hw (by decide)
  | negation =>
    rcases takes_reserved hs (by simp [reservedWords]) htakes with
      ⟨-, hroom⟩ | ⟨hw, -⟩ | ⟨hw, -⟩
    · exact .negation hs hroom rfl
    · exact absurd hw (by decide)
    · exact absurd hw (by decide)
  | order =>
    rcases takes_reserved hs (by simp [reservedWords]) htakes with ⟨hw, -⟩ | ⟨hw, -⟩ | ⟨-, hmode⟩
    · exact absurd hw (by decide)
    · exact absurd hw (by decide)
    · exact .order (hmode.imp_right fun h => ⟨h.1, frames_eq_nil hlegal h.1 h.2⟩) rfl
  | status hw =>
    have hstray : Stray (.word v) := (offered_words _ hw).2.2
    exact absurd htakes (not_takes_stray hstray (Or.inl hs))
  | quoted t => exact absurd htakes (not_takes_stray (l := .string t) trivial (Or.inl hs))

/-- **What is taken leads on**, where something is accepted behind it. -/
theorem leads_of_taken {ts : List Token} (hlegal : σ.Legal) (hv : Offer v ls)
    (hts : ts.map Token.lexeme = ls) (hfold : ts.foldlM step σ = .ok σ') (halive : Alive σ') :
    Leads σ v := by
  obtain ⟨l, rest, rfl, hquiet⟩ := hv.quiet
  obtain ⟨token, ts, rfl, hl, hrest⟩ := List.map_eq_cons_iff.mp hts
  rw [List.foldlM_cons] at hfold
  obtain ⟨σ₁, hstep, hfold⟩ := bind_eq_ok_iff.mp hfold
  have htakes : Takes σ l σ₁ := by
    rw [← hl]
    refine step_takes hstep fun hfinish => ?_
    rw [hl] at hfinish
    subst hfinish
    exact hquiet
  have hend : rest = [] → σ₁ = σ' := by
    rintro rfl
    obtain rfl := List.map_eq_nil_iff.mp hrest
    exact Except.ok.inj hfold
  cases taken_of_takes hquiet htakes with
  | operand hs => exact leads_of_operand hlegal hs hv htakes
  | notIn k hs hl hf =>
    subst hl
    obtain ⟨hword, hnil⟩ := hv.eq_not
    exact .notIn hs (hf (hend hnil ▸ halive)) hword
  | isNot k hs hl hf =>
    subst hl
    exact .isNot hs hf hv.eq_not.1
  | @text x hl hx hs' =>
    cases rest with
    | nil => exact .text ⟨l, hv.spells, hl⟩ (hx (hend rfl ▸ halive))
    | cons l' rest =>
      -- only `ORDER BY` is more than one lexeme, and no `BY` follows a text
      exfalso
      obtain ⟨token', ts, rfl, hl', -⟩ := List.map_eq_cons_iff.mp hrest
      rw [List.foldlM_cons] at hfold
      obtain ⟨σ₂, hstep', -⟩ := bind_eq_ok_iff.mp hfold
      have hby : Stray capitalBy.lexeme := ⟨by decide +kernel, by decide +kernel⟩
      cases hv
      have htakes' := step_takes hstep' (by rw [hl']; nofun)
      rw [hl'] at htakes'
      exact not_takes_stray hby (Or.inr hs') htakes'
  | sortable n hs hl hf =>
    subst hl
    exact .sortable hs hf hv.eq_name

end taking

/-! ## Section 4: What is due -/

/-- A value or an item is due here, and a text can be one. -/
def takesText : Mode → Bool
  | .value _ op => op ≠ .isNot
  | .list _ _ _ _ _ place => place ≠ .separator
  | _ => false

section due
variable {σ : State} {v : Text} {f : Field}

/-- A value of a field says a text that the field can be compared with. -/
theorem IsValueOf.says_text (h : IsValueOf f v) :
    ∃ x, Says v x ∧ checkItem f (.text x) = none := by
  rcases h with ⟨rfl, hw⟩ | ⟨hf, t, rfl⟩
  · have hitems : ∀ w ∈ Status.offered, checkItem .status (.text w) = none := by decide +kernel
    have hquiet : Quiet (.word v) := (offered_words _ hw).2.1
    exact ⟨v, ⟨_, (Offer.status hw).spells, hquiet.atom_word⟩, hitems v hw⟩
  · refine ⟨t, ⟨_, .string t, .string t⟩, ?_⟩
    rcases hf with rfl | rfl <;> rfl

/-- The name of a field says itself. -/
theorem says_name (f : Field) : Says f.name f.name := by
  refine ⟨_, f.spells_name, .word (w := f.name) ?_⟩
  cases f <;> decide +kernel

/-- **Where the pieces show that a value or an item is due**, what is offered leads on. -/
theorem leads_of_keeps {ps : List Piece} {c : CompletionContext} {tags projects : List Text}
    {s : Suggestion} (hlegal : σ.Legal) (halive : Alive σ) (hkeeps : Keeps σ ps) (hc : Asks ps c)
    (hs : s ∈ suggestFor c tags projects) (hdue : takesText σ.mode = true) :
    Leads σ s.value := by
  have hmode := hlegal.mode
  unfold Keeps at hkeeps
  cases hσ : σ.mode with
  | value f op =>
    rw [hσ] at hkeeps hdue hmode
    have hop : op ≠ .isNot := by simpa [takesText] using hdue
    obtain ⟨x, hsays, hitem⟩ := (offers_of_due hkeeps hop hc hs).says_text
    exact .text hsays (.value hσ (checkValue_of_item ⟨hmode.2, hop⟩ rfl rfl hitem))
  | list f op start items outer place =>
    rw [hσ] at hkeeps hdue
    have hplace : place ≠ .separator := by simpa [takesText] using hdue
    obtain ⟨hop, hfits⟩ := listFits_of_alive hσ halive
    -- an item is due only behind a bracket or a comma
    obtain ⟨p, rest, rfl, hp⟩ := hkeeps.2 hplace
    -- the list of a status is the outermost, so its field is found in front of it
    have hlist : f = .status → arrayField? (p :: rest) = some f := by
      intro hstatus
      obtain ⟨rfl, -⟩ := hfits hstatus
      obtain ⟨base, hbase, hbefore, -⟩ := hkeeps.1.due
      exact hbase.arrayField? hop hbefore
    obtain ⟨x, hsays, hitem⟩ : ∃ x, Says s.value x ∧
        (f = .status → checkItem f (.text x) = none) := by
      rcases offers_of_item hp hc hs with ⟨f', hf', hvalue⟩ | ⟨hnone, f', hname⟩
      · obtain ⟨x, hsays, hitem⟩ := hvalue.says_text
        refine ⟨x, hsays, fun hstatus => ?_⟩
        rw [hlist hstatus] at hf'
        obtain rfl := Option.some.inj hf'
        exact hitem
      · refine ⟨_, hname ▸ says_name f', fun hstatus => ?_⟩
        rw [hlist hstatus] at hnone
        cases hnone
    refine .text hsays (.item hσ hplace ⟨hop, fun hstatus => ?_⟩)
    obtain ⟨houter, hitems⟩ := hfits hstatus
    exact ⟨houter, List.forall_mem_append.mpr
      ⟨hitems, List.forall_mem_singleton.mpr (hitem hstatus)⟩⟩
  | _ =>
    rw [hσ] at hdue
    cases hdue

end due

end Agenda.Filter.Completion
