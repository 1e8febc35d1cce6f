import Agenda.Proofs.Filter.Reading
import Agenda.Proofs.Filter.Tiling

/-! # Typing on

    What stands in a text is cut as before when the text goes on, except for what ends at its
    last character (`lexFrom_append`).  Every error of the reader ends with the token at which
    it is found, but for one: after `IS` one more token is read before `IS` is found to be out
    of place (`step_spans`).  So an error that does not end at the last character stays where
    it is when the text goes on (`read_error_stays`). -/

namespace Agenda.Filter

open Reader

/-! ## Section 1: Cutting a longer text -/

/-- A token that ends before the last character is cut from a longer text as well, and so are
    those in front of it. -/
theorem lexFrom_append (pos : Nat) (t u : Text) : ∀ {front rest : List Token} {token : Token},
    (lexFrom pos t).tokens = front ++ token :: rest → token.stop + 1 < pos + t.length →
    ∃ rest', (lexFrom pos (t ++ u)).tokens = front ++ token :: rest' := by
  induction pos, t using lexFrom_induction with
  | done pos => simp [lexFrom_nil]
  | blank pos c rest hblank ih =>
    intro front tail token htokens hstop
    rw [lexFrom_blank hblank] at htokens
    rw [List.cons_append, lexFrom_blank hblank]
    rw [List.length_cons] at hstop
    exact ih htokens (by omega)
  | stuck pos c rest e hblank hscan => simp [lexFrom_error hblank hscan]
  | token pos c x r l hblank hshape ih =>
    intro front tail token htokens hstop
    have hmem : token ∈ (lexFrom pos (c :: (x ++ r))).tokens := by simp [htokens]
    rw [lexFrom_shape hblank hshape] at htokens hmem
    rw [List.length_cons, List.length_append] at hstop
    -- two characters stand behind the first token, so it ends where it did
    have hr : 2 ≤ r.length := by
      rcases List.mem_cons.mp hmem with rfl | hmem
      · dsimp only at hstop
        omega
      · have h := lexFrom_token_span _ _ token hmem
        omega
    have hshape' := hshape.congr (endsAs_append hr u)
    rw [List.cons_append, List.append_assoc, lexFrom_shape hblank hshape']
    cases front with
    | nil =>
      obtain ⟨rfl, -⟩ := List.cons.inj htokens
      exact ⟨_, rfl⟩
    | cons first front =>
      obtain ⟨rfl, htail⟩ := List.cons.inj htokens
      obtain ⟨rest', hrest'⟩ := ih htail (by omega)
      exact ⟨rest', by rw [hrest']; rfl⟩

/-- A text that is cut short before its last character is cut short in the same way when it
    goes on. -/
theorem lexFrom_append_of_error (pos : Nat) (t u : Text) : ∀ {e : QueryError},
    (lexFrom pos t).error = some e → e.stop + 1 < pos + t.length →
    lexFrom pos (t ++ u) = lexFrom pos t := by
  induction pos, t using lexFrom_induction with
  | done pos => simp [lexFrom_nil]
  | blank pos c rest hblank ih =>
    intro e herror hstop
    rw [lexFrom_blank hblank] at herror
    rw [List.length_cons] at hstop
    rw [List.cons_append, lexFrom_blank hblank, lexFrom_blank hblank]
    exact ih herror (by omega)
  | stuck pos c rest e hblank hscan =>
    intro e' herror hstop
    rw [lexFrom_error hblank hscan] at herror
    obtain rfl := Option.some.inj herror
    rw [List.length_cons] at hstop
    have hscan' := (scan_error_spec hscan).2.2.2 (by omega) u
    rw [List.cons_append, lexFrom_error hblank hscan, lexFrom_error hblank hscan']
  | token pos c x r l hblank hshape ih =>
    intro e herror hstop
    rw [lexFrom_shape hblank hshape] at herror
    have hspan := lexFrom_error_span _ _ e herror
    rw [List.length_cons, List.length_append] at hstop
    -- an error stands behind the token, and not at the last character
    have hr : 2 ≤ r.length := by omega
    have hshape' := hshape.congr (endsAs_append hr u)
    rw [List.cons_append, List.append_assoc, lexFrom_shape hblank hshape,
      lexFrom_shape hblank hshape', ih herror (by omega)]

/-! ## Section 2: Where errors end -/

namespace Reader

/-- The reader stands behind a token that ends at `last`: what it keeps of the tokens before
    begins in front of that, and an `IS` that it has just read ends there. -/
def Mode.Spans (last : Nat) : Mode → Prop
  | .afterIs _ first stop => first ≤ stop ∧ stop = last
  | .afterNot _ first => first ≤ last
  | .list _ _ first _ _ _ => first ≤ last
  | _ => True

/-- What comes of a token that ends at `last`: the reader stands behind it, or the error ends
    with it. -/
def Comes (last : Nat) : Except QueryError State → Prop
  | .ok s => s.mode.Spans last
  | .error e => e.start ≤ e.stop ∧ e.stop = last

section steps
variable {s : State} {f : Field} {op : Operator} {token : Token} {start : Nat}

theorem comes_fail (cause : Cause) (h : token.start ≤ token.stop) :
    Comes token.stop (fail cause token) := ⟨h, rfl⟩

theorem comes_withOperator (h : start ≤ token.stop) :
    Comes token.stop (s.withOperator f op start token.stop) := by
  unfold State.withOperator
  split
  · exact trivial
  · exact ⟨h, rfl⟩

theorem comes_withValue {v : Literal} (h : start ≤ token.stop) :
    Comes token.stop (s.withValue f op v start token.stop) := by
  unfold State.withValue
  split
  · exact ⟨h, rfl⟩
  · exact trivial

theorem comes_push {frame : Frame} {group : Group} (h : token.start ≤ token.stop) :
    Comes token.stop (s.push frame group token) := by
  unfold State.push
  split
  · exact trivial
  · exact comes_fail _ h

/-- Where a field stands, the error is about that token. -/
theorem comes_readField {next : Field → Except QueryError State} (h : token.start ≤ token.stop)
    (hnext : ∀ f, Comes token.stop (next f)) : Comes token.stop (readField token >>= next) := by
  unfold readField
  split
  · split
    · exact hnext _
    · exact comes_fail _ h
  · exact comes_fail _ h

theorem comes_readOperand (h : token.start ≤ token.stop) :
    Comes token.stop (readOperand s token) := by
  unfold readOperand
  split
  · exact comes_push h
  · split
    · exact comes_push h
    · exact comes_readField h fun f => trivial

theorem comes_readOperator (h : token.start ≤ token.stop) :
    Comes token.stop (readOperator s f token) := by
  unfold readOperator
  split
  · exact comes_withOperator h
  · split_ifs
    · exact ⟨h, rfl⟩
    · exact comes_withOperator h
    · exact h
    · exact comes_fail _ h
  · exact comes_fail _ h

theorem comes_readValue (h : token.start ≤ token.stop) :
    Comes token.stop (readValue s f op token) := by
  unfold readValue
  split
  · exact comes_withValue h
  · split
    · exact h
    · exact comes_fail _ h

theorem comes_closeList {items : List Literal} {outer : List (List Literal)}
    (h : start ≤ token.stop) : Comes token.stop (s.closeList f op start items outer token) := by
  unfold State.closeList
  split
  · exact comes_withValue h
  · exact h

theorem comes_readListToken {items : List Literal} {outer : List (List Literal)}
    {place : ListPlace} (h : token.start ≤ token.stop) (hstart : start ≤ token.stop) :
    Comes token.stop (readListToken s f op start items outer place token) := by
  unfold readListToken
  split
  · split
    · exact hstart
    · exact comes_closeList hstart
    · exact comes_fail _ h
  · split
    · exact hstart
    · split
      · exact comes_closeList hstart
      · exact hstart
      · exact comes_fail _ h

theorem comes_readEnd (hs : s.mode.Spans token.stop) (h : token.start ≤ token.stop) :
    Comes token.stop (readEnd s token) := by
  unfold readEnd
  split
  · exact hs
  · exact comes_fail _ h

theorem comes_readConnective (hs : s.mode = .connective) (h : token.start ≤ token.stop) :
    Comes token.stop (readConnective s token) := by
  have hend : s.mode.Spans token.stop := hs ▸ trivial
  unfold readConnective
  split_ifs
  · exact trivial
  · exact comes_readOperand h
  · exact trivial
  · unfold readGroupEnd
    split
    · split
      · exact trivial
      · exact comes_fail _ h
    · split_ifs
      · exact trivial
      · exact comes_readEnd hend h

theorem comes_readOrderField (h : token.start ≤ token.stop) :
    Comes token.stop (readOrderField s token) := by
  refine comes_readField h fun f => ?_
  split_ifs
  · exact trivial
  · exact comes_fail _ h

theorem comes_readDirection (hs : s.mode = .orderDirection f) (h : token.start ≤ token.stop) :
    Comes token.stop (readDirection s f token) := by
  have hend : s.mode.Spans token.stop := hs ▸ trivial
  unfold readDirection
  split_ifs
  · exact trivial
  · exact trivial
  · exact comes_readEnd hend h

/-- **Every error ends with the token at which it is found**, except where `IS` turns out to be
    out of place: one token more has been read then. -/
theorem step_spans {last : Nat} (hs : s.mode.Spans last) (hlast : last ≤ token.start)
    (h : token.start ≤ token.stop) :
    Comes token.stop (step s token) ∨
    ∃ f start, s.mode = .afterIs f start last ∧ f.accepts .is = false ∧ start ≤ last ∧
      step s token = .error ⟨.unsupported .is f, start, last⟩ := by
  have hkept : ∀ {first : Nat}, first ≤ last → first ≤ token.stop := by
    intro first hfirst
    omega
  unfold step
  cases hmode : s.mode with
  | start =>
    left
    dsimp only
    split_ifs
    · exact trivial
    · split
      · show s.mode.Spans token.stop
        rw [hmode]
        exact trivial
      · exact comes_readOperand h
  | operand => exact Or.inl (comes_readOperand h)
  | operator f => exact Or.inl (comes_readOperator h)
  | afterIs f start stop =>
    rw [hmode] at hs
    obtain ⟨hstart, rfl⟩ := hs
    dsimp only
    split_ifs
    · exact Or.inl (comes_withOperator (hkept hstart))
    · -- `IS` is complete, and the token should be its value
      by_cases haccepts : f.accepts .is = true
      · left
        rw [State.withOperator, if_pos haccepts]
        exact comes_readValue h
      · right
        rw [State.withOperator, if_neg haccepts]
        exact ⟨f, start, rfl, Bool.eq_false_iff.mpr haccepts, hstart, rfl⟩
  | afterNot f start =>
    rw [hmode] at hs
    left
    dsimp only
    split_ifs
    · exact comes_withOperator (hkept hs)
    · exact comes_fail _ h
  | value f op => exact Or.inl (comes_readValue h)
  | list f op start items outer place =>
    rw [hmode] at hs
    exact Or.inl (comes_readListToken h (hkept hs))
  | connective => exact Or.inl (comes_readConnective hmode h)
  | order =>
    left
    dsimp only
    split_ifs
    · exact trivial
    · exact comes_fail _ h
  | orderField => exact Or.inl (comes_readOrderField h)
  | orderDirection f => exact Or.inl (comes_readDirection hmode h)
  | finish =>
    refine Or.inl (comes_readEnd ?_ h)
    rw [hmode]
    exact trivial

end steps

/-- Where the last of the tokens ends, or else `last`. -/
def lastStop (last : Nat) (tokens : List Token) : Nat :=
  tokens.foldl (fun _ token => token.stop) last

/-- Behind tokens that stand one after another the reader stands behind the last of them. -/
theorem run_spans {t : Text} {pos stop : Nat} {tokens : List Token}
    (h : Tiles t pos tokens stop) : ∀ {s s' : State} {last : Nat}, s.mode.Spans last →
    last ≤ pos → tokens.foldlM step s = .ok s' →
    s'.mode.Spans (lastStop last tokens) ∧ lastStop last tokens ≤ stop := by
  induction h with
  | done pos =>
    intro s s' last hs hlast hfold
    obtain rfl := Except.ok.inj hfold
    exact ⟨hs, hlast⟩
  | blank hc hblank h ih =>
    intro s s' last hs hlast hfold
    exact ih hs (by omega) hfold
  | token hlt hle htext h ih =>
    intro s s' last hs hlast hfold
    rw [List.foldlM_cons] at hfold
    obtain ⟨s₁, hstep, hfold⟩ := bind_eq_ok_iff.mp hfold
    -- the token was taken, so nothing was out of place
    rcases step_spans hs hlast (Nat.le_of_lt hlt) with hcomes | ⟨f, start, -, -, -, herror⟩
    · rw [hstep] at hcomes
      exact ih hcomes (Nat.le_refl _) hfold
    · rw [hstep] at herror
      cases herror

/-- Where `IS` is out of place, no token can follow. -/
theorem step_isRefused {s : State} {f : Field} {start stop : Nat}
    (hs : s.mode = .afterIs f start stop) (hf : f.accepts .is = false) (token : Token) :
    ∃ e, step s token = .error e := by
  have hf' : f.accepts .isNot = false := hf
  unfold step
  simp only [hs, State.withOperator, hf, hf', Bool.false_eq_true, if_false]
  split_ifs
  · exact ⟨_, rfl⟩
  · exact ⟨_, rfl⟩

end Reader

/-! ## Section 3: The whole text -/

section whole
variable {t : Text} {front rest : List Token} {token : Token} {s : State}

theorem Tiles.cut {pos stop : Nat} {tokens : List Token} (h : Tiles t pos tokens stop) :
    ∀ {front rest : List Token} {token : Token}, tokens = front ++ token :: rest →
      Tiles t pos front token.start := by
  induction h with
  | done pos => simp
  | blank hc hblank h ih => exact fun heq => .blank hc hblank (ih heq)
  | token hlt hle htext h ih =>
    intro front rest token' heq
    cases front with
    | nil =>
      obtain ⟨rfl, -⟩ := List.cons.inj heq
      exact .done _
    | cons first front =>
      obtain ⟨rfl, hrest⟩ := List.cons.inj heq
      exact .token hlt hle htext (ih hrest)

/-- A token up to the end of the text is cut from it or is its end. -/
theorem upToEnd_cases {l : Lexing} {n : Nat} (h : l.upToEnd n = front ++ token :: rest) :
    (∃ rest', l.tokens = front ++ token :: rest') ∨
    (l.error = none ∧ l.tokens = front ∧ token = Token.atEnd n) := by
  unfold Lexing.upToEnd at h
  split_ifs at h with herror
  · rcases List.eq_nil_or_concat rest with rfl | ⟨rest', x, rfl⟩
    · obtain ⟨htokens, hend⟩ := List.append_inj' h rfl
      exact Or.inr ⟨Option.isNone_iff_eq_none.mp herror, htokens, (List.cons.inj hend).1.symm⟩
    · rw [List.concat_eq_append, ← List.cons_append, ← List.append_assoc] at h
      exact Or.inl ⟨rest', (List.append_inj' h rfl).1⟩
  · rw [List.append_nil] at h
    exact Or.inl ⟨rest, h⟩

theorem upToEnd_of_tokens {l : Lexing} {n : Nat} (h : l.tokens = front ++ token :: rest) :
    ∃ rest', l.upToEnd n = front ++ token :: rest' := by
  rw [Lexing.upToEnd, h, List.append_assoc]
  exact ⟨_, rfl⟩

/-- Every token up to the end stands behind those in front of it. -/
theorem upToEnd_cut (h : (lex t).upToEnd t.length = front ++ token :: rest) :
    Tiles t 0 front token.start ∧ token.start ≤ token.stop ∧ token.stop ≤ t.length := by
  have htiles := lex_tiling t
  rcases upToEnd_cases h with ⟨rest', htokens⟩ | ⟨herror, rfl, rfl⟩
  · have hmem : token ∈ (lex t).tokens := by simp [htokens]
    have hspan := lexFrom_token_span 0 t token hmem
    exact ⟨htiles.cut htokens, by omega, by omega⟩
  · rw [Lexing.frontier, herror] at htiles
    exact ⟨htiles, Nat.le_refl _, Nat.le_refl _⟩

/-- A token that cannot be taken after those in front of it is an error. -/
theorem read_of_step_error {e : QueryError}
    (hcut : (lex t).upToEnd t.length = front ++ token :: rest)
    (hfold : front.foldlM step {} = .ok s) (hstep : step s token = .error e) :
    Query.read t = .error e := by
  rw [Query.read_eq_foldlM]
  have h := foldlM_eq_error_iff.mpr ⟨front, token, rest, s, hcut, hfold, hstep⟩
  rw [h]
  rfl

/-- Where no token can follow those at the beginning, the text is no query. -/
theorem read_of_stuck (htokens : (lex t).tokens = front ++ rest)
    (hfold : front.foldlM step {} = .ok s) (hstuck : ∀ token, ∃ e, step s token = .error e) :
    ∃ e, Query.read t = .error e := by
  cases hread : Query.read t with
  | error e => exact ⟨e, rfl⟩
  | ok q =>
    exfalso
    obtain ⟨-, s₁, s₂, hall, hend, -⟩ := run_eq_ok_iff.mp hread
    rw [htokens, List.foldlM_append, hfold] at hall
    replace hall : rest.foldlM step s = .ok s₁ := hall
    -- what comes next is refused, be it a token or the end of the text
    cases rest with
    | nil =>
      obtain rfl := Except.ok.inj hall
      obtain ⟨e, he⟩ := hstuck (Token.atEnd t.length)
      rw [hend] at he
      cases he
    | cons first rest =>
      rw [List.foldlM_cons] at hall
      obtain ⟨s', hs', -⟩ := bind_eq_ok_iff.mp hall
      obtain ⟨e, he⟩ := hstuck first
      rw [hs'] at he
      cases he

/-- An error in cutting is that of reading, where reading comes to it. -/
theorem read_of_lexing_error {e : QueryError} (herror : (lex t).error = some e)
    (hfold : (lex t).tokens.foldlM step {} = .ok s) : Query.read t = .error e := by
  rw [Query.read, run, hfold, herror]
  rfl

/-- A text fails to be read at a token up to its end, or at the error that cuts it short. -/
theorem read_error_cases {e : QueryError} (h : Query.read t = .error e) :
    (∃ front token rest s, (lex t).upToEnd t.length = front ++ token :: rest ∧
      front.foldlM step {} = .ok s ∧ step s token = .error e) ∨
    ((lex t).error = some e ∧ ∃ s, (lex t).tokens.foldlM step {} = .ok s) := by
  rw [Query.read_eq_foldlM] at h
  rcases bind_eq_error_iff.mp h with hfold | ⟨s, hfold, hend⟩
  · exact Or.inl (foldlM_eq_error_iff.mp hfold)
  · cases herror : (lex t).error with
    | none =>
      rw [herror] at hend
      cases hend
    | some e' =>
      rw [herror] at hend
      obtain rfl := Except.error.inj hend
      refine Or.inr ⟨rfl, s, ?_⟩
      rwa [Lexing.upToEnd, herror, Option.isNone_some, if_neg Bool.false_ne_true,
        List.append_nil] at hfold

/-- An error at a token that ends before the last character is an error of every longer
    text. -/
theorem read_append_of_step_error {e : QueryError}
    (hcut : (lex t).upToEnd t.length = front ++ token :: rest)
    (hfold : front.foldlM step {} = .ok s) (hstep : step s token = .error e)
    (hlt : token.stop + 1 < t.length) (u : Text) : Query.read (t ++ u) = .error e := by
  rcases upToEnd_cases hcut with ⟨rest', htokens⟩ | ⟨-, -, rfl⟩
  · obtain ⟨rest'', htokens'⟩ := lexFrom_append 0 t u htokens (by omega)
    obtain ⟨rest₁, hcut'⟩ := upToEnd_of_tokens htokens'
    exact read_of_step_error hcut' hfold hstep
  · simp only [Token.atEnd] at hlt
    omega

/-- No text goes on from an `IS` that is out of place and ends before the last character. -/
theorem read_append_of_isRefused {f : Field} {start : Nat}
    (hcut : (lex t).upToEnd t.length = front ++ rest)
    (hfold : front.foldlM step {} = .ok s)
    (hmode : s.mode = .afterIs f start (lastStop 0 front)) (hf : f.accepts .is = false)
    (hlt : lastStop 0 front + 1 < t.length) (u : Text) :
    ∃ e, Query.read (t ++ u) = .error e := by
  rcases List.eq_nil_or_concat front with rfl | ⟨front', last, rfl⟩
  · obtain rfl := Except.ok.inj hfold
    cases hmode
  · rw [List.concat_eq_append] at hcut hfold hmode hlt
    have hlast : lastStop 0 (front' ++ [last]) = last.stop := by simp [lastStop]
    rw [hlast] at hlt
    rw [List.append_assoc, List.singleton_append] at hcut
    rcases upToEnd_cases hcut with ⟨rest', htokens⟩ | ⟨-, -, rfl⟩
    · obtain ⟨rest'', htokens'⟩ := lexFrom_append 0 t u htokens (by omega)
      rw [← List.singleton_append, ← List.append_assoc] at htokens'
      exact read_of_stuck htokens' hfold (step_isRefused hmode hf)
    · simp only [Token.atEnd] at hlt
      omega

/-- **Errors stand in the text and stay where they are.**  The span of an error lies in the
    text.  If the error ends before the last character, then the text is no query however it
    goes on, and the error is the same, unless it is that `IS` is out of place: then the next
    token may come to say more. -/
theorem read_error_stays {e : QueryError} (h : Query.read t = .error e) :
    e.start ≤ e.stop ∧ e.stop ≤ t.length ∧
    (e.stop + 1 < t.length → ∀ u,
      (∃ e', Query.read (t ++ u) = .error e') ∧
      ((∀ f, e.cause ≠ .unsupported .is f) → Query.read (t ++ u) = .error e)) := by
  rcases read_error_cases h with ⟨front, token, rest, s, hcut, hfold, hstep⟩ | ⟨herror, s, hfold⟩
  · obtain ⟨htiles, hle, hstop⟩ := upToEnd_cut hcut
    have hspans : ({} : State).mode.Spans 0 := trivial
    obtain ⟨hs, hlast⟩ := run_spans htiles hspans (Nat.le_refl 0) hfold
    rcases step_spans hs hlast hle with hcomes | ⟨f, start, hmode, hf, hstart, herror⟩
    · -- the error ends with the token at which it is found
      rw [hstep] at hcomes
      obtain ⟨hspan, heq⟩ := hcomes
      refine ⟨hspan, heq ▸ hstop, fun hlt u => ?_⟩
      have hread := read_append_of_step_error hcut hfold hstep (heq ▸ hlt) u
      exact ⟨⟨e, hread⟩, fun _ => hread⟩
    · -- `IS` is refused, and ends before the token
      rw [hstep] at herror
      obtain rfl := Except.error.inj herror
      refine ⟨hstart, by dsimp only; omega, fun hlt u => ?_⟩
      have hread := read_append_of_isRefused hcut hfold hmode hf hlt u
      exact ⟨hread, fun hcause => absurd rfl (hcause f)⟩
  · have hspan := lexFrom_error_span 0 t e herror
    refine ⟨by omega, by omega, fun hlt u => ?_⟩
    have hlex : lex (t ++ u) = lex t := lexFrom_append_of_error 0 t u herror (by omega)
    rw [← hlex] at herror hfold
    have hread := read_of_lexing_error herror hfold
    exact ⟨⟨e, hread⟩, fun _ => hread⟩

end whole

/-- No field is called colour. -/
theorem read_colour :
    Query.read "colour = red".toList = .error ⟨.unknownField "colour".toList, 0, 6⟩ := by
  have hshape : Shape 'c' "olour".toList (.word "colour".toList) " = red".toList := by
    refine .word (by decide +kernel) ?_
    rintro c ⟨⟩
    decide +kernel
  obtain ⟨rest, htokens⟩ : ∃ rest, (lex "colour = red".toList).tokens =
      [] ++ ⟨.word "colour".toList, "colour".toList, 0, 6⟩ :: rest := by
    rw [show "colour = red".toList = 'c' :: ("olour".toList ++ " = red".toList) from rfl, lex,
      lexFrom_shape (by decide +kernel) hshape]
    exact ⟨_, rfl⟩
  obtain ⟨rest', hcut⟩ := upToEnd_of_tokens htokens
  exact read_of_step_error hcut rfl rfl

theorem read_error_stays_colour :
    Query.read "colour = red".toList = .error ⟨.unknownField "colour".toList, 0, 6⟩ ∧
    ∀ u, Query.read ("colour = red".toList ++ u) =
      .error ⟨.unknownField "colour".toList, 0, 6⟩ := by
  obtain ⟨-, -, hstays⟩ := read_error_stays read_colour
  refine ⟨read_colour, fun u => ?_⟩
  exact (hstays (by decide) u).2 (by simp)

end Agenda.Filter
