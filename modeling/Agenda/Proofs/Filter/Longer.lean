import Agenda.Proofs.Filter.Viable

/-! # Texts that go on

    What stays of a text when it goes on.  A blank ends every token (`tokens_space`), so whether a
    text with a blank behind it is the beginning of a query depends on the state behind its
    tokens (`alive_of_viable`, `viable_of_completes`).  A text that begins apart from numbers and
    symbols mends no error but a string that is not closed (`error_append`), which it goes on
    with (`exists_open`); behind a text without errors it is cut for itself, unless the last
    token there goes on with it (`lexFrom_append_cases`). -/

namespace Agenda.Filter

open Reader

section texts
variable {t u v w : Text} {s : State} {pos : Nat} {front ts : List Token} {ls : List Lexeme}
  {e : QueryError}

/-! ## Section 1: Behind a blank -/

/-- A blank ends every token. -/
theorem tokens_space (pos : Nat) (t u : Text) :
    (lexFrom pos t).tokens <+: (lexFrom pos (t ++ ' ' :: u)).tokens := by
  induction pos, t using lexFrom_induction with
  | done pos => simp [lexFrom_nil]
  | blank pos c rest hblank ih => rwa [List.cons_append, lexFrom_blank hblank, lexFrom_blank hblank]
  | stuck pos c rest e hblank hscan => simp [lexFrom_error hblank hscan]
  | token pos c x r l hblank hshape ih =>
    have hends : EndsAs r (r ++ ' ' :: u) := endsAs_space r u
    rw [List.cons_append, List.append_assoc, lexFrom_shape hblank hshape,
      lexFrom_shape hblank (hshape.congr hends)]
    exact (List.prefix_cons_inj _).mpr ih

/-- Behind a text without errors and a blank the rest is cut for itself. -/
theorem lexFrom_space (pos : Nat) (t u : Text) : (lexFrom pos t).error = none →
    lexFrom pos (t ++ ' ' :: u) =
      { tokens := (lexFrom pos t).tokens ++ (lexFrom (pos + t.length + 1) u).tokens,
        error := (lexFrom (pos + t.length + 1) u).error } := by
  have hspace : Text.isBlank ' ' = true := by decide +kernel
  induction pos, t using lexFrom_induction with
  | done pos =>
    intro _
    rw [List.nil_append, lexFrom_blank hspace, lexFrom_nil]
    rfl
  | blank pos c rest hblank ih =>
    intro herror
    rw [lexFrom_blank hblank] at herror ⊢
    have hlength : pos + (c :: rest).length = pos + 1 + rest.length := by
      rw [List.length_cons]
      omega
    rw [hlength, List.cons_append, lexFrom_blank hblank]
    exact ih herror
  | stuck pos c rest e hblank hscan =>
    intro herror
    rw [lexFrom_error hblank hscan] at herror
    cases herror
  | token pos c x r l hblank hshape ih =>
    intro herror
    rw [lexFrom_shape hblank hshape] at herror ⊢
    have hends : EndsAs r (r ++ ' ' :: u) := endsAs_space r u
    have hlength : pos + (c :: (x ++ r)).length = pos + 1 + x.length + r.length := by
      simp only [List.length_cons, List.length_append]
      omega
    rw [hlength, List.cons_append, List.append_assoc, lexFrom_shape hblank (hshape.congr hends),
      ih herror]
    rfl

/-- Where the tokens of a text stay, the rest of what is read is accepted behind them. -/
theorem alive_of_read {q : Query} (hread : Query.read (t ++ u) = .ok q)
    (hstays : (lex t).tokens <+: (lex (t ++ u)).tokens) :
    ∃ s, (lex t).tokens.foldlM step {} = .ok s ∧ Alive s := by
  obtain ⟨s₁, s₂, n, hfold, hend, hq⟩ := accepts_of_read hread
  obtain ⟨ts, hts⟩ := hstays
  rw [← hts, List.foldlM_append] at hfold
  obtain ⟨s, hfold, hrest⟩ := bind_eq_ok_iff.mp hfold
  exact ⟨s, hfold, ts, q, s₁, s₂, n, hrest, hend, hq⟩

/-- **Behind a text that can go on after a blank** some tokens are accepted. -/
theorem alive_of_viable (h : Viable (t ++ [' '])) :
    ∃ s, (lex t).tokens.foldlM step {} = .ok s ∧ Alive s := by
  obtain ⟨u, q, hread⟩ := h
  rw [List.append_assoc, List.singleton_append] at hread
  exact alive_of_read hread (tokens_space 0 t u)

/-- A text with a token that is refused cannot go on after a blank. -/
theorem not_viable_of_refused (h : ((lex t).tokens.foldlM step {}).toOption.isNone = true) :
    ¬Viable (t ++ [' ']) := by
  intro hviable
  obtain ⟨s, hfold, -⟩ := alive_of_viable hviable
  rw [hfold] at h
  cases h

theorem tokens_hyphen (pos : Nat) : (lexFrom pos ['-']).tokens = [] := by
  have hblank : Text.isBlank '-' = false := by decide +kernel
  cases hscan : Token.scan '-' [] pos with
  | error e => rw [lexFrom_error hblank hscan]
  | ok cut =>
    obtain ⟨x, r, hx, -, hshape⟩ := scan_eq_ok hblank hscan
    obtain ⟨rfl, rfl⟩ := List.append_eq_nil_iff.mp hx.symm
    exact absurd hshape not_shape_hyphen

/-- A bracket or a comma at the end of a text stays, whatever follows it. -/
theorem tokens_append_of_mark (pos : Nat) (t u : Text) :
    (∀ last ∈ (lexFrom pos t).tokens.getLast?,
      last.lexeme = .openBracket ∨ last.lexeme = .comma) →
    (lexFrom pos t).tokens <+: (lexFrom pos (t ++ u)).tokens := by
  induction pos, t using lexFrom_induction with
  | done pos => simp [lexFrom_nil]
  | blank pos c rest hblank ih => rwa [List.cons_append, lexFrom_blank hblank, lexFrom_blank hblank]
  | stuck pos c rest e hblank hscan => simp [lexFrom_error hblank hscan]
  | token pos c x r l hblank hshape ih =>
    intro hmark
    rw [lexFrom_shape hblank hshape] at hmark ⊢
    rw [List.cons_append, List.append_assoc]
    by_cases hlast : (lexFrom (pos + 1 + x.length) r).tokens = []
    · rw [hlast] at hmark ⊢
      have hshape' : Shape c x l (r ++ u) := by
        have hl := hmark _ rfl
        cases hshape with
        | punctuation r hc => exact .punctuation _ hc
        | _ => rcases hl with hl | hl <;> cases hl
      rw [lexFrom_shape hblank hshape']
      exact ⟨_, rfl⟩
    · have hne : r ≠ [] := by
        rintro rfl
        exact hlast (by rw [lexFrom_nil])
      have hhyphen : r ≠ ['-'] := by
        rintro rfl
        exact hlast (tokens_hyphen _)
      have hends := EndsAs.append_left hne hhyphen [] u
      rw [List.append_nil] at hends
      rw [lexFrom_shape hblank (hshape.congr hends)]
      refine (List.prefix_cons_inj _).mpr (ih fun last hmem => hmark last ?_)
      rwa [List.getLast?_cons_of_ne_nil hlast]

/-- **Where the reader can come to rest** behind the last tokens of a text, the text can go on
    after a blank. -/
theorem viable_of_completes (hlex : lex t = { tokens := front ++ ts, error := none })
    (hfold : front.foldlM step {} = .ok s) (h : CompletesAfter s (ts.map Token.lexeme)) :
    Viable (t ++ [' ']) := by
  obtain ⟨u, ls, s', hu, hreads, hrest⟩ := h
  have hspace := lexFrom_space 0 t u (congrArg Lexing.error hlex)
  obtain ⟨ts', pos', hts', hcut⟩ := hu [] endsWord_nil (0 + t.length + 1)
  rw [List.append_nil, lexFrom_nil, List.append_nil] at hcut
  rw [hcut, ← lex, ← lex, hlex] at hspace
  refine ⟨u, s'.query, ?_⟩
  rw [List.append_assoc, List.singleton_append]
  refine run_eq_ok_iff.mpr ⟨congrArg Lexing.error hspace, s', s', ?_, hrest _ rfl, rfl⟩
  rw [congrArg Lexing.tokens hspace, List.append_assoc, List.foldlM_append, hfold]
  exact hreads (ts ++ ts') (by rw [List.map_append, hts'])

theorem viable_of_read (u : Text) (h : (Query.read (t ++ u)).toOption.isSome = true) :
    Viable t := by
  cases hread : Query.read (t ++ u) with
  | error e =>
    rw [hread] at h
    cases h
  | ok q => exact ⟨u, q, hread⟩

/-- What can go on later can go on now. -/
theorem Viable.of_append (h : Viable (t ++ u)) : Viable t := by
  obtain ⟨w, q, hread⟩ := h
  exact ⟨u ++ w, q, by rwa [List.append_assoc] at hread⟩

/-! ## Section 2: Errors -/

/-- What begins neither with a part of an operator nor with a part of a number. -/
def BeginsApart (v : Text) : Prop := ∀ c ∈ v.head?, c ∉ "=~-.".toList ∧ Text.isDigit c = false

instance : (v : Text) → Decidable (BeginsApart v)
  | [] => isTrue nofun
  | c :: _ => decidable_of_iff (c ∉ "=~-.".toList ∧ Text.isDigit c = false)
      ⟨fun h _ hd => Option.some.inj hd ▸ h, fun h => h c rfl⟩

theorem BeginsApart.append (hv : BeginsApart v) (hne : v ≠ []) (u : Text) :
    BeginsApart (v ++ u) := by
  cases v with
  | nil => exact absurd rfl hne
  | cons c v => exact hv

/-- What follows such a beginning is cut as before, behind any text that is left. -/
theorem endsAs_append_of_beginsApart {r : Text} (hne : r ≠ []) (hv : BeginsApart v) :
    EndsAs r (r ++ v) := by
  by_cases hhyphen : r = ['-']
  · subst hhyphen
    refine ⟨fun h => h, fun h => h, fun h => h, fun _ => ?_, fun d hd _ => hd⟩
    cases v with
    | nil => rfl
    | cons d v => exact (hv d rfl).2
  · have hends := EndsAs.append_left hne hhyphen [] v
    rwa [List.append_nil] at hends

theorem BeginsApart.endsNumber (hv : BeginsApart v) : EndsRun Token.isNumberChar v := by
  intro c hc
  obtain ⟨hmark, hdigit⟩ := hv c hc
  rw [Token.isNumberChar, hdigit, Bool.false_or, beq_eq_false_iff_ne]
  rintro rfl
  exact hmark (by simp)

theorem BeginsApart.endsDay (hv : BeginsApart v) : Token.continuesDay v = false := by
  cases v with
  | nil => rfl
  | cons c v =>
    refine continuesDay_of_ne ?_ v
    rintro rfl
    exact (hv '-' rfl).1 (by simp)

/-- No operator takes what begins apart as its second character. -/
theorem BeginsApart.operator? (hv : BeginsApart v) {c : Char} (r : Text) :
    Token.operator? c (r ++ v).head? = Token.operator? c r.head? := by
  cases r with
  | cons d r => rfl
  | nil =>
    cases v with
    | nil => rfl
    | cons d v =>
      have hmark := (hv d rfl).1
      simp only [List.nil_append, List.head?_cons, List.head?_nil]
      unfold Token.operator?
      split <;> simp_all

theorem scan_error_append {c : Char} {rest : Text} (hscan : Token.scan c rest pos = .error e)
    (hcause : e.cause ≠ .unterminatedString) (hv : BeginsApart v) :
    Token.scan c (rest ++ v) pos = .error e := by
  unfold Token.scan at hscan ⊢
  split at hscan
  · cases hscan
  · split_ifs at hscan ⊢ with hop hquote hnumber hword
    · rwa [hv.operator?]
    · split at hscan
      · cases hscan
      · obtain rfl := Except.error.inj hscan
        exact absurd rfl hcause
    · obtain ⟨x, r, rfl, -, hstays⟩ := scanNumber_error hscan
      rw [List.append_assoc]
      by_cases hr : r = []
      · subst hr
        exact hstays v (fun _ => hv.endsNumber) (fun _ => hv.endsDay)
      · have hends := endsAs_append_of_beginsApart hr hv
        exact hstays (r ++ v) hends.number hends.day
    · exact hscan

/-- **An error stays** when the text goes on with something that begins apart, unless it is a
    string that is not closed. -/
theorem error_append (pos : Nat) (t : Text) (hv : BeginsApart v) :
    ∀ {e : QueryError}, (lexFrom pos t).error = some e → e.cause ≠ .unterminatedString →
      (lexFrom pos (t ++ v)).error = some e := by
  induction pos, t using lexFrom_induction with
  | done pos => simp [lexFrom_nil]
  | blank pos c rest hblank ih =>
    intro e herror
    rw [lexFrom_blank hblank] at herror
    rw [List.cons_append, lexFrom_blank hblank]
    exact ih herror
  | stuck pos c rest e' hblank hscan =>
    intro e herror hcause
    rw [lexFrom_error hblank hscan] at herror
    obtain rfl := Option.some.inj herror
    rw [List.cons_append, lexFrom_error hblank (scan_error_append hscan hcause hv)]
  | token pos c x r l hblank hshape ih =>
    intro e herror hcause
    rw [lexFrom_shape hblank hshape] at herror
    have hne : r ≠ [] := by
      rintro rfl
      rw [lexFrom_nil] at herror
      cases herror
    rw [List.cons_append, List.append_assoc,
      lexFrom_shape hblank (hshape.congr (endsAs_append_of_beginsApart hne hv))]
    exact ih herror hcause

/-- Behind an error that stays nothing is read. -/
theorem not_viable_of_error (herror : (lex t).error = some e)
    (hcause : e.cause ≠ .unterminatedString) (hne : v ≠ []) (hv : BeginsApart v) :
    ¬Viable (t ++ v) := by
  rintro ⟨u, q, hread⟩
  rw [List.append_assoc] at hread
  have hstays := error_append 0 t (hv.append hne u) herror hcause
  exact absurd ((run_eq_ok_iff.mp hread).1.symm.trans hstays) nofun

/-! ## Section 3: Strings that are not closed -/

theorem unquote?_of_notMem {q : Char} (h : q ∉ w) : Token.unquote? q w = none := by
  fun_induction Token.unquote? q w with
  | case1 => rfl
  | case2 c rest ih =>
    simp only [List.mem_cons, not_or] at h
    rw [ih h.2.2]
    rfl
  | case3 rest hback => exact absurd List.mem_cons_self h
  | case4 c rest hback hc ih =>
    simp only [List.mem_cons, not_or] at h
    rw [ih h.2]
    rfl

/-- What holds no quotation mark does not close a string. -/
theorem unquote?_append_of_notMem {q : Char} (ht : Token.unquote? q t = none) (hw : q ∉ w) :
    Token.unquote? q (t ++ w) = none := by
  fun_induction Token.unquote? q t with
  | case1 => exact unquote?_of_notMem hw
  | case2 c rest ih =>
    rw [Option.map_eq_none_iff] at ht
    rw [List.cons_append, List.cons_append, Token.unquote?, ih ht]
    rfl
  | case3 rest hback => cases ht
  | case4 c rest hback hc ih =>
    rw [Option.map_eq_none_iff] at ht
    -- a backslash at the very end takes the first character of what follows
    by_cases hslash : ∃ d w', rest = [] ∧ w = d :: w' ∧ c = '\\'
    · obtain ⟨d, w', rfl, rfl, rfl⟩ := hslash
      rw [List.mem_cons, not_or] at hw
      rw [List.singleton_append, Token.unquote?, unquote?_of_notMem hw.2]
      rfl
    · rw [List.cons_append, Token.unquote?, if_neg hc, ih ht]
      · rfl
      · rintro d t' rfl heq
        cases rest with
        | nil => exact hslash ⟨d, t', rfl, heq, rfl⟩
        | cons d' rest => exact hback d' rest rfl rfl

/-- A string that is not closed in `t` is closed in what follows. -/
theorem exists_closing {q : Char} {x : Text} {n : Nat} (hq : q ≠ '\\')
    (hopen : Token.unquote? q t = none) (h : Token.unquote? q (t ++ u) = some (x, n)) :
    ∃ closing r, u = closing ++ r ∧
      ∀ r', Token.unquote? q (t ++ closing ++ r') = some (x, (t ++ closing).length) := by
  obtain ⟨y, r, hsplit, rfl, hy⟩ := unquote?_split hq h
  rcases List.append_eq_append_iff.mp hsplit with ⟨closing, rfl, rfl⟩ | ⟨z, rfl, -⟩
  · exact ⟨closing, r, rfl, hy⟩
  · rw [hy] at hopen
    cases hopen

theorem scan_open {c : Char} {rest : Text} (hscan : Token.scan c rest pos = .error e)
    (hcause : e.cause = .unterminatedString) :
    Token.isQuote c = true ∧ Token.unquote? c rest = none ∧ e.start = pos := by
  unfold Token.scan at hscan
  split at hscan
  · cases hscan
  · split_ifs at hscan with hop hquote hnumber hword
    · split at hscan
      · cases hscan
      · obtain rfl := Except.error.inj hscan
        cases hcause
    · split at hscan
      · cases hscan
      · next hopen =>
        obtain rfl := Except.error.inj hscan
        exact ⟨hquote, hopen, rfl⟩
    · obtain ⟨x, r, -, rfl, -⟩ := scanNumber_error hscan
      cases hcause
    · obtain rfl := Except.error.inj hscan
      cases hcause

/-- A string that is not closed begins somewhere, and what the text goes on with goes on in it. -/
theorem exists_open (pos : Nat) (t : Text) : ∀ {e : QueryError}, (lexFrom pos t).error = some e →
    e.cause = .unterminatedString →
    ∃ a q body, t = a ++ q :: body ∧ e.start = pos + a.length ∧ Token.isQuote q = true ∧
      Token.unquote? q body = none ∧ ∀ w, lexFrom pos (t ++ w) =
        { tokens := (lexFrom pos t).tokens ++ (lexFrom e.start (q :: (body ++ w))).tokens,
          error := (lexFrom e.start (q :: (body ++ w))).error } := by
  induction pos, t using lexFrom_induction with
  | done pos => simp [lexFrom_nil]
  | blank pos c rest hblank ih =>
    intro e herror hcause
    rw [lexFrom_blank hblank] at herror
    obtain ⟨a, q, body, rfl, hstart, hquote, hopen, hstays⟩ := ih herror hcause
    refine ⟨c :: a, q, body, rfl, ?_, hquote, hopen, fun w => ?_⟩
    · rw [hstart, List.length_cons]
      omega
    · rw [List.cons_append, lexFrom_blank hblank, lexFrom_blank hblank, hstays w]
  | stuck pos c rest e' hblank hscan =>
    intro e herror hcause
    rw [lexFrom_error hblank hscan] at herror
    obtain rfl := Option.some.inj herror
    obtain ⟨hquote, hopen, hstart⟩ := scan_open hscan hcause
    refine ⟨[], c, rest, rfl, by simpa using hstart, hquote, hopen, fun w => ?_⟩
    rw [lexFrom_error hblank hscan, hstart]
    rfl
  | token pos c x r l hblank hshape ih =>
    intro e herror hcause
    rw [lexFrom_shape hblank hshape] at herror
    obtain ⟨a, q, body, rfl, hstart, hquote, hopen, hstays⟩ := ih herror hcause
    refine ⟨c :: (x ++ a), q, body, by simp, ?_, hquote, hopen, fun w => ?_⟩
    · rw [hstart, List.length_cons, List.length_append]
      omega
    · have hhyphen : a ++ q :: body ≠ ['-'] := by
        intro heq
        rcases List.append_eq_singleton_iff.mp heq with ⟨-, heq⟩ | ⟨-, heq⟩
        · obtain ⟨rfl, -⟩ := List.cons.inj heq
          cases hquote
        · cases heq
      have hends : EndsAs (a ++ q :: body) (a ++ q :: body ++ w) := by
        have hne : a ++ q :: body ≠ [] := by simp
        have hends := EndsAs.append_left hne hhyphen [] w
        rwa [List.append_nil] at hends
      rw [List.cons_append, List.append_assoc, lexFrom_shape hblank hshape,
        lexFrom_shape hblank (hshape.congr hends), hstays w]
      rfl

/-- **A string that is not closed** is closed behind a text without its quotation mark, where no
    error is left. -/
theorem exists_closed (herror : (lex t).error = some e) (hcause : e.cause = .unterminatedString)
    (hv : ∀ q ∈ t[e.start]?, q ∉ v) (hnone : (lex (t ++ (v ++ ' ' :: u))).error = none) :
    ∃ closing token x rest, token.lexeme = .string x ∧
      lex (t ++ (v ++ ' ' :: closing)) = { tokens := (lex t).tokens ++ [token], error := none } ∧
      (lex (t ++ (v ++ ' ' :: u))).tokens = (lex t).tokens ++ token :: rest := by
  obtain ⟨a, q, body, rfl, hstart, hquote, hopen, hstays⟩ := exists_open 0 t herror hcause
  obtain ⟨hblank, hspace, hslash⟩ : Text.isBlank q = false ∧ q ≠ ' ' ∧ q ≠ '\\' := by
    simp only [Token.isQuote, Bool.or_eq_true, beq_iff_eq] at hquote
    rcases hquote with rfl | rfl <;> exact ⟨rfl, by decide, by decide⟩
  have hq : q ∉ v ++ [' '] := by
    rw [Nat.zero_add] at hstart
    have hmem := hv q (by simp [hstart])
    simpa [hmem] using hspace
  have hlex := hstays (v ++ ' ' :: u)
  rw [← lex, ← lex] at hlex
  rw [hlex] at hnone ⊢
  -- the string is closed, and not before `u`
  cases hunquote : Token.unquote? q (body ++ (v ++ ' ' :: u)) with
  | none =>
    obtain ⟨hpunct, hop⟩ := classes_of_isQuote hquote
    have hscan : Token.scan q (body ++ (v ++ ' ' :: u)) e.start =
        .error ⟨.unterminatedString, e.start, e.start + 1 + (body ++ (v ++ ' ' :: u)).length⟩ := by
      simp [Token.scan, hpunct, hop, hquote, hunquote]
    rw [lexFrom_error hblank hscan] at hnone
    cases hnone
  | some found =>
    obtain ⟨x, n⟩ := found
    have hopen' : Token.unquote? q (body ++ (v ++ [' '])) = none :=
      unquote?_append_of_notMem hopen hq
    have hassoc : ∀ r, body ++ (v ++ ' ' :: r) = body ++ (v ++ [' ']) ++ r := by simp
    rw [hassoc] at hunquote
    obtain ⟨closing, r, rfl, hy⟩ := exists_closing hslash hopen' hunquote
    let stop := e.start + 1 + (body ++ (v ++ [' ']) ++ closing).length
    let token : Token := ⟨.string x, q :: (body ++ (v ++ [' ']) ++ closing), e.start, stop⟩
    have hcut : ∀ r, lexFrom e.start (q :: (body ++ (v ++ ' ' :: (closing ++ r)))) =
        { tokens := token :: (lexFrom stop r).tokens, error := (lexFrom stop r).error } := by
      intro r
      rw [hassoc, ← List.append_assoc]
      exact lexFrom_shape hblank (.quoted r hquote hy)
    refine ⟨closing, token, x, (lexFrom stop r).tokens, rfl, ?_, by rw [hcut]⟩
    rw [lex, hstays, ← lex, ← List.append_nil closing, hcut, lexFrom_nil]

/-! ## Section 4: The last token goes on -/

/-- The token `last` goes on with the front `more` of a text and is `long` then, and `rest` is
    left: a word goes on with characters of words, a day or a moment with its own. -/
structure Grows (last long : Token) (more rest : Text) : Prop where
  some : last.text ≠ [] ∧ more ≠ []
  text : long.text = last.text ++ more
  ends :
    (long.lexeme = .word long.text ∧
      more.all Token.isWordChar = true ∧ EndsRun Token.isWordChar rest) ∨
    (long.lexeme = .string long.text ∧
      more.all Token.isTimeChar = true ∧ EndsRun Token.isTimeChar rest)

/-- At the end of a text a token is the same where something that begins apart follows, or it
    goes on with that. -/
theorem Shape.append_cases {c : Char} {x : Text} {l : Lexeme} (h : Shape c x l [])
    (hv : BeginsApart v) : Shape c x l v ∨
    ∃ more rest l', v = more ++ rest ∧ Shape c (x ++ more) l' rest ∧
      ∀ start stop stop', Grows ⟨l, c :: x, start, stop⟩ ⟨l', c :: (x ++ more), start, stop'⟩
        more rest := by
  cases h with
  | punctuation _ hc => exact Or.inl (.punctuation v hc)
  | symbol hc ho hx =>
    rw [List.append_nil] at ho
    exact Or.inl (.symbol hc ((hv.operator? x).trans ho) hx)
  | quoted _ hc hx => exact Or.inl (.quoted v hc hx)
  | number hc hx hr hday hnum =>
    exact Or.inl (.number hc hx hv.endsNumber (Or.inr hv.endsDay) hnum)
  | @time x y _ hc hx hy hday hr =>
    obtain ⟨more, rest, rfl, hmore, hrest, -, -⟩ := exists_run Token.isTimeChar v
    by_cases hne : more = []
    · subst hne
      exact Or.inl (.time hc hx hy hday hrest)
    · have hall : (y ++ more).all Token.isTimeChar = true := by
        rw [List.all_append, hy, hmore]
        rfl
      have hshape := Shape.time hc hx hall (continuesDay_append hday more) hrest
      rw [← List.append_assoc, List.cons_append, ← List.append_assoc] at hshape
      exact Or.inr ⟨more, rest, _, rfl, hshape, fun _ _ _ =>
        ⟨⟨List.cons_ne_nil c _, hne⟩, rfl, Or.inr ⟨rfl, hmore, hrest⟩⟩⟩
  | word hx hr =>
    obtain ⟨more, rest, rfl, hmore, hrest, -, -⟩ := exists_run Token.isWordChar v
    by_cases hne : more = []
    · subst hne
      exact Or.inl (.word hx hrest)
    · have hall : isWholeWord (c :: (x ++ more)) = true := by
        simp only [isWholeWord, Bool.and_eq_true] at hx ⊢
        refine ⟨hx.1, ?_⟩
        rw [List.all_append, hx.2, hmore]
        rfl
      exact Or.inr ⟨more, rest, _, rfl, .word hall hrest, fun _ _ _ =>
        ⟨⟨List.cons_ne_nil c x, hne⟩, rfl, Or.inl ⟨rfl, hmore, hrest⟩⟩⟩

/-- **What follows a text without errors** and begins apart is cut for itself, or the last token
    of the text goes on with it. -/
theorem lexFrom_append_cases (hv : Spells v ls) (hbegins : BeginsApart v) (pos : Nat) (t : Text) :
    (lexFrom pos t).error = none →
    (∃ ts, ts.map Token.lexeme = ls ∧
      lexFrom pos (t ++ v) = { tokens := (lexFrom pos t).tokens ++ ts, error := none }) ∨
    ∃ front last long more rest pos', v = more ++ rest ∧ Grows last long more rest ∧
      (lexFrom pos t).tokens = front ++ [last] ∧
      lexFrom pos (t ++ v) = { tokens := front ++ long :: (lexFrom pos' rest).tokens,
                               error := (lexFrom pos' rest).error } := by
  -- the text that follows, cut for itself
  have hapart : ∀ pos, ∃ ts, ts.map Token.lexeme = ls ∧
      lexFrom pos v = { tokens := ts, error := none } := by
    intro pos
    obtain ⟨ts, pos', hts, hlex⟩ := hv [] endsWord_nil pos
    rw [List.append_nil, lexFrom_nil, List.append_nil] at hlex
    exact ⟨ts, hts, hlex⟩
  induction pos, t using lexFrom_induction with
  | done pos =>
    intro _
    left
    rw [lexFrom_nil]
    exact hapart pos
  | blank pos c rest hblank ih =>
    rw [List.cons_append, lexFrom_blank hblank, lexFrom_blank hblank]
    exact ih
  | stuck pos c rest e hblank hscan =>
    intro herror
    rw [lexFrom_error hblank hscan] at herror
    cases herror
  | token pos c x r l hblank hshape ih =>
    intro herror
    rw [lexFrom_shape hblank hshape] at herror ⊢
    rw [List.cons_append, List.append_assoc]
    by_cases hr : r = []
    · subst hr
      rw [lexFrom_nil, List.nil_append]
      rcases hshape.append_cases hbegins with
        hsame | ⟨more, rest, l', rfl, hlong, hgrows⟩
      · obtain ⟨ts, hts, hlex⟩ := hapart (pos + 1 + x.length)
        left
        refine ⟨ts, hts, ?_⟩
        rw [lexFrom_shape hblank hsame, hlex]
        rfl
      · right
        refine ⟨[], _, ⟨l', c :: (x ++ more), pos, pos + 1 + (x ++ more).length⟩, more, rest,
          pos + 1 + (x ++ more).length, rfl, hgrows pos _ _, rfl, ?_⟩
        rw [← List.append_assoc, lexFrom_shape hblank hlong]
        rfl
    · have hends := endsAs_append_of_beginsApart hr hbegins
      rw [lexFrom_shape hblank (hshape.congr hends)]
      rcases ih herror with ⟨ts, hts, hlex⟩ |
        ⟨front, last, long, more, rest, pos', heq, hgrows, htokens, hlex⟩
      · exact Or.inl ⟨ts, hts, by rw [hlex]; rfl⟩
      · exact Or.inr ⟨_ :: front, last, long, more, rest, pos', heq, hgrows,
          by rw [htokens]; rfl, by rw [hlex]; rfl⟩

end texts

end Agenda.Filter
