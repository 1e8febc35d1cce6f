import Agenda.Proofs.Completion.Leads

/-! # Suggestions in the text

    A suggestion stands directly behind the text in front of it, so a word or a day at the end of
    that text may go on with it, and it may stand in a string that the reader has not seen the
    end of.  Whether the text can go on with a suggestion and a blank is decided by the tokens in
    front of it in each of the three cases (`LeadsOn`, `suggest_viable_iff`). -/

namespace Agenda.Filter.Completion

open Reader

/-! ## Section 1: Words that go on with a suggestion -/

/-- The words that are more than texts somewhere in a query. -/
def specialWords : List Text :=
  laterWords ++ reservedWords ++ Field.every.flatMap fun f => f.name :: f.aliases

/-- The words that suggestions begin with. -/
def firstWords : List Text :=
  Field.every.map Field.name ++ ["AND".toList, "OR".toList, "NOT".toList, "ORDER".toList] ++
    Status.offered

/-- No special word ends in a word that suggestions begin with, unless it is one. -/
theorem length_le_of_suffix : ∀ w ∈ firstWords, ∀ special ∈ specialWords,
    w.map Char.toLower <:+ special → special.length ≤ w.length := by
  decide +kernel

theorem plain_specialWords : ∀ w ∈ specialWords, Text.hasPlainLetters w = true := by
  decide +kernel

/-- What can be left of a suggestion where its beginning goes on with a token. -/
def leftovers : List Text := [[], "_date".toList, "_at".toList, " BY".toList]

section growing
variable {v more rest front : Text} {ls : List Lexeme} {last long : Token}

/-- A quotation mark goes on with no token. -/
theorem not_goesOn_quote : Token.isWordChar '\'' = false ∧ Token.isTimeChar '\'' = false := by
  decide +kernel

/-- A word that goes on with a suggestion goes on with a whole word of it. -/
theorem Offer.first_of_word (hv : Offer v ls) :
    v.takeWhile Token.isWordChar = [] ∨
      v.takeWhile Token.isWordChar ∈ firstWords ∧ v.dropWhile Token.isWordChar ∈ leftovers := by
  cases hv with
  | name f => cases f <;> decide +kernel
  | status hw =>
    have hall : ∀ w ∈ Status.offered, w.takeWhile Token.isWordChar = [] ∨
        w.takeWhile Token.isWordChar ∈ firstWords ∧
          w.dropWhile Token.isWordChar ∈ leftovers := by
      decide +kernel
    exact hall v hw
  | quoted t => exact Or.inl (List.takeWhile_cons_of_neg (by simp [not_goesOn_quote.1]))
  | _ => decide +kernel

theorem Offer.left_of_time (hv : Offer v ls) :
    v.takeWhile Token.isTimeChar = [] ∨ v.dropWhile Token.isTimeChar ∈ leftovers := by
  cases hv with
  | name f => cases f <;> decide +kernel
  | status hw =>
    have hall : ∀ w ∈ Status.offered, w.takeWhile Token.isTimeChar = [] ∨
        w.dropWhile Token.isTimeChar ∈ leftovers := by
      decide +kernel
    exact hall v hw
  | quoted t => exact Or.inl (List.takeWhile_cons_of_neg (by simp [not_goesOn_quote.2]))
  | _ => decide +kernel

/-- A word that is longer than the word it ends in is no special word. -/
theorem lower_notMem_of_suffix (hfront : front ≠ []) (hmore : more ∈ firstWords) :
    Text.lower (front ++ more) ∉ specialWords := by
  intro hspecial
  have hplain : ∀ d ∈ Text.lower (front ++ more), d ∈ Text.plainLetters := fun d hd =>
    List.contains_iff_mem.mp (List.all_eq_true.mp (plain_specialWords _ hspecial) d hd)
  have hsmall : (front ++ more).map Char.toLower = Text.lower (front ++ more) :=
    Text.map_toLower_of_lowerFrom rfl hplain
  rw [List.map_append] at hsmall
  have hle := length_le_of_suffix more hmore _ hspecial ⟨_, hsmall⟩
  rw [← hsmall, List.length_append, List.length_map, List.length_map] at hle
  have hpos := List.length_pos_iff.mpr hfront
  omega

/-- **What goes on with a suggestion** is a string or a word that means nothing in particular,
    and so is what is left of the suggestion. -/
theorem quiet_of_grows (h : Grows last long more rest) (hv : Offer (more ++ rest) ls) :
    Quiet long.lexeme ∧ Stray long.lexeme ∧ rest ∈ leftovers := by
  obtain ⟨⟨hlast, hmore⟩, htext, ⟨hlong, hall, hrest⟩ | ⟨hlong, hall, hrest⟩⟩ := h
  · have hfirst := hv.first_of_word
    rw [takeWhile_of_endsRun hall hrest, dropWhile_of_endsRun hall hrest] at hfirst
    obtain ⟨hfirst, hleft⟩ := hfirst.resolve_left hmore
    have hno := lower_notMem_of_suffix hlast hfirst
    rw [← htext] at hno
    simp only [specialWords, List.mem_append, not_or] at hno
    obtain ⟨⟨hlater, hreserved⟩, hname⟩ := hno
    rw [hlong]
    refine ⟨hlater, ⟨hreserved, ?_⟩, hleft⟩
    cases hfind : Field.find? long.text with
    | none => rfl
    | some f =>
      have hf : f ∈ Field.every := by cases f <;> decide
      exact absurd (List.mem_flatMap.mpr ⟨f, hf, lower_mem_of_find? hfind⟩) hname
  · have hleft := hv.left_of_time
    rw [takeWhile_of_endsRun hall hrest, dropWhile_of_endsRun hall hrest] at hleft
    rw [hlong]
    exact ⟨trivial, trivial, hleft.resolve_left hmore⟩

theorem spells_leftover (h : rest ∈ leftovers) :
    rest = [] ∨ ∃ l, Spells rest [l] ∧ Stray l := by
  simp only [leftovers, List.mem_cons, List.not_mem_nil, or_false] at h
  rcases h with rfl | rfl | rfl | rfl
  · exact Or.inl rfl
  · exact Or.inr ⟨_, .word (by decide +kernel), by decide +kernel, by decide +kernel⟩
  · exact Or.inr ⟨_, .word (by decide +kernel), by decide +kernel, by decide +kernel⟩
  · have hby : Spells "BY".toList [capitalBy.lexeme] :=
      capitalBy.spells_word (by simp [writtenWords])
    exact Or.inr ⟨_, Spells.nil.space hby, by decide +kernel, by decide +kernel⟩

end growing

/-! ## Section 2: Texts that lead on -/

/-- The text `t` leads on with `v` and a blank behind it. -/
inductive LeadsOn (t v : Text) : Prop where
  /-- `v` is cut for itself and can be read behind `t`. -/
  | apart {ts : List Token} {σ : State}
      (hlex : lex (t ++ v) = { tokens := (lex t).tokens ++ ts, error := none })
      (hv : Spells v (ts.map Token.lexeme))
      (hfold : (lex t).tokens.foldlM step {} = .ok σ) (h : Leads σ v)
  /-- The last token of `t` goes on with `v`, and it is a text that fits. -/
  | joined {front : List Token} {last long : Token} {σ : State} {x : Text}
      (ht : (lex t).tokens = front ++ [last])
      (hlex : lex (t ++ v) = { tokens := front ++ [long], error := none })
      (hfold : front.foldlM step {} = .ok σ) (hx : Atom long.lexeme (.text x)) (h : Fits σ x)
  /-- `v` stands in a string that is not closed in `t`, and some string that begins so fits. -/
  | inside {e : QueryError} {u x : Text} {token : Token} {σ : State}
      (hopen : (lex t).error = some e) (hcause : e.cause = .unterminatedString)
      (hlex : lex (t ++ (v ++ ' ' :: u)) = { tokens := (lex t).tokens ++ [token], error := none })
      (hfold : (lex t).tokens.foldlM step {} = .ok σ)
      (hx : token.lexeme = .string x) (h : Fits σ x)

section texts
variable {t u v : Text} {ls : List Lexeme} {σ : State}

theorem LeadsOn.viable (h : LeadsOn t v) (hv : Offer v ls) : Viable (t ++ v ++ [' ']) := by
  cases h with
  | @apart ts σ hlex hts hfold h =>
    obtain rfl := hv.eq_of_spells hts
    have hlegal := legal_of_reached (List.append_nil _).symm hfold
    exact viable_of_completes hlex hfold (h.completesAfter hlegal hv)
  | joined ht hlex hfold hx h =>
    have hlegal := legal_of_reached ht hfold
    exact viable_of_completes hlex hfold (h.completesAfter hlegal hx)
  | @inside e u x token σ hopen hcause hlex hfold hx h =>
    have hlegal := legal_of_reached (List.append_nil _).symm hfold
    have hatom : Atom token.lexeme (.text x) := hx ▸ .string x
    have hviable := viable_of_completes hlex hfold (h.completesAfter hlegal hatom)
    refine Viable.of_append (u := u ++ [' ']) ?_
    simpa using hviable

theorem Offer.begins (h : Offer v ls) : v ≠ [] ∧ BeginsApart v := by
  have hname : ∀ f : Field, f.name ≠ [] ∧ BeginsApart f.name := by
    intro f
    cases f <;> decide +kernel
  have hword : ∀ w ∈ Status.offered, w ≠ [] ∧ BeginsApart w := by decide +kernel
  have hquote : '\'' ∉ "=~-.".toList ∧ Text.isDigit '\'' = false := by decide +kernel
  cases h with
  | name f => exact hname f
  | status hw => exact hword v hw
  | quoted t => exact ⟨nofun, fun c hc => Option.some.inj hc ▸ hquote⟩
  | _ => exact ⟨nofun, by decide +kernel⟩

/-- Nothing of a suggestion is left where a value or an item ends. -/
theorem eq_nil_of_leftover {σ' : State} {rest : Text} {pos : Nat}
    (hrest : rest ∈ leftovers) (hs : EndsText σ.mode)
    (hfold : (lexFrom pos rest).tokens.foldlM step σ = .ok σ') : rest = [] := by
  rcases spells_leftover hrest with hnil | ⟨l, hl, hstray⟩
  · exact hnil
  · exfalso
    obtain ⟨ts, pos', hts, hlex⟩ := hl [] endsWord_nil pos
    obtain ⟨token, rfl, htoken⟩ := List.map_eq_singleton_iff.mp hts
    rw [List.append_nil] at hlex
    rw [hlex, List.singleton_append, List.foldlM_cons] at hfold
    obtain ⟨σ₁, hstep, -⟩ := bind_eq_ok_iff.mp hfold
    have htakes := step_takes hstep (htoken ▸ hstray.ne_finish)
    rw [htoken] at htakes
    exact not_takes_stray hstray (Or.inr hs) htakes

/-- The suggestion does not hold the quotation mark of a string that is open in front of it. -/
def StaysOpen (t v : Text) : Prop :=
  ∀ e ∈ (lex t).error, e.cause = .unterminatedString → ∀ q ∈ t[e.start]?, q ∉ v

/-- **A text that can go on with a suggestion** and a blank leads on with it. -/
theorem leadsOn_of_viable (hv : Offer v ls) (hquote : StaysOpen t v)
    (h : Viable (t ++ v ++ [' '])) : LeadsOn t v := by
  obtain ⟨hne, hbegins⟩ := hv.begins
  cases herror : (lex t).error with
  | some e =>
    rw [List.append_assoc] at h
    by_cases hcause : e.cause = .unterminatedString
    · -- the suggestion stands in the string, which is closed some time
      obtain ⟨u, q, hread⟩ := h
      have hassoc : t ++ (v ++ [' ']) ++ u = t ++ (v ++ ' ' :: u) := by simp
      rw [hassoc] at hread
      obtain ⟨closing, token, x, rest, hx, hlex, htokens⟩ := exists_closed herror hcause
        (hquote e herror hcause) (run_eq_ok_iff.mp hread).1
      obtain ⟨s₁, s₂, n, hfold, hend⟩ := accepts_of_read hread
      rw [htokens, List.foldlM_append] at hfold
      obtain ⟨σ, hfold, hrest⟩ := bind_eq_ok_iff.mp hfold
      rw [List.foldlM_cons] at hrest
      obtain ⟨σ₁, hstep, hrest⟩ := bind_eq_ok_iff.mp hrest
      have htakes := step_takes hstep (hx ▸ nofun)
      rw [hx] at htakes
      obtain ⟨x', hatom, hfits, -⟩ := exists_fits_of_takes (l := .string x) trivial trivial htakes
      cases hatom
      exact .inside herror hcause hlex hfold hx (hfits ⟨rest, q, s₁, s₂, n, hrest, hend⟩)
    · exact absurd h (not_viable_of_error herror hcause (by simp) (hbegins.append hne [' ']))
  | none =>
    obtain ⟨σ', hall, halive⟩ := alive_of_viable h
    rcases lexFrom_append_cases hv.spells hbegins 0 t herror with
      ⟨ts, hts, hlex⟩ | ⟨front, last, long, more, rest, pos, rfl, hgrows, htokens, hlex⟩
    · rw [lex, hlex, List.foldlM_append] at hall
      obtain ⟨σ, hfold, hrest⟩ := bind_eq_ok_iff.mp hall
      have hlegal := legal_of_reached (List.append_nil _).symm hfold
      exact .apart hlex (hts ▸ hv.spells) hfold (leads_of_taken hlegal hv hts hrest halive)
    · obtain ⟨hquiet, hstray, hleft⟩ := quiet_of_grows hgrows hv
      rw [lex, hlex, List.foldlM_append] at hall
      obtain ⟨σ, hfold, hrest⟩ := bind_eq_ok_iff.mp hall
      rw [List.foldlM_cons] at hrest
      obtain ⟨σ₁, hstep, hleftover⟩ := bind_eq_ok_iff.mp hrest
      have htakes := step_takes hstep hstray.ne_finish
      obtain ⟨x, hatom, hfits, hs⟩ := exists_fits_of_takes hquiet hstray htakes
      obtain rfl := eq_nil_of_leftover hleft hs hleftover
      rw [lexFrom_nil] at hlex hleftover
      obtain rfl := Except.ok.inj hleftover
      exact .joined htokens hlex hfold hatom (hfits halive)

theorem mark_of_takes {s s' : State} {l : Lexeme} (h : Takes s l s') (hdue : takesText s'.mode)
    (hlist : ∀ f op, s'.mode ≠ .value f op) : l = .openBracket ∨ l = .comma := by
  cases h <;> simp_all [takesText, State.withOperand]

/-- Where a value or an item is due, something is accepted behind the beginning of a query. -/
theorem alive_of_due (hviable : Viable t) (hfold : (lex t).tokens.foldlM step {} = .ok σ)
    (hdue : takesText σ.mode = true) : Alive σ := by
  have hlegal := legal_of_reached (List.append_nil _).symm hfold
  by_cases hvalue : ∃ f op, σ.mode = .value f op
  · obtain ⟨f, op, hs⟩ := hvalue
    have hmode := hlegal.mode
    rw [hs] at hmode
    exact (completes_value hs hmode.2).alive
  · -- in a list the last token is a bracket or a comma
    have hmark : ∀ last ∈ (lex t).tokens.getLast?,
        last.lexeme = .openBracket ∨ last.lexeme = .comma := by
      intro last hlast
      obtain ⟨front, htokens⟩ := List.getLast?_eq_some_iff.mp hlast
      rw [htokens, List.foldlM_append] at hfold
      obtain ⟨σ₀, -, hlast⟩ := bind_eq_ok_iff.mp hfold
      rw [List.foldlM_cons] at hlast
      obtain ⟨σ₁, hstep, hnil⟩ := bind_eq_ok_iff.mp hlast
      obtain rfl := Except.ok.inj hnil
      have hmem : last ∈ (lexFrom 0 t).tokens := by
        show last ∈ (lex t).tokens
        simp [htokens]
      refine mark_of_takes (step_takes hstep (lexFrom_ne_finish 0 t last hmem)) hdue ?_
      exact fun f op hs => hvalue ⟨f, op, hs⟩
    obtain ⟨u, q, hread⟩ := hviable
    obtain ⟨s, hfold', halive⟩ := alive_of_read hread (tokens_append_of_mark 0 t u hmark)
    rw [hfold] at hfold'
    exact Except.ok.inj hfold' ▸ halive

end texts

/-! ## Section 3: Suggestions -/

section suggestions
variable {t : Text} {cursor : Option Int} {tags projects : List Text} {s : Suggestion}

theorem exists_offer (h : s ∈ suggest t cursor tags projects) : ∃ ls, Offer s.value ls := by
  obtain ⟨-, -, ⟨-, f, -, hvalue⟩ | ⟨-, hkeyword⟩ | ⟨f, -, hvalue⟩⟩ := mem_suggestFor h
  · rw [hvalue]
    exact ⟨_, .name f⟩
  · simp only [keywords, List.mem_cons, List.not_mem_nil, or_false] at hkeyword
    rcases hkeyword with h | h | h | h <;> rw [h]
    · exact ⟨_, .conjunction⟩
    · exact ⟨_, .alternative⟩
    · exact ⟨_, .negation⟩
    · exact ⟨_, .order⟩
  · rcases hvalue with ⟨-, hw⟩ | ⟨-, name, hname⟩
    · exact ⟨_, .status hw⟩
    · rw [hname]
      exact ⟨_, .quoted name⟩

/-- A mark that is half of an operator is cut in no other way. -/
theorem not_viable_half : ¬Viable "status !OPEN ".toList := by
  have hlone : (lex "status !".toList).error.any (fun e => match e.cause with
      | .unterminatedString => false
      | _ => true) = true := by
    decide +kernel
  cases herror : (lex "status !".toList).error with
  | none =>
    rw [herror] at hlone
    cases hlone
  | some e =>
    rw [herror] at hlone
    refine not_viable_of_error (v := "OPEN ".toList) herror (fun hcause => ?_) nofun ?_
    · simp [hcause] at hlone
    · decide +kernel

end suggestions

end Agenda.Filter.Completion
