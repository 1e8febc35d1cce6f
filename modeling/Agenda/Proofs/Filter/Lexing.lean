import Mathlib.Tactic.SplitIfs
import Agenda.Filter.Token

/-! # Cutting texts into lexemes

    How a text begins with lexemes, checked with the characters that really follow: a word or a
    number goes on as long as it can, so what it is depends on what stands after it.  Texts
    that begin with known lexemes compose (`Cuts.append`). -/

namespace Agenda.Filter

/-! ## Section 1: Tokens are no ends -/

theorem punctuation?_ne_finish {c : Char} {l : Lexeme} (h : Token.punctuation? c = some l) :
    l ≠ .finish := by
  unfold Token.punctuation? at h
  split at h <;> simp_all <;> obtain rfl := h <;> simp

theorem scanNumber_ne_finish {c : Char} {rest : Text} {pos n : Nat} {l : Lexeme}
    (h : Token.scanNumber c rest pos = .ok (l, n)) : l ≠ .finish := by
  unfold Token.scanNumber at h
  dsimp only at h
  split_ifs at h <;> cases h <;> simp

/-- What is cut from a text is never its end. -/
theorem scan_ne_finish {c : Char} {rest : Text} {pos n : Nat} {l : Lexeme}
    (h : Token.scan c rest pos = .ok (l, n)) : l ≠ .finish := by
  unfold Token.scan at h
  split at h
  · next l' hl =>
    cases h
    exact punctuation?_ne_finish hl
  · split at h
    · split at h <;> cases h
      simp
    · split at h
      · split at h <;> cases h
        simp
      · split at h
        · exact scanNumber_ne_finish h
        · split at h <;> cases h
          simp

theorem lexFrom_ne_finish (pos : Nat) (t : Text) :
    ∀ token ∈ (lexFrom pos t).tokens, token.lexeme ≠ .finish := by
  fun_induction lexFrom pos t with
  | case1 => simp
  | case2 pos c rest hblank ih => exact ih
  | case3 pos c rest hblank e hscan => simp
  | case4 pos c rest hblank l more hscan token lexing ih =>
    intro token' hmem
    rcases List.mem_cons.mp hmem with rfl | hmem
    · exact scan_ne_finish hscan
    · exact ih token' hmem

/-! ## Section 2: What a text begins with -/

/-- The text `t` begins with the lexemes `ls`, wherever it stands, and then `rest` is left. -/
def Cuts (t : Text) (ls : List Lexeme) (rest : Text) : Prop :=
  ∀ pos, ∃ tokens pos', tokens.map Token.lexeme = ls ∧
    lexFrom pos t =
      { tokens := tokens ++ (lexFrom pos' rest).tokens, error := (lexFrom pos' rest).error }

theorem Cuts.nil (t : Text) : Cuts t [] t := fun pos => ⟨[], pos, rfl, rfl⟩

theorem Cuts.append {t t' t'' : Text} {ls ls' : List Lexeme} (h : Cuts t ls t')
    (h' : Cuts t' ls' t'') : Cuts t (ls ++ ls') t'' := by
  intro pos
  obtain ⟨tokens, pos', htokens, hlex⟩ := h pos
  obtain ⟨tokens', pos'', htokens', hlex'⟩ := h' pos'
  refine ⟨tokens ++ tokens', pos'', by simp [htokens, htokens'], ?_⟩
  rw [hlex, hlex', List.append_assoc]

/-- A text that is lexemes through and through is cut into these. -/
theorem Cuts.lex_eq {t : Text} {ls : List Lexeme} (h : Cuts t ls []) :
    (lex t).error = none ∧ (lex t).tokens.map Token.lexeme = ls := by
  obtain ⟨tokens, pos', htokens, hlex⟩ := h 0
  have hend : lexFrom pos' [] = { tokens := [], error := none } := by rw [lexFrom]
  rw [lex, hlex, hend]
  exact ⟨rfl, by simpa using htokens⟩

theorem Cuts.blank {c : Char} (hc : Text.isBlank c = true) (t : Text) : Cuts (c :: t) [] t := by
  intro pos
  refine ⟨[], pos + 1, rfl, ?_⟩
  rw [lexFrom, if_pos hc]
  rfl

theorem Cuts.scan {c : Char} {t : Text} {l : Lexeme} {n : Nat} (hc : Text.isBlank c = false)
    (h : ∀ pos, Token.scan c t pos = .ok (l, n)) : Cuts (c :: t) [l] (t.drop n) := by
  intro pos
  refine ⟨[⟨l, c :: t.take n, pos, pos + 1 + n⟩], pos + 1 + n, rfl, ?_⟩
  rw [lexFrom, if_neg (by simp [hc]), h pos]
  rfl

/-- A space only separates. -/
theorem Cuts.space {t rest : Text} {ls : List Lexeme} (h : Cuts t ls rest) :
    Cuts (' ' :: t) ls rest :=
  (Cuts.blank rfl t).append h

/-! ## Section 3: Runs of characters, and words -/

/-- No character of the class comes first. -/
def EndsRun (p : Char → Bool) (r : Text) : Prop := ∀ c ∈ r.head?, p c = false

theorem EndsRun.of_cons {p : Char → Bool} {c : Char} (hc : p c = false) (r : Text) :
    EndsRun p (c :: r) := by
  rintro d ⟨⟩
  exact hc

theorem takeWhile_of_endsRun {p : Char → Bool} {x r : Text} (hx : x.all p = true)
    (hr : EndsRun p r) : (x ++ r).takeWhile p = x := by
  rw [List.takeWhile_append_of_pos (List.all_eq_true.mp hx)]
  cases r with
  | nil => simp
  | cons c r => simp [hr c rfl]

/-- What follows is no more of a word. -/
def EndsWord (rest : Text) : Prop := ∀ c ∈ rest.head?, Token.isWordChar c = false

theorem endsWord_nil : EndsWord [] := by simp [EndsWord]

/-- A word begins with `c`. -/
def beginsWord (c : Char) : Bool :=
  !Text.isBlank c && (Token.punctuation? c).isNone && !Token.beginsOperator c &&
    !Token.isQuote c && !(Text.isDigit c || c == '-') && (Text.isAlphanumeric c || c == '_')

/-- Is the text one word? -/
def isWholeWord : Text → Bool
  | [] => false
  | c :: w => beginsWord c && w.all Token.isWordChar

theorem Cuts.word {w rest : Text} (hw : isWholeWord w = true) (hrest : EndsWord rest) :
    Cuts (w ++ rest) [.word w] rest := by
  cases w with
  | nil => simp [isWholeWord] at hw
  | cons c w =>
    simp only [isWholeWord, beginsWord, Bool.and_eq_true, Bool.not_eq_true',
      Option.isNone_iff_eq_none] at hw
    obtain ⟨⟨⟨⟨⟨⟨hblank, hpunct⟩, hop⟩, hquote⟩, hdigit⟩, halnum⟩, hw⟩ := hw
    have hscan : ∀ pos, Token.scan c (w ++ rest) pos = .ok (.word (c :: w), w.length) := by
      intro pos
      simp [Token.scan, hpunct, hop, hquote, hdigit, halnum,
        takeWhile_of_endsRun hw hrest]
    have h := Cuts.scan hblank hscan
    rwa [List.drop_left] at h

/-! ## Section 4: Punctuation, symbols and strings -/

theorem Cuts.punctuation {c : Char} {l : Lexeme} (hblank : Text.isBlank c = false)
    (h : Token.punctuation? c = some l) (t : Text) : Cuts (c :: t) [l] t :=
  Cuts.scan (n := 0) hblank fun pos => by simp [Token.scan, h]

/-- Is the operator written as a symbol? -/
def Operator.isSymbol : Operator → Bool
  | .is | .isNot | .isIn | .notIn => false
  | _ => true

/-- A symbol ends before a space. -/
theorem Cuts.symbol {op : Operator} (h : op.isSymbol = true) (t : Text) :
    Cuts (op.symbol ++ ' ' :: t) [.op op] (' ' :: t) := by
  obtain ⟨c, cs, hsymbol, hblank, hscan⟩ : ∃ c cs, op.symbol = c :: cs ∧
      Text.isBlank c = false ∧
      ∀ pos, Token.scan c (cs ++ ' ' :: t) pos = .ok (.op op, cs.length) := by
    cases op <;> simp [Operator.isSymbol] at h <;>
      exact ⟨_, _, rfl, rfl, fun _ => rfl⟩
  have hcuts := Cuts.scan hblank hscan
  rw [List.drop_left] at hcuts
  rwa [hsymbol]

/-- Reading between quotes undoes writing between them. -/
theorem unquote?_renderText (t rest : Text) :
    Token.unquote? '\'' (t.flatMap (fun c => if c = '\\' ∨ c = '\'' then ['\\', c] else [c]) ++
        '\'' :: rest) =
      some (t, (t.flatMap (fun c => if c = '\\' ∨ c = '\'' then ['\\', c] else [c])).length
        + 1) := by
  induction t with
  | nil => simp [Token.unquote?]
  | cons c t ih =>
    by_cases hc : c = '\\' ∨ c = '\''
    · simp only [List.flatMap_cons, if_pos hc, List.cons_append, List.nil_append,
        Token.unquote?, ih, Option.map_some]
      simp
    · obtain ⟨hback, hquote⟩ := not_or.mp hc
      simp only [List.flatMap_cons, if_neg hc, List.cons_append, List.nil_append]
      rw [Token.unquote?]
      · simp [hquote, ih]
      · intro c' t' h
        exact absurd h hback

/-- A text between quotes is a string, whatever follows it. -/
theorem Cuts.string (t rest : Text) :
    Cuts (Literal.renderText t ++ rest) [.string t] rest := by
  have hscan : ∀ pos, Token.scan '\''
      (t.flatMap (fun c => if c = '\\' ∨ c = '\'' then ['\\', c] else [c]) ++ '\'' :: rest) pos =
        .ok (.string t,
          (t.flatMap (fun c => if c = '\\' ∨ c = '\'' then ['\\', c] else [c])).length + 1) := by
    intro pos
    have hpunct : Token.punctuation? '\'' = none := rfl
    have hop : Token.beginsOperator '\'' = false := rfl
    have hquote : Token.isQuote '\'' = true := rfl
    simp only [Token.scan, hpunct, hop, hquote, unquote?_renderText]
    rfl
  have h := Cuts.scan rfl hscan
  rw [← List.drop_drop, List.drop_left] at h
  simpa [Literal.renderText] using h

end Agenda.Filter
