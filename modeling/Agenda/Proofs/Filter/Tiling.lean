import Agenda.Filter.Reader
import Agenda.Proofs.Filter.Shapes

/-! # Tokens tile their text

    The tokens that are cut from a text stand one after another in it, each with the text of its
    span, and what they leave out is blank (`Tiles`).  They reach to the end of the text, where
    one more token stands for the end, or to the error that cuts them short
    (`lex_tiles`). -/

namespace Agenda.Filter

/-! ## Section 1: Tilings -/

/-- Does the span of the token hold the place `i`? -/
def Token.covers (i : Nat) (token : Token) : Bool := token.start ≤ i && i < token.stop

/-- The tokens stand in the text one after another from `pos` to `stop`, each with the text of
    its span, and what they leave out is blank. -/
inductive Tiles (t : Text) : Nat → List Token → Nat → Prop where
  | done (pos : Nat) : Tiles t pos [] pos
  | blank {pos stop : Nat} {c : Char} {tokens : List Token} (hc : t[pos]? = some c)
      (hblank : Text.isBlank c = true) (h : Tiles t (pos + 1) tokens stop) :
      Tiles t pos tokens stop
  | token {token : Token} {tokens : List Token} {stop : Nat} (hlt : token.start < token.stop)
      (hle : token.stop ≤ t.length) (htext : token.text = t.extract token.start token.stop)
      (h : Tiles t token.stop tokens stop) : Tiles t token.start (token :: tokens) stop

section tiles
variable {t : Text} {pos stop : Nat} {tokens : List Token}

theorem Tiles.le (h : Tiles t pos tokens stop) : pos ≤ stop := by
  induction h with
  | done pos => exact Nat.le_refl pos
  | blank hc hblank h ih => omega
  | token hlt hle htext h ih => omega

/-- Every token lies between the ends of the tiling and has the text of its span. -/
theorem Tiles.of_mem (h : Tiles t pos tokens stop) : ∀ token ∈ tokens, pos ≤ token.start ∧
    token.start < token.stop ∧ token.stop ≤ stop ∧
    token.text = t.extract token.start token.stop := by
  induction h with
  | done pos => simp
  | blank hc hblank h ih =>
    intro token hmem
    obtain ⟨hpos, hrest⟩ := ih token hmem
    exact ⟨by omega, hrest⟩
  | token hlt hle htext h ih =>
    intro token' hmem
    rcases List.mem_cons.mp hmem with rfl | hmem
    · exact ⟨Nat.le_refl _, hlt, h.le, htext⟩
    · obtain ⟨hpos, hrest⟩ := ih token' hmem
      exact ⟨by omega, hrest⟩

theorem Tiles.pairwise (h : Tiles t pos tokens stop) :
    tokens.Pairwise fun a b => a.start < b.start ∧ a.stop ≤ b.start := by
  induction h with
  | done pos => exact .nil
  | blank hc hblank h ih => exact ih
  | token hlt hle htext h ih =>
    refine .cons ?_ ih
    intro token' hmem
    have hpos := (h.of_mem token' hmem).1
    exact ⟨by omega, hpos⟩

theorem Tiles.countP_eq_zero (h : Tiles t pos tokens stop) {i : Nat} (hi : i < pos) :
    tokens.countP (·.covers i) = 0 := by
  rw [List.countP_eq_zero]
  intro token hmem
  have hpos := (h.of_mem token hmem).1
  simp only [Token.covers, Bool.and_eq_true, decide_eq_true_eq]
  omega

/-- Every place lies in one token only, or in none and is blank. -/
theorem Tiles.countP (h : Tiles t pos tokens stop) {i : Nat} (hpos : pos ≤ i) (hi : i < stop) :
    tokens.countP (·.covers i) = 1 ∨
    tokens.countP (·.covers i) = 0 ∧ ∃ c, t[i]? = some c ∧ Text.isBlank c = true := by
  induction h with
  | done pos => omega
  | @blank pos stop c tokens hc hblank h ih =>
    rcases Nat.eq_or_lt_of_le hpos with rfl | hlt
    · exact Or.inr ⟨h.countP_eq_zero (Nat.lt_succ_self pos), c, hc, hblank⟩
    · exact ih hlt hi
  | @token token tokens stop hlt hle htext h ih =>
    by_cases hin : i < token.stop
    · left
      have hcovers : token.covers i = true := by simp [Token.covers, hpos, hin]
      rw [List.countP_cons_of_pos hcovers, h.countP_eq_zero hin]
    · have hcovers : ¬token.covers i = true := by simp [Token.covers, hin]
      rw [List.countP_cons_of_neg hcovers]
      exact ih (Nat.le_of_not_lt hin) hi

/-- Each token takes a character of its own. -/
theorem Tiles.length_le (h : Tiles t pos tokens stop) : tokens.length ≤ stop - pos := by
  induction h with
  | done pos => simp
  | blank hc hblank h ih => omega
  | token hlt hle htext h ih =>
    have hstop := h.le
    rw [List.length_cons]
    omega

end tiles

/-! ## Section 2: What is cut tiles the text -/

/-- Where the tokens of a text of length `n` end: at its end, or where an error stands. -/
def Lexing.frontier (l : Lexing) (n : Nat) : Nat := l.error.elim n QueryError.start

/-- The tokens of a text of length `n` up to its end, which is a token as well unless an error
    cuts the text short. -/
def Lexing.upToEnd (l : Lexing) (n : Nat) : List Token :=
  l.tokens ++ if l.error.isNone then [Token.atEnd n] else []

/-- Cutting the rest of a text tiles it. -/
theorem lexFrom_tiles (pos : Nat) (rest : Text) : ∀ front : Text, front.length = pos →
    Tiles (front ++ rest) pos (lexFrom pos rest).tokens
      ((lexFrom pos rest).frontier (front ++ rest).length) := by
  induction pos, rest using lexFrom_induction with
  | done pos =>
    rintro front rfl
    rw [lexFrom_nil, List.append_nil]
    exact .done front.length
  | blank pos c rest hblank ih =>
    rintro front rfl
    have h := ih (front ++ [c]) (by simp)
    rw [List.append_assoc, List.singleton_append] at h
    rw [lexFrom_blank hblank]
    exact .blank (by simp) hblank h
  | stuck pos c rest e hblank hscan =>
    rintro front rfl
    obtain ⟨hstart, -⟩ := scan_error_spec hscan
    simp only [lexFrom_error hblank hscan, Lexing.frontier, Option.elim_some, hstart]
    exact .done front.length
  | token pos c x r l hblank hshape ih =>
    rintro front rfl
    -- what is left is cut behind the token
    have h := ih (front ++ c :: x) (by rw [List.length_append, List.length_cons]; omega)
    rw [List.append_assoc, List.cons_append] at h
    rw [lexFrom_shape hblank hshape]
    refine @Tiles.token _ ⟨l, c :: x, front.length, front.length + 1 + x.length⟩ _ _ ?_ ?_ ?_ h
    · dsimp only
      omega
    · simp only [List.length_append, List.length_cons]
      omega
    · have hspan : front.length + 1 + x.length - front.length = (c :: x).length := by
        rw [List.length_cons]
        omega
      simp only [List.extract_eq_take_drop, List.drop_left, hspan]
      rw [← List.cons_append, List.take_left]

/-- An error stands in the text. -/
theorem lexFrom_error_span (pos : Nat) (t : Text) : ∀ e ∈ (lexFrom pos t).error,
    pos ≤ e.start ∧ e.start < e.stop ∧ e.stop ≤ pos + t.length := by
  -- the error is that of the last scan; all scans before it only move its place
  induction pos, t using lexFrom_induction with
  | done pos => simp [lexFrom_nil]
  | blank pos c rest hblank ih =>
    intro e he
    rw [lexFrom_blank hblank] at he
    have h := ih e he
    rw [List.length_cons]
    omega
  | stuck pos c rest e hblank hscan =>
    rw [lexFrom_error hblank hscan]
    rintro e' ⟨⟩
    obtain ⟨hstart, hlt, hle, -⟩ := scan_error_spec hscan
    rw [List.length_cons]
    omega
  | token pos c x r l hblank hshape ih =>
    intro e he
    rw [lexFrom_shape hblank hshape] at he
    have h := ih e he
    simp only [List.length_cons, List.length_append]
    omega

/-- Where tokens end there is a place of the text. -/
theorem frontier_le (pos : Nat) (t : Text) :
    (lexFrom pos t).frontier (pos + t.length) ≤ pos + t.length := by
  cases herror : (lexFrom pos t).error with
  | none => simp [Lexing.frontier, herror]
  | some e =>
    have hspan := lexFrom_error_span pos t e herror
    simp only [Lexing.frontier, herror, Option.elim_some]
    omega

/-- A token stands in the text that it is cut from. -/
theorem lexFrom_token_span (pos : Nat) (t : Text) : ∀ token ∈ (lexFrom pos t).tokens,
    pos ≤ token.start ∧ token.start < token.stop ∧ token.stop ≤ pos + t.length := by
  intro token hmem
  -- the text stands behind blanks, so that its first place is `pos`
  have htiles := lexFrom_tiles pos t (List.replicate pos ' ') List.length_replicate
  obtain ⟨hstart, hlt, hstop, -⟩ := htiles.of_mem token hmem
  rw [List.length_append, List.length_replicate] at hstop
  exact ⟨hstart, hlt, Nat.le_trans hstop (frontier_le pos t)⟩

/-! ## Section 3: The whole text -/

/-- The reader takes the tokens of a text up to its end. -/
theorem Query.read_eq_foldlM (t : Text) :
    Query.read t = do
      let s ← ((lex t).upToEnd t.length).foldlM Reader.step {}
      match (lex t).error with
      | some e => .error e
      | none => return s.query := by
  unfold Query.read Reader.run Lexing.upToEnd
  rw [List.foldlM_append, bind_assoc]
  congr 1
  funext s
  cases (lex t).error with
  | none => simp
  | some e => rfl

theorem lex_tiling (t : Text) : Tiles t 0 (lex t).tokens ((lex t).frontier t.length) :=
  lexFrom_tiles 0 t [] rfl

/-- **Tokens tile the text.**  They stand one after another without overlap, each with the text
    of its span, and every place up to where they end lies in one of them only, or in none and
    is blank.  Without an error they end with the text, and one token for the end is the last;
    an error has a span in the text, and only blanks stand between it and the last token.
    There are no more tokens than characters. -/
theorem lex_tiles (t : Text) :
    ((lex t).upToEnd t.length).Pairwise (fun a b => a.start < b.start ∧ a.stop ≤ b.start) ∧
    (∀ token ∈ (lex t).upToEnd t.length, token.text = t.extract token.start token.stop) ∧
    (∀ token ∈ (lex t).tokens, token.start < token.stop ∧
      token.stop ≤ (lex t).frontier t.length ∧ token.lexeme ≠ .finish) ∧
    (∀ i < (lex t).frontier t.length, (lex t).tokens.countP (·.covers i) = 1 ∨
      (lex t).tokens.countP (·.covers i) = 0 ∧ ∃ c, t[i]? = some c ∧ Text.isBlank c = true) ∧
    ((lex t).error = none → (lex t).frontier t.length = t.length ∧
      (lex t).upToEnd t.length = (lex t).tokens ++ [Token.atEnd t.length]) ∧
    (∀ e, (lex t).error = some e → (lex t).frontier t.length = e.start ∧
      (lex t).upToEnd t.length = (lex t).tokens ∧ e.start < e.stop ∧ e.stop ≤ t.length) ∧
    (lex t).tokens.length ≤ t.length := by
  have htiles := lex_tiling t
  have hstop : (lex t).frontier t.length ≤ t.length := by
    have hle := frontier_le 0 t
    rwa [Nat.zero_add] at hle
  refine ⟨?_, ?_, ?_, ?_, ?_, ?_, ?_⟩
  · -- the token for the end comes behind all others
    refine List.pairwise_append.mpr ⟨htiles.pairwise, by split_ifs <;> simp, ?_⟩
    intro a ha b hb
    obtain ⟨-, hlt, hle, -⟩ := htiles.of_mem a ha
    split_ifs at hb
    · obtain rfl := List.mem_singleton.mp hb
      exact ⟨by simp only [Token.atEnd]; omega, Nat.le_trans hle hstop⟩
    · cases hb
  · -- and has no text
    intro token hmem
    rcases List.mem_append.mp hmem with hmem | hmem
    · exact (htiles.of_mem token hmem).2.2.2
    · split_ifs at hmem
      · obtain rfl := List.mem_singleton.mp hmem
        simp [Token.atEnd]
      · cases hmem
  · intro token hmem
    obtain ⟨-, hlt, hle, -⟩ := htiles.of_mem token hmem
    exact ⟨hlt, hle, lexFrom_ne_finish 0 t token hmem⟩
  · exact fun i hi => htiles.countP (Nat.zero_le i) hi
  · intro herror
    simp [Lexing.frontier, Lexing.upToEnd, herror]
  · intro e herror
    have hspan := lexFrom_error_span 0 t e herror
    rw [Nat.zero_add] at hspan
    exact ⟨by simp [Lexing.frontier, herror], by simp [Lexing.upToEnd, herror], hspan.2⟩
  · have hlength := htiles.length_le
    omega

end Agenda.Filter
