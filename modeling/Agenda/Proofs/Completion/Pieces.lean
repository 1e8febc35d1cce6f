import Agenda.Filter.Completion
import Agenda.Proofs.Filter.Shapes

/-! # Pieces of written text

    What a text adds to the pieces in front of it, wherever it stands (`Adds`).  Words, symbols,
    strings and punctuation add one piece each, and texts one after another add theirs one after
    another (`Adds.append`).  A string adds one piece only if it holds no quotation mark of its
    own kind: the scan does not know backslashes. -/

namespace Agenda.Filter.Completion

/-! ## Section 1: One piece after another -/

section scanning
variable {before : List Piece} {pos n : Nat} {c : Char} {t : Text} {p : Option Piece}

theorem scanFrom_nil (before : List Piece) (pos : Nat) : scanFrom before pos [] = before := by
  rw [scanFrom]

theorem scanFrom_blank (hc : Text.isBlank c = true) :
    scanFrom before pos (c :: t) = scanFrom before (pos + 1) t := by
  rw [scanFrom, if_pos hc]

theorem scanFrom_piece (hc : Text.isBlank c = false) (h : pieceAt? c t pos = some (p, n)) :
    scanFrom before pos (c :: t) = scanFrom (p.toList ++ before) (pos + 1 + n) (t.drop n) := by
  rw [scanFrom, if_neg (by simp [hc]), h]

theorem scanFrom_open (hc : Text.isBlank c = false) (h : pieceAt? c t pos = none) :
    scanFrom before pos (c :: t) = before := by
  rw [scanFrom, if_neg (by simp [hc]), h]

end scanning

/-! ## Section 2: What a text adds -/

/-- The text goes on, with a character that belongs to no word. -/
def EndsIdent (t : Text) : Prop := ∃ c ∈ t.head?, isWordChar c = false

/-- The text leaves no quotation open and adds pieces with the property `P`, wherever it stands,
    unless more of a word follows. -/
structure Adds (t : Text) (P : List Piece → Prop) : Prop where
  closed : ∀ rest, quoteOpen none (t ++ rest) = quoteOpen none rest
  pieces : ∀ rest, EndsIdent rest → ∀ before pos, ∃ ps, P ps ∧
    scanFrom before pos (t ++ rest) = scanFrom (ps ++ before) (pos + t.length) rest

section adds
variable {P P' Q : List Piece → Prop} {t t' w : Text} {c : Char} {kind : PieceKind}

theorem Adds.mono (h : Adds t P) (hPQ : ∀ ps, P ps → Q ps) : Adds t Q := by
  refine ⟨h.closed, fun rest hrest before pos => ?_⟩
  obtain ⟨ps, hps, hscan⟩ := h.pieces rest hrest before pos
  exact ⟨ps, hPQ ps hps, hscan⟩

theorem Adds.nil : Adds [] (· = []) :=
  ⟨fun _ => rfl, fun _ _ _ _ => ⟨[], rfl, rfl⟩⟩

theorem EndsIdent.append (h : EndsIdent t) (rest : Text) : EndsIdent (t ++ rest) := by
  obtain ⟨c, hc, hword⟩ := h
  refine ⟨c, ?_, hword⟩
  cases t with
  | nil => cases hc
  | cons d t => exact hc

/-- Texts one after another, where the second begins with no more of a word. -/
theorem Adds.append (h : Adds t P) (h' : Adds t' P') (hends : EndsIdent t') :
    Adds (t ++ t') (fun ps => ∃ qs qs', P qs ∧ P' qs' ∧ ps = qs' ++ qs) := by
  refine ⟨fun rest => ?_, fun rest hrest before pos => ?_⟩
  · rw [List.append_assoc, h.closed, h'.closed]
  · obtain ⟨qs, hqs, hscan⟩ := h.pieces (t' ++ rest) (hends.append rest) before pos
    obtain ⟨qs', hqs', hscan'⟩ := h'.pieces rest hrest (qs ++ before) (pos + t.length)
    refine ⟨qs' ++ qs, ⟨qs, qs', hqs, hqs', rfl⟩, ?_⟩
    rw [List.append_assoc, hscan, hscan', List.append_assoc, List.length_append, Nat.add_assoc]

theorem Adds.blank (h : Adds t P) (hc : Text.isBlank c = true) (hquote : c ≠ '\'' ∧ c ≠ '"') :
    Adds (c :: t) P := by
  refine ⟨fun rest => ?_, fun rest hrest before pos => ?_⟩
  · rw [List.cons_append, quoteOpen, if_neg (by simp [hquote]), h.closed]
  · obtain ⟨ps, hps, hscan⟩ := h.pieces rest hrest before (pos + 1)
    refine ⟨ps, hps, ?_⟩
    rw [List.cons_append, scanFrom_blank hc, hscan, List.length_cons]
    congr 1
    omega

theorem Adds.space (h : Adds t P) : Adds (' ' :: t) P :=
  h.blank (by decide +kernel) (by decide)

/-- Texts with a blank between them. -/
theorem Adds.spaced (h : Adds t P) (h' : Adds t' P') :
    Adds (t ++ ' ' :: t') (fun ps => ∃ qs qs', P qs ∧ P' qs' ∧ ps = qs' ++ qs) :=
  h.append h'.space ⟨' ', rfl, by decide +kernel⟩

theorem punctuation?_classes {c : Char} {kind : PieceKind} (h : punctuation? c = some kind) :
    Text.isBlank c = false ∧ isWordChar c = false ∧ c ≠ '\'' ∧ c ≠ '"' := by
  have hmem : c ∈ "()[],".toList := by
    unfold punctuation? at h
    split at h <;> simp_all
  have hall : ("()[],".toList.all fun c =>
      !Text.isBlank c && !isWordChar c && c != '\'' && c != '"') = true := by
    decide +kernel
  simpa [and_assoc] using List.all_eq_true.mp hall c hmem

/-- Punctuation in front of a text. -/
theorem Adds.punctuation (h : Adds t P) (hc : punctuation? c = some kind) :
    Adds (c :: t) (fun ps => ∃ qs pos, P qs ∧ ps = qs ++ [⟨kind, [c], pos⟩]) := by
  obtain ⟨hblank, -, hquote⟩ := punctuation?_classes hc
  refine ⟨fun rest => ?_, fun rest hrest before pos => ?_⟩
  · rw [List.cons_append, quoteOpen, if_neg (by simp [hquote]), h.closed]
  · obtain ⟨qs, hqs, hscan⟩ := h.pieces rest hrest (⟨kind, [c], pos⟩ :: before) (pos + 1)
    refine ⟨qs ++ [⟨kind, [c], pos⟩], ⟨qs, pos, hqs, rfl⟩, ?_⟩
    have hpiece : pieceAt? c (t ++ rest) pos = some (some ⟨kind, [c], pos⟩, 0) := by
      simp [pieceAt?, hc]
    rw [List.cons_append, scanFrom_piece hblank hpiece, List.drop_zero]
    show scanFrom (⟨kind, [c], pos⟩ :: before) (pos + 1) (t ++ rest) = _
    rw [hscan, List.length_cons, List.append_assoc]
    congr 1
    omega

/-- A text with punctuation around it. -/
theorem Adds.enclosed {o : Char} {kind' : PieceKind} (h : Adds t P)
    (ho : punctuation? o = some kind) (hc : punctuation? c = some kind') :
    Adds (o :: t ++ [c]) (fun ps => ∃ qs pos pos', P qs ∧
      ps = ⟨kind', [c], pos'⟩ :: qs ++ [⟨kind, [o], pos⟩]) := by
  have hends : EndsIdent [c] := ⟨c, rfl, (punctuation?_classes hc).2.1⟩
  have hclose := Adds.nil.punctuation hc
  refine ((h.append hclose hends).punctuation ho).mono ?_
  rintro ps ⟨qs, pos, ⟨inner, last, hinner, ⟨empty, pos', rfl, rfl⟩, rfl⟩, rfl⟩
  exact ⟨inner, pos, pos', hinner, by simp⟩

/-! ## Section 3: Words, symbols and strings -/

/-- A word begins with `c`, and no quotation mark is in it. -/
def beginsIdent (c : Char) : Bool :=
  !Text.isBlank c && (punctuation? c).isNone && !"=!<>".toList.contains c &&
    !(Text.isDigit c || c == '-') && isWordChar c

/-- Is the text one word? -/
def isIdent : Text → Bool
  | [] => false
  | c :: w => beginsIdent c && w.all isWordChar

theorem not_isQuote_of_isWordChar (h : isWordChar c = true) : c ≠ '\'' ∧ c ≠ '"' := by
  constructor <;>
  · rintro rfl
    revert h
    decide +kernel

theorem quoteOpen_append_of_noQuote (h : ∀ c ∈ t, c ≠ '\'' ∧ c ≠ '"') (rest : Text) :
    quoteOpen none (t ++ rest) = quoteOpen none rest := by
  induction t with
  | nil => rfl
  | cons c t ih =>
    have hc := h c List.mem_cons_self
    rw [List.cons_append, quoteOpen, if_neg (by simp [hc]),
      ih fun d hd => h d (List.mem_cons_of_mem c hd)]

theorem Adds.ident (hw : isIdent w = true) : Adds w (fun ps => ∃ pos, ps = [⟨.ident, w, pos⟩]) := by
  cases w with
  | nil => cases hw
  | cons c w =>
    simp only [isIdent, beginsIdent, Bool.and_eq_true, Bool.not_eq_true',
      Option.isNone_iff_eq_none] at hw
    obtain ⟨⟨⟨⟨⟨hblank, hpunct⟩, hop⟩, hdigit⟩, hword⟩, hall⟩ := hw
    have hchars : ∀ d ∈ c :: w, isWordChar d = true :=
      List.forall_mem_cons.mpr ⟨hword, List.all_eq_true.mp hall⟩
    have hquote := not_isQuote_of_isWordChar hword
    refine ⟨quoteOpen_append_of_noQuote fun d hd => not_isQuote_of_isWordChar (hchars d hd), ?_⟩
    rintro rest ⟨d, hd, hends⟩ before pos
    refine ⟨[⟨.ident, c :: w, pos⟩], ⟨pos, rfl⟩, ?_⟩
    -- the word ends where the rest begins, and that is not the end of the text
    have htake : (w ++ rest).takeWhile isWordChar = w :=
      takeWhile_of_endsRun hall (by rintro e he; cases hd.symm.trans he; exact hends)
    have hne : w.length ≠ (w ++ rest).length := by
      cases rest with
      | nil => cases hd
      | cons e rest => simp
    have hpiece : pieceAt? c (w ++ rest) pos =
        some (some ⟨.ident, c :: w, pos⟩, w.length) := by
      simp only [pieceAt?, hpunct, hop, Bool.false_eq_true, if_false, hquote.1, hquote.2,
        or_self, hdigit, hword, if_true, htake, if_neg hne]
    rw [List.cons_append, scanFrom_piece hblank hpiece, List.drop_left]
    show scanFrom (⟨.ident, c :: w, pos⟩ :: before) (pos + 1 + w.length) rest = _
    rw [List.length_cons]
    congr 1
    omega

/-- The symbol of an operator holds no quotation mark. -/
theorem symbol_noQuote (op : Operator) : ∀ d ∈ op.symbol, d ≠ '\'' ∧ d ≠ '"' := by
  have hall : (op.symbol.all fun d => d != '\'' && d != '"') = true := by cases op <;> rfl
  simpa using hall

/-- A symbol in front of a blank. -/
theorem Adds.symbol {op : Operator} (hop : op.isSymbol = true) (h : Adds t P) :
    Adds (op.symbol ++ ' ' :: t)
      (fun ps => ∃ qs pos, P qs ∧ ps = qs ++ [⟨.op, op.symbol, pos⟩]) := by
  -- the blank behind the symbol keeps it from being read as a longer one
  obtain ⟨c, cs, hsymbol, hblank, hpiece⟩ : ∃ c cs, op.symbol = c :: cs ∧
      Text.isBlank c = false ∧
      ∀ (rest : Text) (pos : Nat), pieceAt? c (cs ++ ' ' :: rest) pos =
        some (some ⟨.op, c :: cs, pos⟩, cs.length) := by
    cases op <;> simp [Operator.isSymbol] at hop <;>
      exact ⟨_, _, rfl, by decide, fun _ _ => rfl⟩
  have hspace := h.space
  refine ⟨fun rest => ?_, fun rest hrest before pos => ?_⟩
  · rw [List.append_assoc, quoteOpen_append_of_noQuote (symbol_noQuote op)]
    exact hspace.closed rest
  · obtain ⟨qs, hqs, hscan⟩ := hspace.pieces rest hrest (⟨.op, op.symbol, pos⟩ :: before)
      (pos + op.symbol.length)
    refine ⟨qs ++ [⟨.op, op.symbol, pos⟩], ⟨qs, pos, hqs, rfl⟩, ?_⟩
    rw [hsymbol] at hscan ⊢
    rw [List.append_assoc, List.cons_append, List.cons_append,
      scanFrom_piece hblank (hpiece (t ++ rest) pos), List.drop_left]
    have hlength : pos + 1 + cs.length = pos + (c :: cs).length := by
      rw [List.length_cons]
      omega
    rw [hlength]
    show scanFrom (⟨.op, c :: cs, pos⟩ :: before) _ (' ' :: t ++ rest) = _
    rw [hscan, List.append_assoc, List.length_append, Nat.add_assoc]
    rfl

/-- Does the text hold no single quotation mark? -/
def plain (t : Text) : Bool := t.all (· ≠ '\'')

/-- What stands between the quotation marks of a written text. -/
def escaped (t : Text) : Text := t.flatMap fun c => if c = '\\' ∨ c = '\'' then ['\\', c] else [c]

theorem notMem_escaped (ht : plain t = true) : '\'' ∉ escaped t := by
  unfold escaped
  rw [List.mem_flatMap]
  rintro ⟨c, hc, hin⟩
  have hne : c ≠ '\'' := by simpa using List.all_eq_true.mp ht c hc
  split_ifs at hin
  · rcases List.mem_cons.mp hin with h | h
    · cases h
    · exact hne (List.mem_singleton.mp h).symm
  · exact hne (List.mem_singleton.mp hin).symm

theorem quoteOpen_some_append {q : Char} (h : q ∉ t) (rest : Text) :
    quoteOpen (some q) (t ++ q :: rest) = quoteOpen none rest := by
  induction t with
  | nil => simp [quoteOpen]
  | cons c t ih =>
    have hc : c ≠ q := fun heq => h (heq ▸ List.mem_cons_self)
    rw [List.cons_append, quoteOpen, if_neg hc, ih fun hin => h (List.mem_cons_of_mem c hin)]

/-- A written text is one string, if it holds no quotation mark. -/
theorem Adds.string (ht : plain t = true) :
    Adds (Literal.renderText t) (fun ps => ∃ pos, ps = [⟨.string, escaped t, pos⟩]) := by
  -- no quotation mark stands inside, so the string ends at its own
  have hno := notMem_escaped ht
  have htext : ∀ rest, Literal.renderText t ++ rest = '\'' :: (escaped t ++ '\'' :: rest) := by
    intro rest
    simp [Literal.renderText, escaped]
  refine ⟨fun rest => ?_, fun rest _ before pos => ⟨[⟨.string, escaped t, pos⟩], ⟨pos, rfl⟩, ?_⟩⟩
  · rw [htext, quoteOpen, if_pos (Or.inl rfl), quoteOpen_some_append hno]
  · have hall : ∀ c ∈ escaped t, decide (c ≠ '\'') = true := by
      intro c hc
      rw [decide_eq_true_eq]
      rintro rfl
      exact hno hc
    have hbody : (escaped t ++ '\'' :: rest).takeWhile (· ≠ '\'') = escaped t := by
      rw [List.takeWhile_append_of_pos hall]
      simp
    have hpiece : pieceAt? '\'' (escaped t ++ '\'' :: rest) pos =
        some (some ⟨.string, escaped t, pos⟩, (escaped t).length + 1) := by
      have hpunct : punctuation? '\'' = none := rfl
      have hop : "=!<>".toList.contains '\'' = false := rfl
      simp only [pieceAt?, hpunct, hop, Bool.false_eq_true, if_false, true_or, if_true, hbody]
      rw [if_pos (by simp)]
    rw [htext, scanFrom_piece (by decide +kernel) hpiece, ← List.drop_drop, List.drop_left]
    have hlength : (Literal.renderText t).length = (escaped t).length + 2 := by
      simp [Literal.renderText, escaped]
    show scanFrom (⟨.string, escaped t, pos⟩ :: before) _ rest = _
    rw [hlength]
    congr 1
    omega

end adds

end Agenda.Filter.Completion
