import Agenda.Proofs.Filter.Respelling
import Agenda.Proofs.Filter.Steps

/-! # Beginnings of queries

    A text is the beginning of a query if it can go on so that it is read (`Viable`).  What the
    reader can do depends on the state in which it is behind the tokens: some tokens may be
    accepted from there (`Alive`), and tokens that can be written may bring it to rest
    (`Completes`).  Every state that reading comes to is legal (`legal_of_reached`), and most of
    them can be completed whatever was read before. -/

namespace Agenda.Filter

open Reader

/-- The text can go on so that it is read as a query. -/
def Viable (t : Text) : Prop := ∃ u q, Query.read (t ++ u) = .ok q

namespace Reader

/-! ## Section 1: What every state that is reached satisfies -/

/-- What can be cut from a text: no end, and no operator that is written in words. -/
def Cut : Lexeme → Prop
  | .finish => False
  | .op op => op.isSymbol = true
  | _ => True

theorem operator?_isSymbol {c : Char} {next : Option Char} {op : Operator}
    (h : Token.operator? c next = some op) : op.isSymbol = true := by
  unfold Token.operator? at h
  split at h
  all_goals first
    | contradiction
    | obtain rfl := Option.some.inj h
      rfl

theorem cut_of_shape {c : Char} {x r : Text} {l : Lexeme} (h : Shape c x l r) : Cut l := by
  cases h with
  | punctuation r hc =>
    have hend := punctuation?_ne_finish hc
    unfold Token.punctuation? at hc
    split at hc <;> simp_all <;> obtain rfl := hc <;> exact trivial
  | symbol hc ho hx => exact operator?_isSymbol ho
  | _ => exact trivial

theorem lexFrom_cut (pos : Nat) (t : Text) :
    ∀ token ∈ (lexFrom pos t).tokens, Cut token.lexeme := by
  induction pos, t using lexFrom_induction with
  | done pos => simp [lexFrom_nil]
  | blank pos c rest hblank ih => rwa [lexFrom_blank hblank]
  | stuck pos c rest e hblank hscan => simp [lexFrom_error hblank hscan]
  | token pos c x r l hblank hshape ih =>
    rw [lexFrom_shape hblank hshape]
    exact List.forall_mem_cons.mpr ⟨cut_of_shape hshape, ih⟩

/-- What is known of the field and the operator of a condition that is being read. -/
def Mode.Legal : Mode → Prop
  | .value f op => f.accepts op = true ∧ op ≠ .is
  | .list f op _ _ _ _ => f.accepts op = true
  | _ => True

/-- What holds of every state that reading comes to. -/
structure State.Legal (s : State) : Prop where
  room    : s.frames.length ≤ maxNesting
  settled : s.mode = .connective → Settled s.frames
  mode    : s.mode.Legal

section legal
variable {s s' : State} {l : Lexeme} {f : Field} {op : Operator}

theorem addOperand_frames (e : Expr) (frames : List Frame) (group : Group) :
    Settled (addOperand e frames group).1 ∧
      (addOperand e frames group).1.length ≤ frames.length := by
  fun_induction addOperand e frames group with
  | case1 e frames group ih => exact ⟨ih.1, Nat.le_succ_of_le ih.2⟩
  | case2 e frames group hframes =>
    refine ⟨?_, Nat.le_refl _⟩
    match frames with
    | [] => exact trivial
    | .group _ :: _ => exact trivial
    | .negation :: rest => exact absurd rfl (hframes rest)

theorem legal_withOperand (h : s.frames.length ≤ maxNesting) (e : Expr) :
    (s.withOperand e).Legal := by
  obtain ⟨hsettled, hle⟩ := addOperand_frames e s.frames s.group
  exact ⟨Nat.le_trans hle h, fun _ => hsettled, trivial⟩

theorem Mode.Awaits.accepts (h : s.mode.Awaits f op) (hs : s.Legal) : f.accepts op = true := by
  have hmode := hs.mode
  rcases h with h | ⟨start, stop, -, rfl, hf⟩
  · rw [h] at hmode
    exact hmode.1
  · exact hf

theorem legal_of_takes (hs : s.Legal) (hl : Cut l) (h : Takes s l s') : s'.Legal := by
  have hroom := hs.room
  have hmode := hs.mode
  cases h with
  | negation k htakes hlt => exact ⟨hlt, nofun, trivial⟩
  | group htakes hlt => exact ⟨hlt, nofun, trivial⟩
  | groupEnd hconnective hframes =>
    rw [hframes, List.length_cons] at hroom
    exact legal_withOperand (Nat.le_of_succ_le hroom) _
  | value hawaits hv hfits => exact legal_withOperand hroom _
  | listEnd hlist hfits => exact legal_withOperand hroom _
  | symbol op hoperator hf =>
    refine ⟨hroom, nofun, hf, ?_⟩
    -- a lone `is` is cut as a word, never as an operator
    rintro rfl
    cases hl
  | isNot k hafter hf => exact ⟨hroom, nofun, hf, nofun⟩
  | isIn k hoperator hf => exact ⟨hroom, nofun, hf, nofun⟩
  | notIn k hafter hf => exact ⟨hroom, nofun, hf, nofun⟩
  | list hawaits start => exact ⟨hroom, nofun, hawaits.accepts hs⟩
  | item hlist hplace hv | innerList hlist hplace | innerListEnd hlist | comma hlist =>
    rw [hlist] at hmode
    exact ⟨hroom, nofun, hmode⟩
  | _ => exact ⟨hroom, nofun, trivial⟩

/-- Every state that reading comes to is legal. -/
theorem legal_of_reached {t : Text} {front rest : List Token}
    (ht : (lex t).tokens = front ++ rest) (h : front.foldlM step {} = .ok s) : s.Legal := by
  have hmem : ∀ token ∈ front, token ∈ (lexFrom 0 t).tokens := by
    intro token hmem
    show token ∈ (lex t).tokens
    exact ht ▸ List.mem_append_left rest hmem
  refine reached_of_steps (motive := fun s _ => s.Legal) ⟨Nat.zero_le _, nofun, trivial⟩
    ?_ (fun token htoken => lexFrom_ne_finish 0 t token (hmem token htoken)) h
  intro s s' front' token htoken hs htakes
  exact legal_of_takes hs (lexFrom_cut 0 t token (hmem token htoken)) htakes

end legal

/-! ## Section 2: States that can be completed -/

/-- Some tokens are accepted from here. -/
def Alive (s : State) : Prop := ∃ ts q, Accepts s ts q

/-- Tokens that can be written bring the reader to rest. -/
def Completes (s : State) : Prop := ∃ t ls s', Spells t ls ∧ Reads s ls s' ∧ AtRest s'

/-- A text that every field can be compared with. -/
def sample (f : Field) : Text :=
  match f.kind with
  | .status => "OPEN".toList
  | .day | .moment => "2024-01-01".toList
  | _ => "x".toList

section completing
variable {s s' : State} {ls : List Lexeme} {t : Text} {f : Field} {op : Operator}

theorem Completes.of_atRest (h : AtRest s) : Completes s := ⟨[], [], s, Spells.nil, Reads.nil s, h⟩

/-- What comes behind these tokens can be completed. -/
def CompletesAfter (s : State) (ls : List Lexeme) : Prop :=
  ∃ t ls' s', Spells t ls' ∧ Reads s (ls ++ ls') s' ∧ AtRest s'

theorem Completes.after (h : Completes s') (hreads : Reads s ls s') : CompletesAfter s ls := by
  obtain ⟨t, ls', s'', ht, hreads', hrest⟩ := h
  exact ⟨t, ls', s'', ht, hreads.append hreads', hrest⟩

theorem Completes.of_reads (ht : Spells t ls) (hreads : Reads s ls s') (h : Completes s') :
    Completes s := by
  obtain ⟨t', ls', s'', ht', hreads', hrest⟩ := h
  exact ⟨t ++ ' ' :: t', ls ++ ls', s'', ht.space ht', hreads.append hreads', hrest⟩

theorem Completes.alive (h : Completes s) : Alive s := by
  obtain ⟨t, ls, s', -, hreads, hrest⟩ := h
  let tokens : List Token := ls.map fun l => ⟨l, [], 0, 0⟩
  have htokens : tokens.map Token.lexeme = ls := by simp [tokens, Function.comp_def]
  exact ⟨tokens, s'.query, s', s', 0, hreads _ htokens, hrest _ rfl, rfl⟩

/-- Behind an operand the open groups can be closed one after another. -/
theorem completes_withOperand (s : State) (e : Expr) : Completes (s.withOperand e) := by
  -- a group that is closed is an operand of the group around it
  induction hn : s.frames.length using Nat.strong_induction_on generalizing s e with
  | _ n ih =>
    subst hn
    match hframes : s.frames with
    | [] =>
      refine .of_atRest (atRest_of_connective rfl ?_)
      simp [State.withOperand, hframes, addOperand]
    | .negation :: frames =>
      -- a negation hands its opposite on
      have heq : s.withOperand e = ({ s with frames := frames } : State).withOperand (.not e) := by
        simp [State.withOperand, hframes, addOperand]
      rw [heq]
      exact ih frames.length (by simp [hframes]) _ _ rfl
    | .group outer :: frames =>
      have hsettled : Settled s.frames := by rw [hframes]; exact trivial
      obtain ⟨e', he'⟩ : ∃ e', (s.group.addFactor e).result = some e' := by
        rw [addFactor_eq]
        exact ⟨_, result_eq _ _⟩
      have hparen : Spells [')'] [.closeParen] := fun rest _ => Cuts.punctuation rfl rfl rest
      rw [withOperand_of_settled hsettled]
      refine .of_reads hparen (.single fun t ht => ?_) (ih frames.length (by simp [hframes])
        { s with frames := frames, group := outer } e' rfl)
      exact step_closeParen (s := { s with group := s.group.addFactor e, mode := .connective })
        rfl hframes he' ht

theorem checkItem_sample (f : Field) : checkItem f (.text (sample f)) = none := by
  cases f <;> decide +kernel

theorem checkValue_of_item {v : Literal} (hop : op ≠ .is ∧ op ≠ .isNot) (hnull : isNull v = false)
    (hlist : v.isList = false) (hv : checkItem f v = none) : checkValue f op v = none := by
  have hitems : v.items = [v] := by
    cases v <;> first | rfl | cases hlist
  simp [checkValue, hop, hnull, hlist, hitems, hv]

theorem spells_sample (f : Field) :
    Spells (Literal.renderText (sample f)) [.string (sample f)] := Spells.string _

theorem completes_value (hs : s.mode = .value f op) (hop : op ≠ .is) : Completes s := by
  by_cases hnot : op = .isNot
  · -- only null is not null
    subst hnot
    have hnull : Spells smallNull.word [smallNull.lexeme] := smallNull.spells_word (by decide)
    let null : ValueTree := .atom smallNull.lexeme .null (.null smallNull.spells)
    exact .of_reads hnull (null.reads hs rfl) (completes_withOperand _ _)
  · let value : ValueTree := .atom (.string (sample f)) (.text (sample f)) (.string _)
    exact .of_reads (spells_sample f)
      (value.reads hs (checkValue_of_item ⟨hop, hnot⟩ rfl rfl (checkItem_sample f)))
      (completes_withOperand _ _)

theorem completes_operator (hs : s.mode = .operator f) : Completes s := by
  have hsymbol : Operator.eq.isSymbol = true := rfl
  have heq : Spells "= ".toList [.op .eq] := Spells.symbol hsymbol Spells.nil
  refine .of_reads heq ((OperatorTree.symbol .eq).reads_lexemes hs rfl nofun) ?_
  exact completes_value rfl nofun

theorem completesAfter_not (hs : s.mode = .operator f) (hf : f.accepts .notIn = true)
    (k : Keyword "not") : CompletesAfter s [k.lexeme] := by
  have hin : Spells capitalIn.word [capitalIn.lexeme] := capitalIn.spells_word (by decide)
  have hreads := (OperatorTree.notIn k capitalIn).reads_lexemes hs hf nofun
  have hvalue : Completes { s with mode := .value f .notIn } := completes_value rfl nofun
  obtain ⟨t, ls, s', ht, hreads', hrest⟩ := hvalue
  exact ⟨capitalIn.word ++ ' ' :: t, capitalIn.lexeme :: ls, s', hin.space ht,
    hreads.append hreads', hrest⟩

theorem completes_operand (hs : s.mode = .operand) : Completes s := by
  have hname := Field.spells_name .title
  refine .of_reads hname (.single fun t ht => step_name hs ht) (completes_operator rfl)

theorem completes_orderField (hs : s.mode = .orderField) : Completes s := by
  have hname := Field.spells_name .title
  let next : State := { s with mode := .orderDirection .title, orderBy := some { field := .title } }
  have hnext : Completes next := .of_atRest (atRest_of_mode (Or.inr (Or.inr ⟨.title, rfl⟩)))
  refine .of_reads hname (.single fun t ht => ?_) hnext
  simp only [step, hs, readOrderField, readField_of_name ht]
  rfl

/-- Only the status refuses items, where lists are accepted at all. -/
theorem checkItem_of_accepts (hf : f.accepts .isIn = true) (hstatus : f ≠ .status) (v : Literal) :
    checkItem f v = none := by
  cases f with
  | status => exact absurd rfl hstatus
  | title | body | project | tags => rfl
  | _ => cases hf

/-- The list can be closed: the operator takes lists, and no item is refused. -/
def ListFits (f : Field) (op : Operator) (items : List Literal) (outer : List (List Literal)) :
    Prop :=
  (op = .isIn ∨ op = .notIn) ∧
    (f = .status → outer = [] ∧ ∀ v ∈ items, checkItem f v = none)

theorem checkItem_list (items : List Literal) : checkItem .status (.list items) ≠ none := nofun

theorem completes_list {start : Nat} {outer : List (List Literal)} (hf : f.accepts op = true) :
    ∀ {s : State} {items : List Literal},
      s.mode = .list f op start items outer .separator → ListFits f op items outer →
        Completes s := by
  have hbracket : Spells [']'] [.closeBracket] := fun rest _ => Cuts.punctuation rfl rfl rest
  -- on the lists that are open around this one; each takes one closing bracket
  induction outer with
  | nil =>
    intro s items hs hfits
    have hvalue : checkValue f op (.list items) = none := by
      have hitems : ∀ v ∈ items, checkItem f v = none := by
        intro v hv
        by_cases hstatus : f = .status
        · exact (hfits.2 hstatus).2 v hv
        · have hisIn : f.accepts .isIn = true := by
            rcases hfits.1 with rfl | rfl <;> exact hf
          exact checkItem_of_accepts hisIn hstatus v
      have hfind : items.findSome? (checkItem f) = none := by
        simpa [List.findSome?_eq_none_iff] using hitems
      rcases hfits.1 with rfl | rfl <;> simp [checkValue, isNull, Literal.items, hfind]
    refine .of_reads hbracket (.single fun t ht => ?_)
      (completes_withOperand s (.cond ⟨f, op, .list items⟩))
    rw [step_list_closeBracket hs (by simp) ht]
    exact withValue_of_fits hvalue _ _
  | cons around outer ih =>
    intro s items hs hfits
    refine .of_reads hbracket (.single fun t ht => ?_) (ih (s := { s with
      mode := .list f op start (around ++ [.list items]) outer .separator }) rfl ⟨hfits.1, ?_⟩)
    · rw [step_list_closeBracket hs (by simp) ht]
      rfl
    · intro hstatus
      exact absurd (hfits.2 hstatus).1 (List.cons_ne_nil around outer)

theorem takes_list_cases {start : Nat} {items : List Literal} {outer : List (List Literal)}
    {place : ListPlace} {l : Lexeme} (hs : s.mode = .list f op start items outer place)
    (h : Takes s l s') :
    (∃ v, Atom l v ∧ s' = { s with mode := .list f op start (items ++ [v]) outer .separator }) ∨
    (l = .openBracket ∧ s' = { s with mode := .list f op start [] (items :: outer) .first }) ∨
    (∃ around outer', outer = around :: outer' ∧ l = .closeBracket ∧
      s' = { s with mode := .list f op start (around ++ [.list items]) outer' .separator }) ∨
    (outer = [] ∧ l = .closeBracket ∧ checkValue f op (.list items) = none ∧
      s' = s.withOperand (.cond ⟨f, op, .list items⟩)) ∨
    (l = .comma ∧ s' = { s with mode := .list f op start items outer .item }) := by
  cases h <;> simp_all [Mode.takesOperand, Mode.Awaits]

/-- What the outermost list holds so far. -/
def outermost (items : List Literal) : List (List Literal) → List Literal
  | [] => items
  | around :: outer => outermost around outer

/-- Where some tokens are accepted in a list, it is closed at some time: it holds what it held
    and, if a list in it was open, that one, and the value that it is fits. -/
theorem exists_fits_of_accepts {start : Nat} {q : Query} (ts : List Token) : ∀ {s : State}
    {items : List Literal} {outer : List (List Literal)} {place : ListPlace},
    s.mode = .list f op start items outer place → Accepts s ts q →
      ∃ more, checkValue f op (.list (outermost items outer ++ more)) = none ∧
        (outer ≠ [] → ∃ inner rest, more = .list inner :: rest) := by
  induction ts with
  | nil =>
    intro s items outer place hs h
    obtain ⟨s₁, n, hstep, -⟩ := h.nil
    -- the end of the text is nothing in a list
    rcases takes_list_cases hs (takes_of_list hs hstep) with
      ⟨v, hv, -⟩ | ⟨h, -⟩ | ⟨around, outer', -, h, -⟩ | ⟨-, h, -⟩ | ⟨h, -⟩
    · cases hv
    all_goals cases h
  | cons token ts ih =>
    intro s items outer place hs h
    obtain ⟨s₁, hstep, hrest⟩ := h.cons
    rcases takes_list_cases hs (takes_of_list hs hstep) with
      ⟨v, -, rfl⟩ | ⟨-, rfl⟩ | ⟨around, outer, rfl, -, rfl⟩ | ⟨rfl, -, hfits, -⟩ | ⟨-, rfl⟩
    · obtain ⟨more, hfits, hinner⟩ := ih rfl hrest
      cases outer with
      | nil =>
        refine ⟨v :: more, ?_, fun hne => absurd rfl hne⟩
        rwa [outermost, List.append_assoc] at hfits
      | cons around outer => exact ⟨more, hfits, hinner⟩
    · obtain ⟨more, hfits, hinner⟩ := ih rfl hrest
      exact ⟨more, hfits, fun _ => hinner nofun⟩
    · obtain ⟨more, hfits, hinner⟩ := ih rfl hrest
      cases outer with
      | nil =>
        refine ⟨.list items :: more, ?_, fun _ => ⟨items, more, rfl⟩⟩
        rwa [outermost, List.append_assoc] at hfits
      | cons around' outer => exact ⟨more, hfits, fun _ => hinner nofun⟩
    · exact ⟨[], by rwa [outermost, List.append_nil], fun hne => absurd rfl hne⟩
    · exact ih rfl hrest

/-- Only a list that fits can go on to be accepted. -/
theorem listFits_of_alive {start : Nat} {items : List Literal} {outer : List (List Literal)}
    {place : ListPlace} (hs : s.mode = .list f op start items outer place) (h : Alive s) :
    ListFits f op items outer := by
  obtain ⟨ts, q, haccepts⟩ := h
  obtain ⟨more, hfits, hinner⟩ := exists_fits_of_accepts ts hs haccepts
  simp only [checkValue, isNull, Literal.isList, Literal.items, Bool.false_eq_true, if_false,
    true_and] at hfits
  split_ifs at hfits with his hlist
  have hop : op = .isIn ∨ op = .notIn := by
    rw [not_and_or, not_not, not_not] at hlist
    exact hlist
  refine ⟨hop, ?_⟩
  rintro rfl
  have hitems : ∀ v ∈ outermost items outer ++ more, checkItem .status v = none := by
    rwa [List.findSome?_eq_none_iff] at hfits
  cases outer with
  | nil => exact ⟨rfl, fun v hv => hitems v (List.mem_append_left _ hv)⟩
  | cons around outer =>
    obtain ⟨inner, rest, rfl⟩ := hinner (List.cons_ne_nil around outer)
    exact absurd (hitems (.list inner) (by simp)) (checkItem_list inner)

/-- Some token can be taken: the first of those that are accepted, or the end. -/
theorem Alive.exists_step (h : Alive s) : ∃ token s', step s token = .ok s' := by
  obtain ⟨ts, q, haccepts⟩ := h
  cases ts with
  | nil =>
    obtain ⟨s', n, hstep, -⟩ := haccepts.nil
    exact ⟨_, s', hstep⟩
  | cons token ts =>
    obtain ⟨s', hstep, -⟩ := haccepts.cons
    exact ⟨token, s', hstep⟩

/-- Behind a field and `NOT` something is accepted only if the field takes `NOT IN`. -/
theorem accepts_of_alive {start : Nat} (hs : s.mode = .afterNot f start) (h : Alive s) :
    f.accepts .notIn = true := by
  obtain ⟨token, s', hstep⟩ := h.exists_step
  obtain ⟨-, -, hf, -⟩ := step_afterNot_cases hs hstep
  exact hf

end completing

end Reader

end Agenda.Filter
