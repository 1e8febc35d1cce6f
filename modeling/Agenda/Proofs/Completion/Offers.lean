import Mathlib.Data.List.Infix
import Agenda.Proofs.Completion.InStep

/-! # What completion offers

    What is offered depends on the pieces in front of the word under the cursor, and those are
    the pieces of the text in front of it (`scan_of_partial`).  Where the value of a field is
    due, or one more item of its list, values of that field are offered (`offers_of_due`,
    `offers_of_item`). -/

namespace Agenda.Filter.Completion

/-! ## Section 1: The pieces in front of the word -/

section cutting
variable {c : Char} {x u w t : Text} {pos : Nat} {p : Option Piece} {last : Piece}
  {prior : List Piece}

theorem takeWhile_of_length {q : Char → Bool} {r : Text}
    (h : ((x ++ r).takeWhile q).length = x.length) : (x ++ r).takeWhile q = x ∧ EndsRun q r := by
  obtain ⟨y, r', heq, hy, hr', htake, -⟩ := exists_run q (x ++ r)
  rw [htake] at h ⊢
  obtain ⟨rfl, rfl⟩ := List.append_inj heq h.symm
  exact ⟨rfl, hr'⟩

theorem EndsRun.of_append {q : Char → Bool} (h : EndsRun q (u ++ w)) : EndsRun q u := by
  intro d hd
  refine h d ?_
  cases u with
  | nil => cases hd
  | cons e u => exact hd

/-- A piece that ends in front of a word is the same without the word. -/
theorem pieceAt?_of_append (h : pieceAt? c (x ++ (u ++ w)) pos = some (p, x.length))
    (hw : ∃ d ∈ w.head?, isWordChar d = true) : pieceAt? c (x ++ u) pos = some (p, x.length) := by
  obtain ⟨d, hd, hword⟩ := hw
  unfold pieceAt? at h ⊢
  split at h
  · exact h
  · split_ifs at h ⊢ with hop hquote hnumber hident
    · -- the second character of an operator is in `x`, or there is none
      obtain ⟨rfl, hlength⟩ := Prod.mk.inj (Option.some.inj h)
      have hsame : ((x ++ u).take 1).takeWhile "=~".toList.contains =
          ((x ++ (u ++ w)).take 1).takeWhile "=~".toList.contains := by
        match x, u with
        | [], [] => exact (List.eq_nil_of_length_eq_zero hlength).symm
        | [], _ :: _ => rfl
        | _ :: _, _ => rfl
      dsimp only
      rw [hsame, hlength]
    · dsimp only at h ⊢
      split_ifs at h with hclosed
      obtain ⟨rfl, hlength⟩ := Prod.mk.inj (Option.some.inj h)
      -- the closing mark is the last character of `x`
      obtain ⟨body, r, heq, hbody, hr, htake, -⟩ :=
        exists_run (fun d => decide (d ≠ c)) (x ++ (u ++ w))
      rw [htake] at hlength ⊢
      obtain ⟨e, rfl, rfl⟩ : ∃ e, x = body ++ [e] ∧ r = e :: (u ++ w) := by
        rcases List.append_eq_append_iff.mp heq with ⟨y, rfl, -⟩ | ⟨y, rfl, rfl⟩
        · rw [List.length_append] at hlength
          omega
        · rw [List.length_append, Nat.add_left_cancel_iff, eq_comm, List.length_eq_one_iff]
            at hlength
          obtain ⟨e, rfl⟩ := hlength
          exact ⟨e, rfl, rfl⟩
      have htake' : (body ++ [e] ++ u).takeWhile (fun d => decide (d ≠ c)) = body := by
        rw [List.append_assoc]
        exact takeWhile_of_endsRun hbody (EndsRun.of_cons (hr e rfl) u)
      rw [htake', if_pos (by simp), hlength]
    · obtain ⟨rfl, hlength⟩ := Prod.mk.inj (Option.some.inj h)
      obtain ⟨htake, hends⟩ := takeWhile_of_length hlength
      have hall : x.all isNumberChar = true := by rw [← htake]; exact List.all_takeWhile
      dsimp only
      rw [htake, takeWhile_of_endsRun hall (EndsRun.of_append hends)]
    · obtain ⟨hpiece, hlength⟩ := Prod.mk.inj (Option.some.inj h)
      obtain ⟨htake, hends⟩ := takeWhile_of_length hlength
      have hall : x.all isWordChar = true := by rw [← htake]; exact List.all_takeWhile
      dsimp only at hpiece ⊢
      rw [htake] at hpiece
      rw [takeWhile_of_endsRun hall (EndsRun.of_append hends)]
      -- something stands between the two words, so neither piece reaches to the end
      have hu : u ≠ [] := by
        rintro rfl
        rw [List.nil_append] at hends
        rw [hends d hd] at hword
        cases hword
      have hlt : 0 < u.length := List.length_pos_iff.mpr hu
      rw [if_neg (by simp only [List.length_append]; omega)] at hpiece ⊢
      rw [hpiece]
    · exact h

theorem pieceAt?_partial {t : Text} {n : Nat} (h : pieceAt? c t pos = some (some last, n))
    (hkind : last.kind = .partialIdent) :
    last.text = c :: t ∧ last.start = pos ∧ isWordChar c = true := by
  unfold pieceAt? at h
  split at h
  · next kind hpunct =>
    obtain ⟨hlast, -⟩ := Prod.mk.inj (Option.some.inj h)
    obtain rfl := Option.some.inj hlast
    obtain rfl : kind = .partialIdent := hkind
    unfold punctuation? at hpunct
    split at hpunct <;> cases hpunct
  · split_ifs at h with hop hquote hnumber hident
    · obtain ⟨hlast, -⟩ := Prod.mk.inj (Option.some.inj h)
      obtain rfl := Option.some.inj hlast
      cases hkind
    · dsimp only at h
      split_ifs at h
      obtain ⟨hlast, -⟩ := Prod.mk.inj (Option.some.inj h)
      obtain rfl := Option.some.inj hlast
      cases hkind
    · obtain ⟨hlast, -⟩ := Prod.mk.inj (Option.some.inj h)
      obtain rfl := Option.some.inj hlast
      cases hkind
    · obtain ⟨hlast, -⟩ := Prod.mk.inj (Option.some.inj h)
      obtain rfl := Option.some.inj hlast
      dsimp only at hkind ⊢
      -- a word is cut short by the end of the text alone
      split_ifs at hkind with hlength
      have hall : t.takeWhile isWordChar = t := by
        have hprefix := List.takeWhile_prefix isWordChar (l := t)
        exact hprefix.eq_of_length hlength
      exact ⟨by rw [hall], rfl, hident⟩
    · cases h

/-- The word that ends at the end of a text is cut off, and the pieces in front of it are those
    of what is left. -/
theorem scanFrom_of_partial (pos : Nat) (t : Text) : ∀ {last : Piece} {prior : List Piece},
    scanFrom [] pos t = last :: prior → last.kind = .partialIdent →
    ∃ u, t = u ++ last.text ∧ last.start = pos + u.length ∧ scanFrom [] pos u = prior ∧
      ∃ d ∈ last.text.head?, isWordChar d = true := by
  induction hn : t.length using Nat.strong_induction_on generalizing pos t with
  | _ n ih =>
    subst hn
    intro last prior hscan hkind
    cases t with
    | nil =>
      rw [scanFrom_nil] at hscan
      cases hscan
    | cons c rest =>
      cases hblank : Text.isBlank c with
      | true =>
        rw [scanFrom_blank hblank] at hscan
        obtain ⟨u, rfl, hstart, hprior, hhead⟩ := ih _ (Nat.lt_succ_self _) _ _ rfl hscan hkind
        refine ⟨c :: u, rfl, ?_, by rw [scanFrom_blank hblank, hprior], hhead⟩
        rw [hstart, List.length_cons]
        omega
      | false =>
        cases hpiece : pieceAt? c rest pos with
        | none =>
          rw [scanFrom_open hblank hpiece] at hscan
          cases hscan
        | some found =>
          obtain ⟨piece, n⟩ := found
          rw [scanFrom_piece hblank hpiece, List.append_nil, scanFrom_eq_append] at hscan
          cases hinner : scanFrom [] (pos + 1 + n) (rest.drop n) with
          | nil =>
            -- this piece is the word itself
            rw [hinner, List.nil_append] at hscan
            cases piece with
            | none => cases hscan
            | some p =>
              obtain ⟨rfl, rfl⟩ := List.cons.inj hscan
              obtain ⟨htext, hstart, hc⟩ := pieceAt?_partial hpiece hkind
              exact ⟨[], by rw [htext]; rfl, hstart, scanFrom_nil _ _, c, by rw [htext]; rfl, hc⟩
          | cons last' prior' =>
            rw [hinner, List.cons_append] at hscan
            obtain ⟨rfl, rfl⟩ := List.cons.inj hscan
            have hlt : (rest.drop n).length < (c :: rest).length := by
              rw [List.length_drop, List.length_cons]
              omega
            obtain ⟨u, hrest, hstart, hprior, hhead⟩ := ih _ hlt _ _ rfl hinner hkind
            have hn : n < rest.length := by
              by_contra hge
              rw [List.drop_eq_nil_of_le (by omega)] at hrest
              obtain ⟨d, hd, -⟩ := hhead
              rw [(List.append_eq_nil_iff.mp hrest.symm).2] at hd
              cases hd
            obtain ⟨x, rfl, rfl⟩ : ∃ x, rest = x ++ (u ++ last'.text) ∧ n = x.length := by
              refine ⟨rest.take n, ?_, ?_⟩
              · rw [← hrest, List.take_append_drop]
              · rw [List.length_take]
                omega
            refine ⟨c :: (x ++ u), ?_, ?_, ?_, hhead⟩
            · rw [List.cons_append, List.append_assoc]
            · rw [hstart, List.length_cons, List.length_append]
              omega
            · rw [scanFrom_piece hblank (pieceAt?_of_append hpiece hhead), List.drop_left,
                List.append_nil, scanFrom_eq_append, hprior]

end cutting

/-! ## Section 2: What is completed -/

/-- What is completed behind these pieces: nothing, the name of a field where there are none, or
    what the pieces ask for, with a word typed already or between words. -/
inductive Asks (ps : List Piece) : CompletionContext → Prop where
  | nothing {context : CompletionContext} (h : context.kind = .nothing) : Asks ps context
  | first (h : ps = []) (start : Nat) : Asks ps ⟨.fieldName, [], start⟩
  | word (word : Piece) : Asks ps (wordContext word ps)
  | gap (before : Text) (h : ps ≠ []) (cursor : Nat) : Asks ps (gapContext before ps cursor)

/-- **The context depends on the pieces in front of the word under the cursor.** -/
theorem asks_context (t : Text) (cursor : Option Int) :
    Asks (scan (t.take (context t cursor).start)) (context t cursor) := by
  unfold context
  dsimp only
  split_ifs with hquote
  · exact .nothing rfl
  · split
    · next hscan => exact .first hscan _
    · next last prior hscan =>
      split_ifs with hkind
      · -- the word under the cursor is cut off
        obtain ⟨u, htake, hstart, hprior, -⟩ := scanFrom_of_partial 0 _ hscan hkind
        have hlength : u.length ≤ clampCursor t cursor := by
          have hle := congrArg List.length htake
          rw [List.length_append, List.length_take] at hle
          omega
        have hfront : t.take (wordContext last prior).start = u := by
          have hmin : u.length = min u.length (clampCursor t cursor) := by omega
          show t.take last.start = u
          rw [hstart, Nat.zero_add, hmin, ← List.take_take, htake, List.take_left]
        rw [hfront, scan, hprior]
        exact .word last
      · have hstart : (gapContext (t.take (clampCursor t cursor)) (last :: prior)
            (clampCursor t cursor)).start = clampCursor t cursor := rfl
        rw [hstart, hscan]
        exact .gap _ (List.cons_ne_nil last prior) _

/-- A value of the field that is offered: the word of a status, or the name of a tag or of a
    project as a string. -/
def IsValueOf (f : Field) (v : Text) : Prop :=
  (f = .status ∧ v ∈ Status.offered) ∨
    ((f = .tags ∨ f = .project) ∧ ∃ name, v = Literal.renderText name)

/-- What is offered of a list of names is one of them that goes on from the word, whatever the
    case of either. -/
theorem mem_offer {names : List Text} {value : Text → Text} {word : Text} {start : Nat}
    {s : Suggestion} (h : s ∈ (startingWith names word).map fun name =>
      { label := name, value := value name, start := start }) :
    ∃ name ∈ names, s = ⟨name, value name, start⟩ ∧ Text.lower word <+: Text.lower name := by
  obtain ⟨name, hname, rfl⟩ := List.mem_map.mp h
  obtain ⟨hname, hbegins⟩ := List.mem_filter.mp hname
  exact ⟨name, hname, rfl, List.isPrefixOf_iff_prefix.mp hbegins⟩

/-- What is offered, by what is completed. -/
theorem mem_suggestFor {c : CompletionContext} {tags projects : List Text} {s : Suggestion}
    (h : s ∈ suggestFor c tags projects) : s.start = c.start ∧
    Text.lower c.partialWord <+: Text.lower s.label ∧
    ((c.kind = .fieldName ∧ ∃ f : Field, s.label = f.name ∧ s.value = f.name) ∨
      (c.kind = .keyword ∧ s.value ∈ keywords) ∨
      ∃ f, (c.kind = .fieldValue f ∨ c.kind = .arrayValue f) ∧ IsValueOf f s.value) := by
  have hvalues : ∀ f : Field, s ∈ suggestFor { c with kind := .fieldValue f } tags projects →
      s.start = c.start ∧ Text.lower c.partialWord <+: Text.lower s.label ∧
        IsValueOf f s.value := by
    intro f hmem
    unfold suggestFor at hmem
    dsimp only at hmem
    split at hmem
    · obtain ⟨name, hname, rfl, hbegins⟩ := mem_offer hmem
      exact ⟨rfl, hbegins, Or.inl ⟨rfl, hname⟩⟩
    · obtain ⟨name, -, rfl, hbegins⟩ := mem_offer hmem
      exact ⟨rfl, hbegins, Or.inr ⟨Or.inl rfl, name, rfl⟩⟩
    · obtain ⟨name, -, rfl, hbegins⟩ := mem_offer hmem
      exact ⟨rfl, hbegins, Or.inr ⟨Or.inr rfl, name, rfl⟩⟩
    · cases hmem
  obtain ⟨kind, word, start⟩ := c
  cases kind with
  | fieldName =>
    obtain ⟨name, hname, rfl, hbegins⟩ := mem_offer h
    obtain ⟨f, -, rfl⟩ := List.mem_map.mp hname
    exact ⟨rfl, hbegins, Or.inl ⟨rfl, f, rfl, rfl⟩⟩
  | keyword =>
    obtain ⟨name, hname, rfl, hbegins⟩ := mem_offer h
    exact ⟨rfl, hbegins, Or.inr (Or.inl ⟨rfl, hname⟩)⟩
  | fieldValue f =>
    obtain ⟨hstart, hbegins, hvalue⟩ := hvalues f h
    exact ⟨hstart, hbegins, Or.inr (Or.inr ⟨f, Or.inl rfl, hvalue⟩)⟩
  | arrayValue f =>
    -- the items of a list are offered like a value on its own
    obtain ⟨hstart, hbegins, hvalue⟩ := hvalues f h
    exact ⟨hstart, hbegins, Or.inr (Or.inr ⟨f, Or.inr rfl, hvalue⟩)⟩
  | nothing => cases h

/-! ## Section 3: What is offered where -/

section offered
variable {ps : List Piece} {c : CompletionContext} {f : Field} {op : Operator} {p : Piece}
  {tags projects : List Text} {s : Suggestion}

/-- No name of a field begins like a word of an operator. -/
theorem names_apart (f : Field) : ∀ w ∈ f.name.inits, Text.upper w ∉ operatorWords := by
  cases f <;> decide +kernel

theorem lower_name (f : Field) : Text.lower f.name = f.name := by
  cases f <;> decide +kernel

theorem upper_notMem_of_offered {word : Text} (h : Text.lower word <+: Text.lower f.name) :
    Text.upper word ∉ operatorWords := by
  rw [lower_name] at h
  have hname := List.all_eq_true.mp (plain_names f f.name List.mem_cons_self).1
  have hplain : Text.hasPlainLetters (Text.lower word) = true :=
    List.all_eq_true.mpr fun d hd => hname d (h.subset hd)
  rw [Text.upper_of_lower rfl hplain]
  exact names_apart f _ ((List.mem_inits _ _).mpr h)

/-- An operator ends in a symbol, in `IS` or in `IN`, but for `IS NOT`. -/
theorem Due.head (h : Due f op ps) (hop : op ≠ .isNot) :
    ∃ p rest, ps = p :: rest ∧ (p.kind = .op ∨ ∃ w ∈ ["IS".toList, "IN".toList], p.Says w) := by
  cases h with
  | symbol hsymbol hp h => exact ⟨_, _, rfl, Or.inl hp⟩
  | is hp h => exact ⟨_, _, rfl, Or.inr ⟨_, by simp, hp⟩⟩
  | isIn hp h => exact ⟨_, _, rfl, Or.inr ⟨_, by simp, hp⟩⟩
  | isNot hp hq h => exact absurd rfl hop
  | notIn hp hq h => exact ⟨_, _, rfl, Or.inr ⟨_, by simp, hp⟩⟩

/-- No condition ends in what is neither a value nor a bracket. -/
theorem afterCondition_of_pending (hparen : p.isParen = false) (hclose : p.kind ≠ .closeBracket)
    (hvalue : isValue p = false) (rest : List Piece) : afterCondition (p :: rest) = false := by
  unfold afterCondition
  rw [meaningful_cons hparen]
  dsimp only
  rw [if_neg hclose]
  split
  · rw [hvalue]
    rfl
  · rfl

/-- Behind an operator no operand begins, and neither a condition nor an order ends there. -/
theorem Due.pending (h : Due f op ps) (hop : op ≠ .isNot) : atFieldPosition ps = false ∧
    afterCondition ps = false ∧ endsInOrder (Completion.meaningful ps) = false := by
  obtain ⟨p, rest, rfl, hp⟩ := h.head hop
  -- a symbol or a word: neither is a bracket or a value
  obtain ⟨hparen, hclose, hword, hvalue⟩ : p.isParen = false ∧ p.kind ≠ .closeBracket ∧
      (∀ ws, (∀ w ∈ ["IS".toList, "IN".toList], w ∉ ws) → p.isWord ws = false) ∧
      isValue p = false := by
    rcases hp with hp | ⟨w, hw, hp⟩
    · refine ⟨by simp [Piece.isParen, hp], by simp [hp], fun ws _ => ?_, by simp [isValue, hp]⟩
      exact isWord_of_kind (by simp [hp]) ws
    · have hreserved : w ∈ reserved := by
        have hsub : ["IS".toList, "IN".toList] ⊆ reserved := by decide
        exact hsub hw
      refine ⟨?_, ?_, fun ws hws => ?_, ?_⟩
      · rcases kind_of_isIdent hp.1 with h | h <;> simp [Piece.isParen, h]
      · rcases kind_of_isIdent hp.1 with h | h <;> simp [h]
      · rw [hp.isWord, Bool.eq_false_iff, ne_eq, List.contains_iff_mem]
        exact hws w hw
      · rw [isValue, hp.isWord, List.contains_iff_mem.mpr hreserved, Bool.not_true,
          Bool.and_false]
  refine ⟨?_, ?_, ?_⟩
  · have hkind : (p.kind == .openParen) = false := by
      simp only [Piece.isParen, Bool.or_eq_false_iff] at hparen
      exact hparen.1
    rw [atFieldPosition, hkind, hword _ (by decide)]
    rfl
  · exact afterCondition_of_pending hparen hclose hvalue rest
  · rw [meaningful_cons hparen, endsInOrder, hword _ (by decide), hword _ (by decide)]
    rfl

/-- **Where the value of a field is due**, only values of the field are offered. -/
theorem offers_of_due (h : Due f op ps) (hop : op ≠ .isNot) (hc : Asks ps c)
    (hs : s ∈ suggestFor c tags projects) : IsValueOf f s.value := by
  have hlist : arrayField? ps = none := by
    unfold arrayField?
    rw [h.closed]
    rfl
  have hfield := h.meaningful.field
  obtain ⟨hposition, hcondition, horder⟩ := h.pending hop
  -- a word that begins an operator is taken for a name of a field, and no name begins so
  have hkind : c.kind = .fieldValue f ∨ c.kind = .nothing ∨
      c.kind = .fieldName ∧ Text.upper c.partialWord ∈ operatorWords := by
    cases hc with
    | nothing hnothing => exact Or.inr (Or.inl hnothing)
    | first hps start =>
      subst hps
      obtain ⟨p, rest, hps, -⟩ := h.head hop
      cases hps
    | word word =>
      simp only [wordContext, horder, hlist, hfield, wordContext.other, hposition, hcondition,
        Bool.false_eq_true, if_false]
      split_ifs with hword
      · exact Or.inr (Or.inr ⟨rfl, List.contains_iff_mem.mp hword⟩)
      · exact Or.inl rfl
    | gap before hps cursor =>
      simp only [gapContext, hlist, hfield, hcondition, Bool.false_eq_true, if_false]
      cases ps with
      | nil => exact absurd rfl hps
      | cons last prior => dsimp only; split_ifs <;> simp
  obtain ⟨-, hbegins, ⟨hname, f', hlabel, -⟩ | ⟨hkeyword, -⟩ | ⟨f', hvalues, hvalue⟩⟩ :=
    mem_suggestFor hs
  · rcases hkind with hkind | hkind | ⟨-, hword⟩
    · rw [hkind] at hname
      cases hname
    · rw [hkind] at hname
      cases hname
    · rw [hlabel] at hbegins
      exact absurd hword (upper_notMem_of_offered hbegins)
  · rcases hkind with hkind | hkind | ⟨hkind, -⟩ <;> rw [hkind] at hkeyword <;> cases hkeyword
  · rcases hkind with hkind | hkind | ⟨hkind, -⟩ <;> rw [hkind] at hvalues <;> simp at hvalues
    exact hvalues ▸ hvalue

/-- **Where an item of a list is due**, values of the field are offered, if completion finds one
    in front of the list, and names of fields if not. -/
theorem offers_of_item (hp : p.kind = .openBracket ∨ p.kind = .comma) (hc : Asks (p :: ps) c)
    (hs : s ∈ suggestFor c tags projects) :
    (∃ f, arrayField? (p :: ps) = some f ∧ IsValueOf f s.value) ∨
      arrayField? (p :: ps) = none ∧ ∃ f : Field, s.value = f.name := by
  -- a bracket or a comma ends no operator, no condition and no order
  obtain ⟨hop, hclose, hident, hparen, hnotParen, hvalue⟩ : p.kind ≠ .op ∧
      p.kind ≠ .closeBracket ∧ (p.kind ≠ .ident ∧ p.kind ≠ .partialIdent) ∧
      p.isParen = false ∧ (p.kind == .openParen) = false ∧ isValue p = false := by
    rcases hp with hp | hp <;> simp [Piece.isParen, isValue, hp]
  have hword := isWord_of_kind hident
  have horder : endsInOrder (meaningful (p :: ps)) = false := by
    rw [meaningful_cons hparen, endsInOrder, hword, hword]
    rfl
  have hfield : fieldBeforeOperator? (meaningful (p :: ps)) = none := by
    rw [meaningful_cons hparen]
    exact fieldBeforeOperator?_eq_none hop (hword _) _
  have hposition : atFieldPosition (p :: ps) = false := by
    rw [atFieldPosition, hnotParen, hword]
    rfl
  have hcondition := afterCondition_of_pending hparen hclose hvalue ps
  have hnone : ¬(p.kind = .string ∨ p.kind = .number ∨ p.kind = .ident ∨
      p.kind = .closeBracket) := by
    rcases hp with hp | hp <;> simp [hp]
  -- so all depends on whether there is a field in front of the list
  have hkind : c.kind = .nothing ∨
      (∃ f, arrayField? (p :: ps) = some f ∧ c.kind = .arrayValue f) ∨
        arrayField? (p :: ps) = none ∧ c.kind = .fieldName := by
    cases hlist : arrayField? (p :: ps) with
    | none =>
      cases hc with
      | nothing hnothing => exact Or.inl hnothing
      | first hps start => cases hps
      | word word =>
        simp [wordContext, horder, hlist, hfield, wordContext.other, hposition, hcondition]
      | gap before hps cursor =>
        simp only [gapContext, hlist, hfield, hcondition, if_neg hnone, if_neg hop,
          Bool.false_eq_true, if_false]
        split_ifs <;> simp
    | some f =>
      cases hc with
      | nothing hnothing => exact Or.inl hnothing
      | first hps start => cases hps
      | word word => simp [wordContext, horder, hlist]
      | gap before hps cursor =>
        simp only [gapContext, hlist, if_neg hnone, if_neg hop]
        split_ifs <;> simp
  obtain ⟨-, -, hoffered⟩ := mem_suggestFor hs
  rcases hkind with hkind | ⟨f, hlist, hkind⟩ | ⟨hlist, hkind⟩ <;>
    rcases hoffered with ⟨hname, f', -, hvalue⟩ | ⟨hkeyword, -⟩ | ⟨f', hvalues, hvalue⟩ <;>
    simp only [hkind, reduceCtorEq, or_self, false_or, CompletionKind.arrayValue.injEq] at *
  · exact Or.inl ⟨f, hlist, hvalues ▸ hvalue⟩
  · exact Or.inr ⟨hlist, f', hvalue⟩

end offered

end Agenda.Filter.Completion
