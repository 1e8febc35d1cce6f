import Agenda.Proofs.Text.Words

/-! # Evened-out blanks

    The words of a text with one blank between any two can be read off in one pass over its
    characters (`tidy_eq_join`): a blank is held back until the next word.  Runs without blanks
    stay as they are, and a text that is tidy stays so (`tidy_tidy`).  What stands in front of a
    character of a tidy text (`front`) depends only on what stands in front of it in the text
    before (`tidy_append_cons`). -/

namespace Agenda.Text

/-! ## Section 1: One pass -/

/-- The blank that goes in front of the next word: one, if there was a word before and a blank
    since. -/
def lead (started gap : Bool) : Text := if started && gap then [' '] else []

/-- Even out the blanks of a text.  `started` says that there was a word before, `gap` that
    there was a blank since. -/
def tidy (started gap : Bool) : Text → Text
  | [] => []
  | c :: t => if isBlank c then tidy started true t else lead started gap ++ c :: tidy true false t

section tidy
variable {started gap : Bool} {c : Char} {w t : Text} {ws : List Text}

@[simp] theorem tidy_nil : tidy started gap [] = [] := rfl

theorem tidy_blank (h : isBlank c = true) : tidy started gap (c :: t) = tidy started true t :=
  if_pos h

theorem tidy_char (h : isBlank c = false) :
    tidy started gap (c :: t) = lead started gap ++ c :: tidy true false t := by
  rw [tidy, h]
  rfl

theorem isBlank_space : isBlank ' ' = true := by decide +kernel

/-- Before the first word no blank is kept. -/
theorem tidy_false_gap (gap : Bool) (t : Text) : tidy false gap t = tidy false false t := by
  induction t generalizing gap with
  | nil => rfl
  | cons c t ih =>
    cases hc : isBlank c with
    | true => rw [tidy_blank hc, tidy_blank hc]
    | false => rw [tidy_char hc, tidy_char hc]; rfl

/-- A word stays as it is. -/
theorem tidy_word (hne : w ≠ []) (hw : ∀ c ∈ w, isBlank c = false) (t : Text) :
    tidy started gap (w ++ t) = lead started gap ++ w ++ tidy true false t := by
  induction w generalizing started gap with
  | nil => exact absurd rfl hne
  | cons c w ih =>
    rw [List.cons_append, tidy_char (hw c List.mem_cons_self)]
    cases w with
    | nil => simp
    | cons d w =>
      rw [ih (List.cons_ne_nil d w) fun x hx => hw x (List.mem_cons_of_mem c hx)]
      simp [lead]

theorem join_cons (w : Text) (hws : ws ≠ []) :
    join [' '] (w :: ws) = w ++ ' ' :: join [' '] ws := by
  cases ws with
  | nil => exact absurd rfl hws
  | cons v ws => simp [join]

theorem HasWords.tidy (h : HasWords t ws) : Text.tidy false false t = join [' '] ws ∧
    Text.tidy true true t = if ws = [] then [] else ' ' :: join [' '] ws := by
  induction h with
  | nil => exact ⟨rfl, rfl⟩
  | blank hc _ ih =>
    obtain ⟨hfirst, hlater⟩ := ih
    rw [tidy_blank hc, tidy_blank hc, tidy_false_gap]
    exact ⟨hfirst, hlater⟩
  | @word w t ws hne hw hend _ ih =>
    obtain ⟨-, hlater⟩ := ih
    rw [tidy_word hne hw, tidy_word hne hw, if_neg (List.cons_ne_nil w ws)]
    -- the word is over, so a blank comes next, if anything
    have hnext : Text.tidy true false t = Text.tidy true true t := by
      cases t with
      | nil => rfl
      | cons c t => rw [tidy_blank (hend c rfl), tidy_blank (hend c rfl)]
    rw [hnext, hlater]
    by_cases hws : ws = []
    · simp [hws, join, lead]
    · simp [hws, join_cons w hws, lead]

/-- **One pass gives the words** of a text with one blank between any two. -/
theorem tidy_eq_join (t : Text) : tidy false false t = join [' '] (words t) :=
  (hasWords_words t).tidy.1

/-- **What is tidy stays so.** -/
theorem tidy_tidy (started gap : Bool) (t : Text) :
    tidy started false (tidy started gap t) = tidy started gap t := by
  induction t generalizing started gap with
  | nil => rfl
  | cons c t ih =>
    cases hc : isBlank c with
    | true => rw [tidy_blank hc, ih]
    | false =>
      rw [tidy_char hc]
      cases hlead : started && gap with
      | false =>
        have hnone : lead started gap = [] := by simp [lead, hlead]
        rw [hnone, List.nil_append, tidy_char hc, ih]
        simp [lead]
      | true =>
        obtain ⟨rfl, rfl⟩ : started = true ∧ gap = true := by simpa using hlead
        show tidy true false (' ' :: c :: tidy true false t) = ' ' :: c :: tidy true false t
        rw [tidy_blank isBlank_space, tidy_char hc, ih]
        rfl

/-- The word at the front stays as it is. -/
theorem takeWhile_tidy (t : Text) :
    (tidy true false t).takeWhile (!isBlank ·) = t.takeWhile (!isBlank ·) := by
  -- behind a blank nothing is left of the word, with however many blanks behind it
  have hgap : ∀ t, (tidy true true t).takeWhile (!isBlank ·) = [] := by
    intro t
    induction t with
    | nil => rfl
    | cons c t ih =>
      cases hc : isBlank c with
      | true => rw [tidy_blank hc, ih]
      | false =>
        rw [tidy_char hc]
        show (' ' :: c :: tidy true false t).takeWhile (!isBlank ·) = []
        rw [List.takeWhile_cons_of_neg (by simp [isBlank_space])]
  induction t with
  | nil => rfl
  | cons c t ih =>
    cases hc : isBlank c with
    | true => rw [tidy_blank hc, hgap, List.takeWhile_cons_of_neg (by simp [hc])]
    | false =>
      rw [tidy_char hc]
      show (c :: tidy true false t).takeWhile (!isBlank ·) = _
      rw [List.takeWhile_cons_of_pos (by simp [hc]), List.takeWhile_cons_of_pos (by simp [hc]), ih]

end tidy

/-! ## Section 2: Around a character -/

/-- What stands in a tidy text before the next word, once this text has been passed. -/
def front (started gap : Bool) : Text → Text
  | [] => lead started gap
  | c :: x =>
    if isBlank c then front started true x else lead started gap ++ c :: front true false x

section around
variable {started gap : Bool} {c : Char} {k x y : Text}

theorem front_blank (h : isBlank c = true) : front started gap (c :: x) = front started true x :=
  if_pos h

theorem front_char (h : isBlank c = false) :
    front started gap (c :: x) = lead started gap ++ c :: front true false x := by
  rw [front, h]
  rfl

/-- **What stands around a character**, evened out: each side for itself. -/
theorem tidy_append_cons (hc : isBlank c = false) (started gap : Bool) (x y : Text) :
    tidy started gap (x ++ c :: y) = front started gap x ++ c :: tidy true false y := by
  -- the two flags change on the way, so the claim is about any
  induction x generalizing started gap with
  | nil => exact tidy_char hc
  | cons d x ih =>
    cases hd : isBlank d with
    | true => rw [List.cons_append, tidy_blank hd, front_blank hd, ih]
    | false =>
      rw [List.cons_append, tidy_char hd, front_char hd, ih, List.append_assoc]
      rfl

theorem front_append_cons (hc : isBlank c = false) (started gap : Bool) (x y : Text) :
    front started gap (x ++ c :: y) = front started gap x ++ c :: front true false y := by
  induction x generalizing started gap with
  | nil => exact front_char hc
  | cons d x ih =>
    cases hd : isBlank d with
    | true => rw [List.cons_append, front_blank hd, front_blank hd, ih]
    | false =>
      rw [List.cons_append, front_char hd, front_char hd, ih, List.append_assoc]
      rfl

/-- Behind a blank comes one blank, or nothing if there was no word before. -/
theorem front_concat_blank (hc : isBlank c = true) (started gap : Bool) (x : Text) :
    started = false ∧ front started gap (x ++ [c]) = [] ∨
      (front started gap (x ++ [c])).getLast? = some ' ' := by
  induction x generalizing started gap with
  | nil =>
    rw [List.nil_append, front_blank hc]
    cases started with
    | false => exact Or.inl ⟨rfl, rfl⟩
    | true => exact Or.inr rfl
  | cons d x ih =>
    cases hd : isBlank d with
    | true =>
      rw [List.cons_append, front_blank hd]
      exact ih started true
    | false =>
      -- a word has come, so the blank is one
      have hlast := (ih true false).resolve_left (fun h => Bool.noConfusion h.1)
      right
      rw [List.cons_append, front_char hd, List.getLast?_append, List.getLast?_cons, hlast]
      rfl

/-- A character of a tidy text that is no blank stood in the text before, and what comes before
    it is what stood before it there. -/
theorem exists_of_tidy_eq (hc : isBlank c = false) (h : tidy started gap k = x ++ c :: y) :
    ∃ x' y', k = x' ++ c :: y' ∧ x = front started gap x' := by
  induction k generalizing started gap x with
  | nil => simp at h
  | cons d k ih =>
    cases hd : isBlank d with
    | true =>
      rw [tidy_blank hd] at h
      obtain ⟨x', y', rfl, rfl⟩ := ih h
      exact ⟨d :: x', y', rfl, (front_blank hd).symm⟩
    | false =>
      rw [tidy_char hd] at h
      -- a blank that is put in front is not the character
      obtain ⟨u, hu, rfl⟩ : ∃ u, d :: tidy true false k = u ++ c :: y ∧
          x = lead started gap ++ u := by
        unfold lead at h ⊢
        cases hlead : started && gap with
        | false =>
          rw [hlead] at h
          exact ⟨x, h, rfl⟩
        | true =>
          rw [hlead] at h
          cases x with
          | nil =>
            obtain ⟨rfl, -⟩ := List.cons.inj h
            rw [isBlank_space] at hc
            cases hc
          | cons e x =>
            obtain ⟨rfl, hu⟩ := List.cons.inj h
            exact ⟨x, hu, rfl⟩
      cases u with
      | nil =>
        obtain ⟨rfl, rfl⟩ := List.cons.inj hu
        exact ⟨[], k, rfl, by rw [List.append_nil]; rfl⟩
      | cons e u =>
        obtain ⟨rfl, hrest⟩ := List.cons.inj hu
        obtain ⟨x', y', rfl, rfl⟩ := ih hrest
        exact ⟨d :: x', y', rfl, (front_char hd).symm⟩

end around

end Agenda.Text
