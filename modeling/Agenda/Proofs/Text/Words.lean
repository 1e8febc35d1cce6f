import Agenda.Text.Basic

/-! # Words

    The words of a text are its runs without blanks that have a blank or an end of the text on
    both sides.  The function that cuts a text into words finds these, from left to right
    (`hasWords_words`). -/

namespace Agenda.Text

/-- The text has these words, and else blanks only. -/
inductive HasWords : Text → List Text → Prop where
  | nil : HasWords [] []
  | blank {c : Char} {t : Text} {ws : List Text} (hc : isBlank c = true) (h : HasWords t ws) :
    HasWords (c :: t) ws
  | word {w t : Text} {ws : List Text} (hne : w ≠ []) (hw : ∀ c ∈ w, isBlank c = false)
      (hend : ∀ c ∈ t.head?, isBlank c = true) (h : HasWords t ws) : HasWords (w ++ t) (w :: ws)

section words
variable {c d : Char} {t : Text} {ws : List Text}

/-- A character in front of a word belongs to it. -/
theorem HasWords.grow (h : HasWords (d :: t) ws) (hc : isBlank c = false)
    (hd : isBlank d = false) :
    ∃ w ws', ws = w :: ws' ∧ HasWords (c :: d :: t) ((c :: w) :: ws') := by
  generalize hfront : d :: t = front at h
  cases h with
  | nil => cases hfront
  | blank hblank _ =>
    obtain ⟨rfl, rfl⟩ := List.cons.inj hfront
    rw [hd] at hblank
    cases hblank
  | @word w rest ws' hne hw hend hrest =>
    refine ⟨w, ws', rfl, ?_⟩
    have hword : ∀ x ∈ c :: w, isBlank x = false := List.forall_mem_cons.mpr ⟨hc, hw⟩
    exact .word (List.cons_ne_nil c w) hword hend hrest

/-- **A text has the words that it is cut into.** -/
theorem hasWords_words (t : Text) : HasWords t (words t) := by
  induction t with
  | nil => exact .nil
  | cons c rest ih =>
    unfold words
    by_cases hc : isBlank c = true
    · rw [if_pos hc]
      exact .blank hc ih
    have hc' : isBlank c = false := Bool.eq_false_iff.mpr hc
    have hword : ∀ x ∈ [c], isBlank x = false := List.forall_mem_singleton.mpr hc'
    rw [if_neg hc]
    cases rest with
    | nil => exact .word (List.cons_ne_nil c []) hword nofun .nil
    | cons d t =>
      by_cases hd : isBlank d = true
      · -- the word ends here
        have hend : ∀ x ∈ (d :: t).head?, isBlank x = true := by
          rintro x ⟨⟩
          exact hd
        have hcut := HasWords.word (List.cons_ne_nil c []) hword hend ih
        cases hws : words (d :: t) with
        | nil =>
          rw [hws] at hcut
          exact hcut
        | cons w ws =>
          rw [hws] at hcut
          dsimp only
          rw [if_pos hd]
          exact hcut
      · obtain ⟨w, ws, hws, hgrown⟩ := ih.grow hc' (Bool.eq_false_iff.mpr hd)
        rw [hws]
        dsimp only
        rw [if_neg hd]
        exact hgrown

end words

end Agenda.Text
