import Agenda.Text.CaseLemmas

/-! # Tags

    A tag is kept in small letters without blanks around it.  The tags of a task form a set,
    held as an ascending list, so equal sets are equal values. -/

namespace Agenda

/-- The form in which a tag is kept. -/
def Tag.normalize (name : Text) : Text := Text.lower (Text.trim name)

theorem Tag.normalize_normalize (name : Text) :
    Tag.normalize (Tag.normalize name) = Tag.normalize name := by
  unfold Tag.normalize
  rw [Text.trim_of_trimmed (Text.trimmed_lower (Text.trimmed_trim name)), Text.lower_lower]

/-- A set of tags in their kept form, none of them empty. -/
structure TagSet where
  toList : List Text
  sorted : toList.Pairwise (· < ·)
  normal : ∀ t ∈ toList, Tag.normalize t = t ∧ t ≠ []
  deriving DecidableEq

namespace TagSet

/-- Put a text into an ascending list at its place, unless it is there. -/
def insertText (t : Text) : List Text → List Text
  | [] => [t]
  | u :: rest =>
    if t < u then t :: u :: rest
    else if t = u then u :: rest
    else u :: insertText t rest

theorem mem_insertText {x t : Text} {l : List Text} :
    x ∈ insertText t l ↔ x = t ∨ x ∈ l := by
  induction l with
  | nil => simp [insertText]
  | cons u rest ih =>
    unfold insertText
    split
    · simp
    · split
      · rename_i h; subst h; simp
      · simp [ih]; grind

theorem insertText_sorted {t : Text} {l : List Text} (h : l.Pairwise (· < ·)) :
    (insertText t l).Pairwise (· < ·) := by
  induction l with
  | nil => simp [insertText]
  | cons u rest ih =>
    obtain ⟨hu, hrest⟩ := List.pairwise_cons.mp h
    unfold insertText
    split
    · rename_i htu
      refine List.pairwise_cons.mpr ⟨?_, h⟩
      intro x hx
      rcases List.mem_cons.mp hx with rfl | hx
      · exact htu
      · exact List.lt_trans htu (hu x hx)
    · split
      · exact h
      · rename_i hlt hne
        refine List.pairwise_cons.mpr ⟨?_, ih hrest⟩
        intro x hx
        rcases mem_insertText.mp hx with rfl | hx
        · rcases List.le_iff_lt_or_eq.mp (List.not_lt.mp hlt) with h' | h'
          · exact h'
          · exact absurd h'.symm hne
        · exact hu x hx

/-- No tags. -/
def empty : TagSet := ⟨[], by simp, by simp⟩

instance : Inhabited TagSet := ⟨empty⟩

/-- Put a tag into a set, in its kept form; an empty one is left out. -/
def insert (name : Text) (s : TagSet) : TagSet :=
  let tag := Tag.normalize name
  if h : tag = [] then s
  else
    { toList := insertText tag s.toList
      sorted := insertText_sorted s.sorted
      normal := by
        intro t ht
        rcases mem_insertText.mp ht with rfl | ht
        · exact ⟨Tag.normalize_normalize name, h⟩
        · exact s.normal t ht }

/-- The set of the given tags. -/
def ofList (names : List Text) : TagSet := names.foldr insert empty

end TagSet

end Agenda
