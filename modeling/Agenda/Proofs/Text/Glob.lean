import Agenda.Text.CaseLemmas
import Agenda.Text.Glob
import Mathlib.Data.List.Forall2
import Mathlib.Data.List.Infix

/-! # What a glob pattern matches

    A pattern matches the texts that can be cut into one piece for each of its characters
    (`Meets`).  Matching keeps the remainders that the pattern read so far can leave; they
    descend, each a suffix of those before it, and this is why a star need only look at the
    longest.  So the remainders are what is left of the text behind some piece that the pattern
    takes (`mem_remainders_iff`), and the pattern matches if it can leave nothing
    (`isMatch_cuts`). -/

namespace Agenda.Text.Glob

/-! ## Section 1: Pieces -/

/-- Characters that match each other when case does not count. -/
def Alike (c d : Char) : Prop := fold c = fold d

instance (c d : Char) : Decidable (Alike c d) := inferInstanceAs (Decidable (fold c = fold d))

/-- What one character of a pattern takes. -/
inductive Takes : Char → Text → Prop
  | run (t : Text) : Takes '*' t
  | one (c : Char) : Takes '?' [c]
  | letter {p c : Char} (hstar : p ≠ '*') (hone : p ≠ '?') (h : Alike p c) : Takes p [c]

/-- The text can be cut into consecutive pieces, one for each character of the pattern. -/
def Meets (pattern text : Text) : Prop :=
  ∃ pieces : List Text, List.Forall₂ Takes pattern pieces ∧ pieces.flatten = text

variable {p c : Char} {pattern pattern' q t u v r piece : Text} {rs : List Text}

@[simp] theorem takes_star : Takes '*' piece := Takes.run piece

/-- A character other than the star takes a single character. -/
theorem takes_iff (hp : p ≠ '*') : Takes p piece ↔ ∃ c, piece = [c] ∧ takes p c = true := by
  unfold takes
  constructor
  · intro h
    cases h with
    | run => exact absurd rfl hp
    | one c => exact ⟨c, rfl, rfl⟩
    | letter _ _ h =>
      have hfold : fold p = fold _ := h
      exact ⟨_, rfl, by simp [hfold]⟩
  · intro h
    obtain ⟨c, rfl, h⟩ := h
    by_cases hone : p = '?'
    · subst hone
      exact Takes.one c
    · have hfold : fold p = fold c := by simpa [hone] using h
      exact Takes.letter hp hone hfold

@[simp] theorem meets_nil : Meets [] t ↔ t = [] := by
  constructor
  · intro h
    obtain ⟨pieces, hpieces, rfl⟩ := h
    rw [List.forall₂_nil_left_iff.mp hpieces]
    rfl
  · intro h
    exact ⟨[], List.Forall₂.nil, h.symm⟩

theorem meets_cons :
    Meets (p :: pattern) t ↔ ∃ u v, t = u ++ v ∧ Takes p u ∧ Meets pattern v := by
  constructor
  · intro h
    obtain ⟨pieces, hpieces, rfl⟩ := h
    obtain ⟨u, rest, hu, hrest, rfl⟩ := List.forall₂_cons_left_iff.mp hpieces
    exact ⟨u, rest.flatten, rfl, hu, rest, hrest, rfl⟩
  · intro h
    obtain ⟨u, v, rfl, hu, pieces, hpieces, rfl⟩ := h
    exact ⟨u :: pieces, List.Forall₂.cons hu hpieces, rfl⟩

@[simp] theorem meets_singleton : Meets [p] t ↔ Takes p t := by
  simp [meets_cons]

/-- A text for two patterns in a row is one for the first and then one for the second. -/
theorem meets_append :
    Meets (pattern ++ q) t ↔ ∃ u v, t = u ++ v ∧ Meets pattern u ∧ Meets q v := by
  induction pattern generalizing t with
  | nil => simp
  | cons p pattern ih =>
    rw [List.cons_append, meets_cons]
    constructor
    · intro h
      obtain ⟨u, v, rfl, hu, hv⟩ := h
      obtain ⟨u', v', rfl, hu', hv'⟩ := ih.mp hv
      exact ⟨u ++ u', v', (List.append_assoc ..).symm, meets_cons.mpr ⟨u, u', rfl, hu, hu'⟩, hv'⟩
    · intro h
      obtain ⟨w, v', rfl, hw, hv'⟩ := h
      obtain ⟨u, u', rfl, hu, hu'⟩ := meets_cons.mp hw
      exact ⟨u, u' ++ v', List.append_assoc .., hu, ih.mpr ⟨u', v', rfl, hu', hv'⟩⟩

/-! ## Section 2: Remainders -/

theorem suffixes_eq_tails (t : Text) : suffixes t = t.tails := by
  induction t with
  | nil => rfl
  | cons c t ih => rw [suffixes, List.tails, ih]

/-- Each remainder is a suffix of all before it. -/
def Descends (rs : List Text) : Prop := rs.Pairwise fun a b => b <:+ a

theorem descends_suffixes (t : Text) : Descends (suffixes t) := by
  induction t with
  | nil => exact List.pairwise_singleton ..
  | cons c t ih =>
    refine List.pairwise_cons.mpr ⟨?_, ih⟩
    intro r hr
    rw [suffixes_eq_tails, List.mem_tails] at hr
    exact hr.trans (List.suffix_cons c t)

theorem takeOne?_eq_some_iff : takeOne? p t = some r ↔ ∃ c, t = c :: r ∧ takes p c = true := by
  cases t with
  | nil => simp [takeOne?]
  | cons c rest =>
    simp only [takeOne?, Option.ite_none_right_eq_some, Option.some.injEq, List.cons.injEq]
    constructor
    · intro h
      exact ⟨c, ⟨rfl, h.2⟩, h.1⟩
    · intro h
      obtain ⟨c', ⟨rfl, rfl⟩, h⟩ := h
      exact ⟨h, rfl⟩

theorem descends_advance (h : Descends rs) (p : Char) : Descends (advance rs p) := by
  unfold advance
  split
  · cases rs with
    | nil => exact h
    | cons longest rest => exact descends_suffixes longest
  · refine List.Pairwise.filterMap (takeOne? p) ?_ h
    intro a b hba a' ha' b' hb'
    obtain ⟨c, rfl, -⟩ := takeOne?_eq_some_iff.mp ha'
    obtain ⟨d, rfl, -⟩ := takeOne?_eq_some_iff.mp hb'
    -- what is left of both after one character: of suffixes of one text the shorter is a
    -- suffix of the longer
    have hlength : b'.length ≤ a'.length := by simpa using hba.length_le
    have hb : b' <:+ c :: a' := (List.suffix_cons d b').trans hba
    exact List.suffix_of_suffix_length_le hb (List.suffix_cons c a') hlength

/-- One more character of the pattern takes a piece off one of the remainders. -/
theorem mem_advance_iff (h : Descends rs) :
    r ∈ advance rs p ↔ ∃ a ∈ rs, ∃ piece, Takes p piece ∧ a = piece ++ r := by
  unfold advance
  split
  · next hp =>
    subst hp
    cases rs with
    | nil => simp
    | cons longest rest =>
      show r ∈ suffixes longest ↔ _
      -- the remainders are suffixes of the longest one, so its suffixes are all there are
      rw [suffixes_eq_tails, List.mem_tails]
      constructor
      · intro hr
        obtain ⟨piece, hpiece⟩ := hr
        exact ⟨longest, List.mem_cons_self, piece, takes_star, hpiece.symm⟩
      · intro h'
        obtain ⟨a, ha, piece, -, rfl⟩ := h'
        have hlongest : piece ++ r <:+ longest := by
          rcases List.mem_cons.mp ha with rfl | ha
          · exact List.suffix_rfl
          · exact (List.pairwise_cons.mp h).1 _ ha
        exact (List.suffix_append piece r).trans hlongest
  · next hp =>
    rw [List.mem_filterMap]
    simp only [takeOne?_eq_some_iff, takes_iff hp]
    constructor
    · intro h'
      obtain ⟨a, ha, c, rfl, hc⟩ := h'
      exact ⟨c :: r, ha, [c], ⟨c, rfl, hc⟩, rfl⟩
    · intro h'
      obtain ⟨a, ha, piece, ⟨c, rfl, hc⟩, rfl⟩ := h'
      exact ⟨c :: r, ha, c, rfl, hc⟩

theorem remainders_concat (pattern : Text) (p : Char) (t : Text) :
    remainders (pattern ++ [p]) t = advance (remainders pattern t) p := by
  unfold remainders
  rw [List.foldl_append]
  rfl

theorem descends_remainders (pattern t : Text) : Descends (remainders pattern t) := by
  induction pattern using List.reverseRecOn with
  | nil => exact List.pairwise_singleton ..
  | append_singleton pattern p ih =>
    rw [remainders_concat]
    exact descends_advance ih p

/-- The remainders are what is left behind a piece that meets the pattern. -/
theorem mem_remainders_iff : r ∈ remainders pattern t ↔ ∃ u, t = u ++ r ∧ Meets pattern u := by
  induction pattern using List.reverseRecOn generalizing r with
  | nil =>
    show r ∈ [t] ↔ _
    simp [eq_comm]
  | append_singleton pattern p ih =>
    rw [remainders_concat, mem_advance_iff (descends_remainders pattern t)]
    constructor
    · intro h
      obtain ⟨a, ha, piece, hpiece, rfl⟩ := h
      obtain ⟨u, rfl, hu⟩ := ih.mp ha
      refine ⟨u ++ piece, (List.append_assoc ..).symm, ?_⟩
      exact meets_append.mpr ⟨u, piece, rfl, hu, meets_singleton.mpr hpiece⟩
    · intro h
      obtain ⟨w, rfl, hw⟩ := h
      obtain ⟨u, piece, rfl, hu, hpiece⟩ := meets_append.mp hw
      refine ⟨piece ++ r, ih.mpr ⟨u, List.append_assoc .., hu⟩, piece, ?_, rfl⟩
      exact meets_singleton.mp hpiece

theorem isMatch_iff_meets : isMatch pattern t = true ↔ Meets pattern t := by
  unfold isMatch
  rw [List.contains_iff_mem, mem_remainders_iff]
  simp

/-! ## Section 3: Laws -/

/-- Stars in a row take any text. -/
theorem meets_stars (n : Nat) (t : Text) : Meets (List.replicate (n + 1) '*') t := by
  induction n generalizing t with
  | zero => exact meets_singleton.mpr takes_star
  | succ n ih =>
    rw [List.replicate_succ]
    exact meets_cons.mpr ⟨[], t, rfl, takes_star, ih t⟩

/-- Stars in a row are no more than one. -/
theorem isMatch_stars (p : Text) (n : Nat) (q : Text) :
    isMatch (p ++ List.replicate (n + 1) '*' ++ q) = isMatch (p ++ '*' :: q) := by
  funext t
  have hstars : ∀ u, Meets (List.replicate (n + 1) '*') u ↔ Meets ['*'] u := by
    intro u
    exact iff_of_true (meets_stars n u) (meets_stars 0 u)
  rw [Bool.eq_iff_iff, isMatch_iff_meets, isMatch_iff_meets, List.append_assoc,
    ← List.singleton_append, meets_append, meets_append]
  simp only [meets_append, hstars]

theorem forall₂_alike_iff {t' : Text} :
    List.Forall₂ Alike t t' ↔ t.map fold = t'.map fold := by
  rw [← List.forall₂_eq_eq_eq, List.forall₂_map_left_iff, List.forall₂_map_right_iff]
  rfl

/-- A wildcard is like no other character. -/
theorem eq_of_alike_wildcard {w : Char} (hw : w = '*' ∨ w = '?') (h : Alike w c) : c = w := by
  have hfold : w.toNat < 97 ∧ fold w = w := by
    rcases hw with rfl | rfl <;> decide +kernel
  exact eq_of_fold_eq hfold.1 (h.symm.trans hfold.2)

/-- Characters that are alike take pieces that are alike. -/
theorem Takes.congr {p' : Char} {piece' : Text} (h : Takes p piece) (hp : Alike p p')
    (hpiece : List.Forall₂ Alike piece piece') : Takes p' piece' := by
  cases h with
  | run t =>
    obtain rfl := eq_of_alike_wildcard (Or.inl rfl) hp
    exact Takes.run piece'
  | one c =>
    obtain rfl := eq_of_alike_wildcard (Or.inr rfl) hp
    obtain ⟨d, rest, -, hrest, rfl⟩ := List.forall₂_cons_left_iff.mp hpiece
    rw [List.forall₂_nil_left_iff.mp hrest]
    exact Takes.one d
  | letter hstar hone h =>
    obtain ⟨d, rest, hd, hrest, rfl⟩ := List.forall₂_cons_left_iff.mp hpiece
    rw [List.forall₂_nil_left_iff.mp hrest]
    have hne : ∀ w, w = '*' ∨ w = '?' → p ≠ w → p' ≠ w := by
      rintro w hw hpw rfl
      exact hpw (eq_of_alike_wildcard hw hp.symm)
    exact Takes.letter (hne '*' (Or.inl rfl) hstar) (hne '?' (Or.inr rfl) hone)
      (hp.symm.trans (h.trans hd))

theorem Meets.congr {t' : Text} (h : Meets pattern t)
    (hpattern : List.Forall₂ Alike pattern pattern') (ht : List.Forall₂ Alike t t') :
    Meets pattern' t' := by
  induction hpattern generalizing t t' with
  | nil =>
    rw [meets_nil] at h ⊢
    subst h
    exact List.forall₂_nil_left_iff.mp ht
  | cons hp _ ih =>
    obtain ⟨u, v, rfl, hu, hv⟩ := meets_cons.mp h
    -- the other text is cut at the same place
    rw [forall₂_alike_iff, List.map_append] at ht
    obtain ⟨u', v', rfl, hu', hv'⟩ := List.map_eq_append_iff.mp ht.symm
    have hcut : Takes _ u' := hu.congr hp (forall₂_alike_iff.mpr hu'.symm)
    exact meets_cons.mpr ⟨u', v', rfl, hcut, ih hv (forall₂_alike_iff.mpr hv'.symm)⟩

/-- Characters may be exchanged for others that are like them. -/
theorem isMatch_congr {t' : Text} (hpattern : List.Forall₂ Alike pattern pattern')
    (ht : List.Forall₂ Alike t t') : isMatch pattern t = isMatch pattern' t' := by
  have hback : ∀ {a b : Text}, List.Forall₂ Alike a b → List.Forall₂ Alike b a := by
    intro a b h
    exact forall₂_alike_iff.mpr (forall₂_alike_iff.mp h).symm
  rw [Bool.eq_iff_iff, isMatch_iff_meets, isMatch_iff_meets]
  constructor
  · intro h
    exact h.congr hpattern ht
  · intro h
    exact h.congr (hback hpattern) (hback ht)

/-- **What a pattern matches**, for every pattern and text.  The text can be cut into one piece
    for each character: any run for `*`, one character for `?`, and for any other character
    one that is like it.  So a pattern in two parts matches what its parts match in turn, more
    stars in a row do no more than one, and characters may be exchanged for others like
    them. -/
theorem isMatch_cuts :
    (∀ pattern t, isMatch pattern t = true ↔ Meets pattern t) ∧
    (∀ p q t, isMatch (p ++ q) t = true ↔
      ∃ u v, t = u ++ v ∧ isMatch p u = true ∧ isMatch q v = true) ∧
    (∀ p n q, isMatch (p ++ List.replicate (n + 1) '*' ++ q) = isMatch (p ++ '*' :: q)) ∧
    ∀ p p' t t', List.Forall₂ Alike p p' → List.Forall₂ Alike t t' →
      isMatch p t = isMatch p' t' := by
  refine ⟨fun _ _ => isMatch_iff_meets, ?_, isMatch_stars, ?_⟩
  · intro p q t
    simp only [isMatch_iff_meets]
    exact meets_append
  · intro p p' t t' hp ht
    exact isMatch_congr hp ht

/-- The Kelvin sign is like a `k` and a bracket is no wildcard, while `?` takes a line break. -/
theorem isMatch_kelvin_line :
    isMatch "[k?*".toList "[\u212a\n".toList = true ∧
    isMatch "[k?*".toList "[\u212a\n".toList = isMatch "[\u212a?*".toList "[K\n".toList :=
  ⟨by decide +kernel,
   isMatch_cuts.2.2.2 _ _ _ _ (forall₂_alike_iff.mpr (by decide +kernel))
    (forall₂_alike_iff.mpr (by decide +kernel))⟩

end Agenda.Text.Glob
