import Agenda.Proofs.Title.Tokens

/-! # Beginnings

    What begins at a place of a title is decided by the rest of the word there, and by whether a
    word or an address may start (`addressAt?_congr`, `tokenAt?_congr`).  At the start of a word
    nothing that stands before matters. -/

namespace Agenda.Title

/-! ## Section 1: Words -/

section words
variable {prev prev' : Option Char} {c : Char} {w u t t' address : Text} {p : Char → Bool}

/-- Characters that are no blanks stop at the end of a word. -/
theorem takeWhile_append_blank (hp : ∀ c, Text.isBlank c = true → p c = false)
    (hu : ∀ c ∈ u.head?, Text.isBlank c = true) (w : Text) :
    (w ++ u).takeWhile p = w.takeWhile p ∧ (w ++ u).dropWhile p = w.dropWhile p ++ u := by
  induction w with
  | nil =>
    cases u with
    | nil => exact ⟨rfl, rfl⟩
    | cons c u =>
      have hc := hp c (hu c rfl)
      simp [hc]
  | cons c w ih => cases hc : p c <;> simp [hc, ih]

theorem isAddressChar_of_isBlank (h : Text.isBlank c = true) : isAddressChar c = false := by
  simp [isAddressChar, h]

/-- What stands behind the word does not matter to an address. -/
theorem addressAt?_append (hu : ∀ c ∈ u.head?, Text.isBlank c = true) (prev : Option Char)
    (w : Text) :
    addressAt? prev (w ++ u) = addressAt? prev w := by
  obtain ⟨htake, hdrop⟩ := takeWhile_append_blank (fun c => isSchemeChar_of_isBlank) hu w
  have hbody := fun r => (takeWhile_append_blank (fun c => isAddressChar_of_isBlank) hu r).1
  unfold addressAt?
  rw [htake, hdrop]
  -- a blank is no part of `://`
  have hmark : ∀ c ∈ u.head?, c ≠ ':' ∧ c ≠ '/' := by
    intro c hc
    have hblank := hu c hc
    constructor <;>
    · rintro rfl
      revert hblank
      decide +kernel
  rcases w.dropWhile isSchemeChar with _ | ⟨a, _ | ⟨b, _ | ⟨c, r⟩⟩⟩
  · cases u with
    | nil => rfl
    | cons d u => simp [(hmark d rfl).1]
  · cases u with
    | nil => rfl
    | cons d u => simp [(hmark d rfl).2]
  · cases u with
    | nil => rfl
    | cons d u => simp [(hmark d rfl).2]
  · by_cases hslashes : a = ':' ∧ b = '/' ∧ c = '/'
    · obtain ⟨rfl, rfl, rfl⟩ := hslashes
      simp [hbody]
    · have hno : ∀ r rest : Text, a :: b :: c :: r ≠ ':' :: '/' :: '/' :: rest := by
        rintro r rest heq
        simp only [List.cons.injEq] at heq
        exact hslashes ⟨heq.1, heq.2.1, heq.2.2.1⟩
      dsimp only [List.cons_append]
      split
      · next rest heq => exact absurd heq (hno _ rest)
      · split
        · next rest heq => exact absurd heq (hno _ rest)
        · rfl

theorem addressAt?_congr (h : t.takeWhile (!Text.isBlank ·) = t'.takeWhile (!Text.isBlank ·))
    (hprev : mayStartAddress prev = mayStartAddress prev') :
    addressAt? prev t = addressAt? prev' t' := by
  have hcut : ∀ prev t, addressAt? prev t = addressAt? prev (t.takeWhile (!Text.isBlank ·)) := by
    intro prev t
    have hend : ∀ c ∈ (t.dropWhile (!Text.isBlank ·)).head?, Text.isBlank c = true := by
      intro c hc
      simpa using Text.head?_dropWhile_not t c hc
    have happend := addressAt?_append hend prev (t.takeWhile (!Text.isBlank ·))
    rwa [List.takeWhile_append_dropWhile] at happend
  rw [hcut prev t, hcut prev' t', h]
  unfold addressAt?
  rw [hprev]

/-- **What begins at a place** depends on the word that stands there and on whether a word or an
    address may start. -/
theorem tokenAt?_congr (h : t.takeWhile (!Text.isBlank ·) = t'.takeWhile (!Text.isBlank ·))
    (hc : Text.isBlank c = false) (hstart : atWordStart prev = atWordStart prev')
    (haddress : mayStartAddress prev = mayStartAddress prev') :
    tokenAt? prev (c :: t) = tokenAt? prev' (c :: t') := by
  have htag : ∀ t : Text, t.takeWhile isTagChar =
      (t.takeWhile (!Text.isBlank ·)).takeWhile isTagChar := by
    intro t
    rw [List.takeWhile_takeWhile]
    congr 1
    funext c
    cases hblank : Text.isBlank c with
    | true => simp [isTagChar_of_isBlank hblank]
    | false => simp
  have hword : (c :: t).takeWhile (!Text.isBlank ·) = (c :: t').takeWhile (!Text.isBlank ·) := by
    simp [hc, h]
  simp only [tokenAt?]
  rw [h, htag t, htag t', h, hstart, addressAt?_congr hword haddress]

theorem mayStartAddress_of_atWordStart (h : atWordStart prev = true) :
    mayStartAddress prev = true := by
  cases prev with
  | none => rfl
  | some d =>
    have hblank : Text.isBlank d = true := h
    have hmark : d ∉ "+.-".toList := notMem_of_isBlank (by decide +kernel) hblank
    simp only [mayStartAddress, Option.all_some, Text.isAlphanumeric_of_isBlank hblank,
      Bool.false_or]
    simpa using hmark

/-- At the start of a word it does not matter what stands before. -/
theorem tokenAt?_of_atWordStart (h : atWordStart prev = true) (t : Text) :
    tokenAt? prev t = tokenAt? none t := by
  have hmay : mayStartAddress prev = mayStartAddress none := mayStartAddress_of_atWordStart h
  cases t with
  | nil => rfl
  | cons c t =>
    simp only [tokenAt?]
    rw [h, addressAt?_congr (t := c :: t) rfl hmay]
    rfl

theorem tokenAt?_blank (h : Text.isBlank c = true) (t : Text) : tokenAt? prev (c :: t) = none := by
  cases htoken : tokenAt? prev (c :: t) with
  | none => rfl
  | some x =>
    obtain ⟨rest, hraw⟩ := (tokenAt?_spec htoken).1
    have hne := tokenAt?_raw_ne_nil htoken
    cases hx : x.raw with
    | nil => exact absurd hx hne
    | cons d w =>
      rw [hx] at hraw
      obtain ⟨rfl, -⟩ := List.cons.inj hraw
      have hchars := (chars_of_tokenAt? htoken (c := d) (by rw [hx]; exact List.mem_cons_self)).1
      rw [h] at hchars
      cases hchars

end words

/-! ## Section 2: References -/

/-- A reference begins here, if a word starts here. -/
def BeginsReference (t : Text) : Prop := ∃ x, tokenAt? none t = some x ∧ x.isKept = false

instance (t : Text) : Decidable (BeginsReference t) :=
  decidable_of_iff ((tokenAt? none t).any (!·.isKept) = true) (by
    unfold BeginsReference
    cases tokenAt? none t <;> simp)

section references
variable {prev : Option Char} {c : Char} {t t' address : Text} {x : Segment}

theorem beginsReference_congr (hc : Text.isBlank c = false)
    (h : t.takeWhile (!Text.isBlank ·) = t'.takeWhile (!Text.isBlank ·)) :
    BeginsReference (c :: t) ↔ BeginsReference (c :: t') := by
  unfold BeginsReference
  rw [tokenAt?_congr h hc rfl rfl]

theorem BeginsReference.exists_cons (h : BeginsReference t) :
    ∃ c t', t = c :: t' ∧ Text.isBlank c = false := by
  obtain ⟨x, hx, -⟩ := h
  cases t with
  | nil => cases hx
  | cons c t =>
    refine ⟨c, t, rfl, ?_⟩
    cases hc : Text.isBlank c with
    | false => rfl
    | true =>
      rw [tokenAt?_blank hc] at hx
      cases hx

theorem atWordStart_of_reference (h : tokenAt? prev t = some x) (hx : x.isKept = false) :
    atWordStart prev = true := by
  cases x with
  | text t => cases hx
  | project name => exact (tokenAt?_project_iff.mp h).1
  | tag name => exact (tokenAt?_tag_iff.mp h).1
  | url address => cases hx

/-- The characters of a token are no blanks, so no word starts behind it. -/
theorem atWordStart_getLast?_raw (h : tokenAt? prev t = some x) :
    atWordStart x.raw.getLast? = false := by
  have hne := tokenAt?_raw_ne_nil h
  rw [List.getLast?_eq_some_getLast hne]
  exact (chars_of_tokenAt? h (List.getLast_mem hne)).1

/-- Where an address stands and no word starts with a sign, the address is the token. -/
theorem tokenAt?_of_addressAt? (h : addressAt? prev t = some address) :
    ∃ x, tokenAt? prev t = some x ∧ (x.isKept = true → x = .url address) := by
  cases t with
  | nil => cases h
  | cons c t =>
    simp only [tokenAt?]
    split
    · refine ⟨_, rfl, ?_⟩
      intro hkept
      cases hkept
    · split
      · refine ⟨_, rfl, ?_⟩
        intro hkept
        cases hkept
      · exact ⟨_, by rw [h]; rfl, fun _ => rfl⟩

theorem isTagChar_of_isAlpha (h : c.isAlpha = true) : isTagChar c = true := by
  have halpha : Text.isAlphanumeric c = true := by
    have hupper : (65, 90) ∈ Text.alphanumericRanges := by decide +kernel
    have hlower : (97, 122) ∈ Text.alphanumericRanges := by decide +kernel
    rw [Text.isAlpha_iff] at h
    simp only [Text.isAlphanumeric, Text.inRanges, List.any_eq_true, Bool.and_eq_true,
      decide_eq_true_eq]
    rcases h with h | h
    · exact ⟨_, hupper, h⟩
    · exact ⟨_, hlower, h⟩
  simp [isTagChar, halpha]

/-- An address begins with a letter. -/
theorem isTagChar_of_addressAt? (h : addressAt? prev (c :: t) = some address) :
    isTagChar c = true := by
  unfold addressAt? at h
  split at h
  · dsimp only at h
    split at h
    · next hcond =>
      have halpha := hcond.2.1
      cases hscheme : isSchemeChar c with
      | false => simp [hscheme] at halpha
      | true => exact isTagChar_of_isAlpha (by simpa [hscheme] using halpha)
    · cases h
  · cases h

end references

end Agenda.Title
