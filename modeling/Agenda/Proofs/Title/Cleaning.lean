import Agenda.Proofs.Title.Kept

/-! # Cleaned titles

    Taking the references out of a title and evening out its blanks brings characters together
    that stood apart.  Two things can come of it: a reference that was none, since a tag stood
    right before it, starts a word, and links appear or fall apart.  So cleaning settles a title
    exactly if every reference that it leaves stands in a link of the cleaned title, and the
    first address outside of the links is the same as before (`parse_cleaned_iff`).  Where the
    links around references and addresses stay as they were, this says that no tag has a further
    reference right behind it. -/

namespace Agenda.Title

/-! ## Section 1: What a title says, by its places -/

/-- A protected link holds this place. -/
def Linked (title : Text) (pos : Nat) : Prop :=
  ∃ link, Protected title link ∧ link.start ≤ pos ∧ pos < link.stop

/-- An address begins at `pos`, outside of the references. -/
def AddressedAt (title : Text) (pos : Nat) (address : Text) : Prop :=
  Stays title pos ∧ addressAt? (title.take pos).getLast? (title.drop pos) = some address

/-- The first address of the title that does not begin at a hidden place. -/
def FirstAddress (title : Text) (hidden : Nat → Prop) (address : Text) : Prop := ∃ pos,
  AddressedAt title pos address ∧ ¬hidden pos ∧
    ∀ pos' < pos, ∀ other, AddressedAt title pos' other → hidden pos'

section reading
variable {title address : Text} {pos : Nat} {x : Segment}

/-- A title names neither a project nor a tag if all of its segments are kept. -/
theorem parse_references_iff : (parse title).project = none ∧ (parse title).tags = [] ↔
    ∀ x ∈ segments title, x.isKept = true := by
  have htells := tells_foldl (segments title)
  have hproject : (parse title).project = none ↔
      ∀ x ∈ segments title, x.project? = none := by
    rw [← List.filterMap_eq_nil_iff, ← List.getLast?_eq_none_iff, ← htells.project]
    rfl
  have htags : (parse title).tags = [] ↔ ∀ x ∈ segments title, x.tag? = none := by
    rw [← List.filterMap_eq_nil_iff, List.eq_nil_iff_forall_not_mem,
      ← List.map_eq_nil_iff (f := Text.lower), List.eq_nil_iff_forall_not_mem]
    exact forall_congr' fun value => not_congr (htells.tags.mem_iff value)
  rw [hproject, htags]
  constructor
  · rintro ⟨hnone, hnone'⟩ x hx
    cases x with
    | text t => rfl
    | project name => cases hnone _ hx
    | tag name => cases hnone' _ hx
    | url address => rfl
  · intro hkept
    constructor
    all_goals
      intro x hx
      have hx' := hkept x hx
      cases x <;> first | rfl | cases hx'

theorem isText_of_not_isKept (h : x.isKept = false) : x.isText = false := by
  cases x <;> first | rfl | cases h

/-- What begins as a reference at the start of a word is one, or a link holds it. -/
theorem BeginsReference.cases (h : BeginsReference (title.drop pos))
    (hstart : atWordStart (title.take pos).getLast? = true) :
    Linked title pos ∨ ∃ x, StandsAt title pos x ∧ x.isKept = false := by
  obtain ⟨x, hx, href⟩ := h
  rw [← tokenAt?_of_atWordStart hstart] at hx
  by_cases hlinked : Linked title pos
  · exact Or.inl hlinked
  · exact Or.inr ⟨x, standsAt_of_tokenAt? hx (atWordStart_iff.mp hstart)
      fun link hlink hin => hlinked ⟨link, hlink, hin⟩, href⟩

/-- **All segments are kept** if each beginning of a reference at the start of a word stands in a
    link. -/
theorem forall_isKept_iff : (∀ x ∈ segments title, x.isKept = true) ↔
    ∀ pos, atWordStart (title.take pos).getLast? = true → BeginsReference (title.drop pos) →
      Linked title pos := by
  constructor
  · intro hkept pos hstart hbegins
    refine (hbegins.cases hstart).resolve_right ?_
    rintro ⟨x, ⟨before, after, hsplit, -⟩, href⟩
    rw [hkept x (by rw [hsplit]; simp)] at href
    cases href
  · intro hall x hx
    by_contra href
    rw [Bool.not_eq_true] at href
    obtain ⟨before, after, hsplit⟩ := List.append_of_mem hx
    have hstands : StandsAt title _ x := ⟨before, after, hsplit, rfl⟩
    have htext := isText_of_not_isKept href
    have hbegins := ((segments_mapped title).1 _ x hstands htext).2
    have hstart := atWordStart_of_reference hbegins href
    obtain ⟨link, hlink, hin⟩ := hall _ hstart
      ⟨x, by rw [← tokenAt?_of_atWordStart hstart, hbegins], href⟩
    exact hstands.outside htext hlink hin

/-- An address that stands in a title begins there, outside of the links. -/
theorem StandsAt.addressedAt (h : StandsAt title pos (.url address)) :
    AddressedAt title pos address ∧ ¬Linked title pos := by
  have hbegins := ((segments_mapped title).1 pos _ h rfl).2
  have hne := List.length_pos_iff.mpr (tokenAt?_raw_ne_nil hbegins)
  refine ⟨⟨⟨pos, _, h, rfl, Nat.le_refl _, by omega⟩, addressAt?_of_tokenAt? hbegins⟩, ?_⟩
  rintro ⟨link, hlink, hin⟩
  exact h.outside rfl hlink hin

/-- What begins as an address stands in a link or in an address that begins there or before. -/
theorem AddressedAt.cases (h : AddressedAt title pos address) : Linked title pos ∨
    ∃ start other, StandsAt title start (.url other) ∧ start ≤ pos ∧
      (start = pos → other = address) := by
  obtain ⟨⟨start, y, hy, hkept, hfrom, hto⟩, haddress⟩ := h
  obtain ⟨z, hz, hurl⟩ := tokenAt?_of_addressAt? haddress
  have hlt : pos < title.length := by
    have hend := hy.raw_prefix.length_le
    rw [List.length_drop] at hend
    omega
  cases (segments_mapped title).2 pos hlt with
  | @token start' x hstands hx hfrom' hto' =>
    obtain ⟨rfl, rfl⟩ := StandsIn.unique hstands hy (by omega) (by omega)
    have hbegins := ((segments_mapped title).1 _ _ hstands hx).2
    cases x with
    | text t => cases hx
    | project name => cases hkept
    | tag name => cases hkept
    | url other =>
      refine Or.inr ⟨start', other, hstands, hfrom', ?_⟩
      rintro rfl
      obtain rfl := Option.some.inj (hbegins.symm.trans hz)
      cases hurl rfl
      rfl
  | link hlink hin hfrom' hto' => exact Or.inl ⟨_, ⟨hlink, hin⟩, hfrom', hto'⟩
  | plain hplain =>
    rw [hplain.2] at hz
    cases hz

/-- The first address among the segments, by its place. -/
theorem head?_url_iff : ((segments title).filterMap Segment.url?).head? = some address ↔
    ∃ pos, StandsAt title pos (.url address) ∧
      ∀ pos' < pos, ∀ other, ¬StandsAt title pos' (.url other) := by
  constructor
  · intro h
    obtain ⟨rest, hrest⟩ := List.head?_eq_some_iff.mp h
    obtain ⟨before, x, after, hsplit, hbefore, hx, -⟩ := List.filterMap_eq_cons_iff.mp hrest
    obtain rfl : x = .url address := by
      cases x with
      | url other => exact congrArg Segment.url (Option.some.inj hx)
      | _ => cases hx
    refine ⟨_, ⟨before, after, hsplit, rfl⟩, ?_⟩
    rintro pos' hlt other ⟨before', after', hsplit', rfl⟩
    rcases List.append_eq_append_iff.mp (hsplit.symm.trans hsplit') with
      ⟨cut, rfl, -⟩ | ⟨cut, rfl, hcut⟩
    · rw [List.flatMap_append, List.length_append] at hlt
      omega
    · cases cut with
      | nil => simp at hlt
      | cons y cut =>
        obtain ⟨rfl, -⟩ := List.cons.inj hcut
        cases hbefore (.url other) (by simp)
  · rintro ⟨pos, ⟨before, after, hsplit, rfl⟩, hfirst⟩
    have hbefore : before.filterMap Segment.url? = [] := by
      rw [List.filterMap_eq_nil_iff]
      intro x hx
      obtain ⟨front, back, rfl⟩ := List.append_of_mem hx
      have hne := List.length_pos_iff.mpr (raw_ne_nil_of_mem (x := x) (by rw [hsplit]; simp))
      cases x with
      | url other =>
        -- an address before this one would be the first
        refine absurd ⟨front, back ++ .url address :: after, by simp [hsplit], rfl⟩
          (hfirst _ ?_ other)
        rw [List.flatMap_append, List.flatMap_cons, List.length_append, List.length_append]
        omega
      | _ => rfl
    rw [hsplit, List.filterMap_append, hbefore]
    rfl

/-- **The address of a title** is the first one outside of its links. -/
theorem url_eq_some_iff :
    (parse title).url = some address ↔ FirstAddress title (Linked title) address := by
  have hurl : (parse title).url = ((segments title).filterMap Segment.url?).head? :=
    (tells_foldl (segments title)).url
  rw [hurl, head?_url_iff]
  constructor
  · rintro ⟨pos, hstands, hfirst⟩
    obtain ⟨haddress, hout⟩ := hstands.addressedAt
    refine ⟨pos, haddress, hout, ?_⟩
    intro pos' hlt other hother
    refine hother.cases.resolve_right ?_
    rintro ⟨start, url, hstart, hle, -⟩
    exact hfirst start (Nat.lt_of_le_of_lt hle hlt) url hstart
  · rintro ⟨pos, haddress, hout, hfirst⟩
    have hnot : ∀ pos' < pos, ∀ other, ¬StandsAt title pos' (.url other) := by
      intro pos' hlt other hstands
      obtain ⟨hother, hout'⟩ := hstands.addressedAt
      exact hout' (hfirst pos' hlt other hother)
    obtain ⟨start, other, hstands, hle, hsame⟩ := haddress.cases.resolve_left hout
    obtain rfl : start = pos := by
      by_contra hne
      exact hnot start (by omega) other hstands
    obtain rfl := hsame rfl
    exact ⟨start, hstands, hnot⟩

end reading

/-! ## Section 2: What a cleaned title says -/

/-- A protected link of the cleaned title holds the character that stood at `pos`. -/
def LinkedAfter (title : Text) (pos : Nat) : Prop :=
  Linked (parse title).cleaned (place title pos)

/-- Cleaning leaves something at `pos` that is a reference where a word starts: it has kept a
    tag right before it from doing so, or a link held it. -/
inductive LeavesReference (title : Text) (pos : Nat) : Prop where
  | behindTag (h : BehindTag title pos) (href : BeginsReference (title.drop pos))
  | linked (h : Linked title pos) (hstart : atWordStart (title.take pos).getLast? = true)
      (href : BeginsReference (title.drop pos))

section cleaned
variable {title address : Text} {pos : Nat} {x : Segment}

/-- A reference does not stand where a character stays. -/
theorem Stays.isKept (h : Stays title pos) (hx : StandsAt title pos x) : x.isKept = true := by
  obtain ⟨start, y, hy, hkept, hfrom, hto⟩ := h
  have hpos := List.length_pos_iff.mpr hx.raw_ne_nil
  obtain ⟨-, rfl⟩ := StandsIn.unique hx hy hto (by omega)
  exact hkept

/-- What cleaning leaves stays. -/
theorem LeavesReference.stays (h : LeavesReference title pos) : Stays title pos := by
  cases h with
  | linked hlinked =>
    obtain ⟨link, ⟨-, start, t, hstands, hfrom, hto⟩, hfrom', hto'⟩ := hlinked
    exact ⟨start, .text t, hstands, rfl, Nat.le_trans hfrom hfrom', Nat.lt_of_lt_of_le hto' hto⟩
  | behindTag htag href =>
    obtain ⟨start, name, ⟨before, after, hsplit, rfl⟩, rfl⟩ := htag
    have hsplit' : segments title = (before ++ [.tag name]) ++ after := by simp [hsplit]
    have hplace : ((before ++ [Segment.tag name]).flatMap Segment.raw).length =
        (before.flatMap Segment.raw).length + 1 + name.length := by
      simp [Segment.raw]
      omega
    cases after with
    | nil =>
      -- nothing stands behind the end of the title
      obtain ⟨c, t, ht, -⟩ := href.exists_cons
      have hlt := congrArg List.length ht
      rw [← (segments_spec title).1, hsplit', List.append_nil, List.length_drop, hplace] at hlt
      simp at hlt
    | cons y after =>
      have hstands : StandsAt title _ y := ⟨_, after, hsplit', hplace⟩
      refine ⟨_, y, hstands, ?_, Nat.le_refl _,
        Nat.lt_add_of_pos_right (List.length_pos_iff.mpr hstands.raw_ne_nil)⟩
      -- no word starts right behind a tag, so no reference does
      rw [← Bool.not_eq_false]
      intro hy
      have hstart := (word_of_reference hsplit' hy).1
      rw [(word_of_reference hsplit rfl).2] at hstart
      cases hstart

/-- **A cleaned title has no references** if those that cleaning leaves stand in its links. -/
theorem cleaned_isKept_iff : (∀ x ∈ segments (parse title).cleaned, x.isKept = true) ↔
    ∀ pos, LeavesReference title pos → LinkedAfter title pos := by
  rw [forall_isKept_iff]
  constructor
  · intro hall pos hleft
    obtain ⟨hstart, href⟩ : (atWordStart (title.take pos).getLast? = true ∨
        BehindTag title pos) ∧ BeginsReference (title.drop pos) := by
      cases hleft with
      | behindTag htag href => exact ⟨Or.inr htag, href⟩
      | linked hlinked hstart href => exact ⟨Or.inl hstart, href⟩
    obtain ⟨c, t, ht, hc⟩ := href.exists_cons
    exact hall _ ((hleft.stays.atWordStart_iff ht hc).mpr hstart)
      ((hleft.stays.beginsReference_iff ht hc).mpr href)
  · intro hall pos' hstart' href'
    obtain ⟨c, t', ht', hc⟩ := href'.exists_cons
    obtain ⟨pos, t, hstays, rfl, ht⟩ := exists_place hc ht'
    have href := (hstays.beginsReference_iff ht hc).mp href'
    apply hall pos
    rcases (hstays.atWordStart_iff ht hc).mp hstart' with hstart | htag
    · refine .linked ((href.cases hstart).resolve_right ?_) hstart href
      rintro ⟨x, hx, hno⟩
      rw [hstays.isKept hx] at hno
      cases hno
    · exact .behindTag htag href

/-- Where all segments are kept, every character stays. -/
theorem stays_of_forall (hkept : ∀ x ∈ segments title, x.isKept = true)
    (hlt : pos < title.length) : Stays title pos := by
  have hraw := (segments_spec title).1
  have hall : kept (segments title) = title.take pos ++ title[pos] :: title.drop (pos + 1) := by
    rw [kept_of_forall hkept, hraw, List.getElem_cons_drop, List.take_append_drop]
  obtain ⟨before, x, after, u, v, hsplit, hx, hxraw, htake⟩ := exists_of_kept_eq hall
  have hbefore : kept before = before.flatMap Segment.raw :=
    kept_of_forall fun y hy => hkept y (by rw [hsplit]; simp [hy])
  have hstays := stays_of_split hsplit hx hxraw
  rwa [← List.length_append, ← hbefore, ← htake, List.length_take,
    Nat.min_eq_left (Nat.le_of_lt hlt)] at hstays

theorem AddressedAt.exists_cons (h : AddressedAt title pos address) :
    ∃ c t, title.drop pos = c :: t ∧ Text.isBlank c = false := by
  obtain ⟨-, haddress⟩ := h
  cases ht : title.drop pos with
  | nil =>
    rw [ht] at haddress
    cases haddress
  | cons c t =>
    rw [ht] at haddress
    exact ⟨c, t, rfl, (chars_of_isTagChar (isTagChar_of_addressAt? haddress)).1⟩

/-- **The addresses of a cleaned title** are those of the title, at their places. -/
theorem addressedAt_place (hkept : ∀ x ∈ segments (parse title).cleaned, x.isKept = true) :
    (∀ pos address, AddressedAt title pos address →
      AddressedAt (parse title).cleaned (place title pos) address) ∧
    ∀ pos' address, AddressedAt (parse title).cleaned pos' address →
      ∃ pos, AddressedAt title pos address ∧ place title pos = pos' := by
  constructor
  · intro pos address h
    obtain ⟨c, t, ht, hc⟩ := h.exists_cons
    obtain ⟨-, t', ht', -⟩ := h.1.cleaned ht hc
    refine ⟨stays_of_forall hkept ?_, (h.1.addressAt?_eq ht hc).trans h.2⟩
    rw [← Nat.not_le]
    intro hle
    rw [List.drop_of_length_le hle] at ht'
    cases ht'
  · intro pos' address h
    obtain ⟨c, t', ht', hc⟩ := h.exists_cons
    obtain ⟨pos, t, hstays, rfl, ht⟩ := exists_place hc ht'
    exact ⟨pos, ⟨hstays, (hstays.addressAt?_eq ht hc).symm.trans h.2⟩, rfl⟩

/-- The address of a cleaned title without references is the first one of the title that no link
    of the cleaned title holds. -/
theorem firstAddress_cleaned_iff
    (hkept : ∀ x ∈ segments (parse title).cleaned, x.isKept = true) :
    FirstAddress (parse title).cleaned (Linked (parse title).cleaned) address ↔
      FirstAddress title (LinkedAfter title) address := by
  obtain ⟨hthere, hback⟩ := addressedAt_place hkept
  -- both ways, an earlier address has its counterpart earlier
  constructor
  · rintro ⟨pos', haddress', hout, hfirst⟩
    obtain ⟨pos, haddress, rfl⟩ := hback pos' address haddress'
    refine ⟨pos, haddress, hout, ?_⟩
    intro earlier hlt other hother
    obtain ⟨c, t, ht, hc⟩ := hother.exists_cons
    exact hfirst _ (hother.1.place_lt ht hc hlt) other (hthere _ _ hother)
  · rintro ⟨pos, haddress, hout, hfirst⟩
    refine ⟨place title pos, hthere _ _ haddress, hout, ?_⟩
    intro earlier' hlt other hother'
    obtain ⟨earlier, hother, rfl⟩ := hback _ _ hother'
    apply hfirst earlier _ other hother
    obtain ⟨c, t, ht, hc⟩ := haddress.exists_cons
    rcases Nat.lt_trichotomy earlier pos with hbefore | rfl | hafter
    · exact hbefore
    · exact absurd hlt (Nat.lt_irrefl _)
    · exact absurd hlt (Nat.lt_asymm (haddress.1.place_lt ht hc hafter))

/-- Cleaning settles a title exactly if the cleaned title has no references and the address of
    the title: it is tidy as it is. -/
theorem settled_iff : parse (parse title).cleaned =
      { parse title with project := none, tags := [] } ↔
    (∀ x ∈ segments (parse title).cleaned, x.isKept = true) ∧
      (parse (parse title).cleaned).url = (parse title).url := by
  rw [← parse_references_iff]
  constructor
  · intro hsettled
    rw [hsettled]
    exact ⟨⟨rfl, rfl⟩, rfl⟩
  · rintro ⟨hnone, hurl⟩
    have hkept := parse_references_iff.mp hnone
    have hcleaned : (parse (parse title).cleaned).cleaned = (parse title).cleaned := by
      rw [cleaned_eq_tidy (parse title).cleaned, kept_of_forall hkept, (segments_spec _).1,
        cleaned_eq_tidy title, Text.tidy_tidy]
    generalize parse (parse title).cleaned = again at hnone hurl hcleaned ⊢
    obtain ⟨cleaned, project, tags, url⟩ := again
    obtain ⟨rfl, rfl⟩ := hnone
    obtain rfl := hurl
    obtain rfl := hcleaned
    rfl

/-- Right behind a tag, what begins as a reference stands in no link. -/
theorem BehindTag.not_linked (h : BehindTag title pos) (href : BeginsReference (title.drop pos)) :
    ¬Linked title pos := by
  obtain ⟨start, name, htag, rfl⟩ := h
  rintro ⟨link, hlink, hfrom, hto⟩
  have hraw : (Segment.tag name).raw.length = name.length + 1 := rfl
  -- a link apart from the tag would have to begin with the sign of the reference
  have hapart := hlink.2.apart htag rfl
  have hstart : link.start = start + 1 + name.length := by omega
  have hopen := getElem?_link_start hlink.1
  rw [hstart, ← List.head?_drop] at hopen
  obtain ⟨x, hx, hno⟩ := href
  cases x with
  | text t => cases hno
  | url address => cases hno
  | project name => simp [(tokenAt?_project_iff.mp hx).2.1] at hopen
  | tag name => simp [(tokenAt?_tag_iff.mp hx).2.1] at hopen

/-- Which address comes first depends only on which addresses are hidden. -/
theorem FirstAddress.of_iff {hidden hidden' : Nat → Prop} (h : FirstAddress title hidden address)
    (hsame : ∀ pos other, AddressedAt title pos other → (hidden pos ↔ hidden' pos)) :
    FirstAddress title hidden' address := by
  obtain ⟨pos, haddress, hout, hfirst⟩ := h
  refine ⟨pos, haddress, fun hin => hout ((hsame pos address haddress).mpr hin), ?_⟩
  intro earlier hlt other hother
  exact (hsame earlier other hother).mp (hfirst earlier hlt other hother)

/-- **Cleaning settles a title** exactly if every reference that it leaves stands in a link of the
    cleaned title, and the first address outside of the links is the same for the links before and
    after.  Where no link around such a reference or around an address is made or undone, that is
    so exactly if no tag has a further reference right behind it. -/
theorem parse_cleaned_iff (title : Text) :
    (parse (parse title).cleaned = { parse title with project := none, tags := [] } ↔
      (∀ pos, LeavesReference title pos → LinkedAfter title pos) ∧
        ∀ address, FirstAddress title (Linked title) address ↔
          FirstAddress title (LinkedAfter title) address) ∧
    ((∀ pos, (LeavesReference title pos ∨ ∃ address, AddressedAt title pos address) →
        (Linked title pos ↔ LinkedAfter title pos)) →
      (parse (parse title).cleaned = { parse title with project := none, tags := [] } ↔
        ∀ pos name, StandsAt title pos (.tag name) →
          ¬BeginsReference (title.drop (pos + 1 + name.length)))) := by
  have hexact : parse (parse title).cleaned = { parse title with project := none, tags := [] } ↔
      (∀ pos, LeavesReference title pos → LinkedAfter title pos) ∧
        ∀ address, FirstAddress title (Linked title) address ↔
          FirstAddress title (LinkedAfter title) address := by
    rw [settled_iff, ← cleaned_isKept_iff]
    refine and_congr_right fun hkept => ?_
    rw [eq_comm, Option.ext_iff]
    refine forall_congr' fun address => ?_
    rw [url_eq_some_iff, url_eq_some_iff, firstAddress_cleaned_iff hkept]
  refine ⟨hexact, fun hsame => hexact.trans ?_⟩
  constructor
  · rintro ⟨hleft, -⟩ pos name htag href
    have hbehind : BehindTag title (pos + 1 + name.length) := ⟨pos, name, htag, rfl⟩
    have hleaves : LeavesReference title (pos + 1 + name.length) := .behindTag hbehind href
    exact hbehind.not_linked href ((hsame _ (Or.inl hleaves)).mpr (hleft _ hleaves))
  · intro hno
    constructor
    · intro pos hleaves
      refine (hsame pos (Or.inl hleaves)).mp ?_
      cases hleaves with
      | behindTag htag href =>
        obtain ⟨start, name, htag, rfl⟩ := htag
        exact absurd href (hno start name htag)
      | linked hlinked => exact hlinked
    · intro address
      have hhidden : ∀ pos other, AddressedAt title pos other →
          (Linked title pos ↔ LinkedAfter title pos) :=
        fun pos other hother => hsame pos (Or.inr ⟨other, hother⟩)
      exact ⟨fun h => h.of_iff hhidden, fun h => h.of_iff fun pos other hother =>
        (hhidden pos other hother).symm⟩

/-- A title with brackets, a tag in front of punctuation, a project that takes brackets with it
    and an address is settled: it has no links, and neither has the cleaned title. -/
theorem parse_cleaned_shopping :
    parse (parse "[ ] buy #milk, eggs @home[2] https://shop.example".toList).cleaned =
      { parse "[ ] buy #milk, eggs @home[2] https://shop.example".toList with
        project := none, tags := [] } := by
  have hnone : links "[ ] buy #milk, eggs @home[2] https://shop.example".toList = [] := by
    decide +kernel
  have hnone' :
      links (parse "[ ] buy #milk, eggs @home[2] https://shop.example".toList).cleaned = [] := by
    decide +kernel
  refine ((parse_cleaned_iff _).2 ?_).mpr ?_
  · intro pos _
    refine iff_of_false ?_ ?_
    · rintro ⟨link, ⟨hlink, -⟩, -⟩
      rw [hnone] at hlink
      cases hlink
    · rintro ⟨link, ⟨hlink, -⟩, -⟩
      rw [hnone'] at hlink
      cases hlink
  · intro pos name hstands
    obtain ⟨hsign, -, -, hname, -⟩ := standsAt_tag_iff.mp hstands
    have hone : ∀ pos < 49,
        "[ ] buy #milk, eggs @home[2] https://shop.example".toList[pos]? = some '#' →
          pos = 8 := by
      decide +kernel
    obtain rfl := hone pos (List.getElem?_eq_some_iff.mp hsign).1 hsign
    subst hname
    decide +kernel

/-- **Cleaning does not settle every title.**  With a tag gone, the reference behind it starts a
    word; with a project gone that holds a bracket, a link appears and takes an address in, or
    ends inside another link and lets go of the reference there. -/
theorem cleaned_title_unsettled :
    (parse "#a@bob".toList).cleaned = "@bob".toList ∧
    parse "@bob".toList = ⟨[], some "bob".toList, [], none⟩ ∧
    parse "[a @x] http://u ](c)".toList =
      ⟨"[a http://u ](c)".toList, some "x]".toList, [], some "http://u".toList⟩ ∧
    parse "[a http://u ](c)".toList = ⟨"[a http://u ](c)".toList, none, [], none⟩ ∧
    parse "[a @x]b ](c [see ) @bob](u)".toList =
      ⟨"[a ](c [see ) @bob](u)".toList, some "x]b".toList, [], none⟩ ∧
    parse "[a ](c [see ) @bob](u)".toList =
      ⟨"[a ](c [see )".toList, some "bob](u)".toList, [], none⟩ ∧
    ¬∀ title, parse (parse title).cleaned =
      { parse title with project := none, tags := [] } := by
  refine ⟨by decide +kernel, by decide +kernel, by decide +kernel, by decide +kernel,
    by decide +kernel, by decide +kernel, ?_⟩
  intro hall
  exact absurd (hall "#a@bob".toList) (by decide +kernel)

end cleaned

end Agenda.Title
