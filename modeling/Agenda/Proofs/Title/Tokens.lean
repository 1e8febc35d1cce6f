import Agenda.Proofs.Title.Links

/-! # Where tokens and links stand

    A reference begins at every sign that starts a word and has a name behind it, unless a link
    holds the sign, and nowhere else.  A link stays in one piece of plain text, unless its
    bracket stands in a project reference.  Both follow from what a scan has passed over: every
    place up to its own lies in a token, in a link that is text, or is a character at which
    nothing begins (`Mapped`, kept by every turn).  The theorem for whole titles is
    `tokens_recognized`. -/

namespace Agenda.Title

/-! ## Section 1: Places of segments -/

/-- Among these segments, one after another, `x` stands at `pos`. -/
def StandsIn (parts : List Segment) (pos : Nat) (x : Segment) : Prop :=
  ∃ before after, parts = before ++ x :: after ∧ (before.flatMap Segment.raw).length = pos

/-- Among the segments of the title, `x` stands at `pos`. -/
def StandsAt (title : Text) : Nat → Segment → Prop := StandsIn (segments title)

section places
variable {parts more : List Segment} {pos pos' : Nat} {x y : Segment}

theorem StandsIn.append (h : StandsIn parts pos x) (more : List Segment) :
    StandsIn (parts ++ more) pos x := by
  obtain ⟨before, after, rfl, hpos⟩ := h
  exact ⟨before, after ++ more, by simp, hpos⟩

theorem standsIn_concat_iff : StandsIn (parts ++ [y]) pos x ↔
    StandsIn parts pos x ∨ x = y ∧ (parts.flatMap Segment.raw).length = pos := by
  constructor
  · rintro ⟨before, after, hparts, hpos⟩
    rcases List.eq_nil_or_concat after with rfl | ⟨after, z, rfl⟩
    · obtain ⟨rfl, hx⟩ := List.append_inj' hparts rfl
      obtain rfl : y = x := by simpa using hx
      exact Or.inr ⟨rfl, hpos⟩
    · have hsplit : parts ++ [y] = (before ++ x :: after) ++ [z] := by simpa using hparts
      obtain ⟨rfl, -⟩ := List.append_inj' hsplit rfl
      exact Or.inl ⟨before, after, rfl, hpos⟩
  · rintro (h | ⟨rfl, hpos⟩)
    · exact h.append [y]
    · exact ⟨parts, [], rfl, hpos⟩

/-- A segment that stands somewhere is written there. -/
theorem StandsIn.raw_prefix (h : StandsIn parts pos x) :
    x.raw <+: (parts.flatMap Segment.raw).drop pos := by
  obtain ⟨before, after, rfl, rfl⟩ := h
  refine ⟨after.flatMap Segment.raw, ?_⟩
  rw [List.flatMap_append, List.drop_left, List.flatMap_cons]

/-- Segments that share a character are the same. -/
theorem StandsIn.unique (hx : StandsIn parts pos x) (hy : StandsIn parts pos' y)
    (hlt : pos < pos' + y.raw.length) (hlt' : pos' < pos + x.raw.length) :
    pos = pos' ∧ x = y := by
  obtain ⟨before, after, rfl, rfl⟩ := hx
  obtain ⟨before', after', hparts, rfl⟩ := hy
  rcases List.append_eq_append_iff.mp hparts with ⟨cut, rfl, hcut⟩ | ⟨cut, rfl, hcut⟩
  · cases cut with
    | nil =>
      obtain ⟨rfl, -⟩ := List.cons.inj hcut
      exact ⟨by simp, rfl⟩
    | cons z cut =>
      -- all of `x` stands in front of `y`
      obtain ⟨rfl, -⟩ := List.cons.inj hcut
      simp only [List.flatMap_append, List.flatMap_cons, List.length_append] at hlt'
      omega
  · cases cut with
    | nil =>
      obtain ⟨rfl, -⟩ := List.cons.inj hcut
      exact ⟨by simp, rfl⟩
    | cons z cut =>
      obtain ⟨rfl, -⟩ := List.cons.inj hcut
      simp only [List.flatMap_append, List.flatMap_cons, List.length_append] at hlt
      omega

end places

/-! ## Section 2: What a scan has passed over -/

/-- The link lies in one plain text among the segments. -/
def LiesInText (parts : List Segment) (link : Link) : Prop :=
  ∃ pos t, StandsIn parts pos (.text t) ∧ pos ≤ link.start ∧ link.stop ≤ pos + t.length

/-- At `pos` nothing begins: no link, no reference and no address. -/
def Plain (title : Text) (pos : Nat) : Prop :=
  (∀ link ∈ links title, link.start ≠ pos) ∧
    tokenAt? (title.take pos).getLast? (title.drop pos) = none

/-- Among the segments, `pos` lies in a token or in a link that is text, or nothing begins
    there. -/
inductive Passed (title : Text) (parts : List Segment) (pos : Nat) : Prop where
  | token {start : Nat} {x : Segment} (h : StandsIn parts start x) (hx : x.isText = false)
      (hfrom : start ≤ pos) (hto : pos < start + x.raw.length)
  | link {link : Link} (h : link ∈ links title) (hin : LiesInText parts link)
      (hfrom : link.start ≤ pos) (hto : pos < link.stop)
  | plain (h : Plain title pos)

/-- A token begins where it stands, and no link does. -/
def Begins (title : Text) (pos : Nat) (x : Segment) : Prop :=
  (∀ link ∈ links title, link.start ≠ pos) ∧
    tokenAt? (title.take pos).getLast? (title.drop pos) = some x

/-- These segments go on as those: every token stays, and every text or a longer one. -/
structure GrowsTo (parts parts' : List Segment) : Prop where
  tokens : ∀ pos x, x.isText = false → StandsIn parts pos x → StandsIn parts' pos x
  texts  : ∀ pos t, StandsIn parts pos (.text t) →
    ∃ t', t.length ≤ t'.length ∧ StandsIn parts' pos (.text t')

section growth
variable {title : Text} {parts parts' : List Segment} {pos : Nat} {link : Link}

theorem LiesInText.mono (h : LiesInText parts link) (hgrow : GrowsTo parts parts') :
    LiesInText parts' link := by
  obtain ⟨pos, t, hstands, hfrom, hto⟩ := h
  obtain ⟨t', hle, hstands'⟩ := hgrow.texts pos t hstands
  exact ⟨pos, t', hstands', hfrom, by omega⟩

theorem Passed.mono (h : Passed title parts pos) (hgrow : GrowsTo parts parts') :
    Passed title parts' pos := by
  cases h with
  | token hstands hx hfrom hto => exact .token (hgrow.tokens _ _ hx hstands) hx hfrom hto
  | link hlink hin hfrom hto => exact .link hlink (hin.mono hgrow) hfrom hto
  | plain hplain => exact .plain hplain

end growth

namespace Scan

/-- Up to its place a scan has passed over everything: each token begins where it stands, and
    each place lies in a token or a link or is a character at which nothing begins. -/
structure Mapped (title : Text) (s : Scan) : Prop where
  inside : s.pos ≤ title.length
  tokens : ∀ pos x, StandsIn s.flush pos x → x.isText = false → Begins title pos x
  passed : ∀ pos < s.pos, Passed title s.flush pos

section turns
variable {title : Text} {s s' : Scan} {n : Nat} {x token : Segment} {pos : Nat} {link : Link}

theorem standsIn_flush_iff : StandsIn s.flush pos x ↔ StandsIn s.done pos x ∨
    s.buffer ≠ [] ∧ x = .text s.buffer ∧ (s.done.flatMap Segment.raw).length = pos := by
  unfold flush
  split
  · next hbuffer => simp [hbuffer]
  · next hbuffer => simp [standsIn_concat_iff, hbuffer]

/-- Tokens stay where they are while text is passed over. -/
theorem standsIn_keep_iff (hx : x.isText = false) :
    StandsIn (s.keep title n).flush pos x ↔ StandsIn s.flush pos x := by
  rw [standsIn_flush_iff, standsIn_flush_iff]
  constructor
  · rintro (h | ⟨-, rfl, -⟩)
    · exact Or.inl h
    · cases hx
  · rintro (h | ⟨-, rfl, -⟩)
    · exact Or.inl h
    · cases hx

theorem growsTo_keep (title : Text) (n : Nat) (s : Scan) :
    GrowsTo s.flush (s.keep title n).flush := by
  refine ⟨fun pos x hx => (standsIn_keep_iff hx).mpr, ?_⟩
  intro pos t h
  rcases standsIn_flush_iff.mp h with h | ⟨hne, heq, hpos⟩
  · exact ⟨t, Nat.le_refl _, standsIn_flush_iff.mpr (Or.inl h)⟩
  · cases heq
    refine ⟨s.buffer ++ (title.drop s.pos).take n, by simp, ?_⟩
    exact standsIn_flush_iff.mpr (Or.inr ⟨by simp [keep, hne], rfl, hpos⟩)

theorem flush_emit : (s.emit token).flush = s.flush ++ [token] := rfl

theorem growsTo_emit (token : Segment) (s : Scan) : GrowsTo s.flush (s.emit token).flush := by
  rw [flush_emit]
  exact ⟨fun pos x _ h => h.append _, fun pos t h => ⟨t, Nat.le_refl _, h.append _⟩⟩

theorem mapped_start (title : Text) : Mapped title {} := by
  refine ⟨Nat.zero_le _, ?_, nofun⟩
  intro pos x h
  rcases standsIn_flush_iff.mp h with ⟨before, after, hnil, -⟩ | ⟨hne, -⟩
  · simp at hnil
  · exact absurd rfl hne

/-- After text has been passed over, all is as before, if the text is accounted for. -/
theorem Mapped.keep (h : Mapped title s) (hinside : s.pos + n ≤ title.length)
    (hnew : ∀ pos, s.pos ≤ pos → pos < s.pos + n → Passed title (s.keep title n).flush pos) :
    Mapped title (s.keep title n) := by
  refine ⟨hinside, ?_, ?_⟩
  · intro pos x hstands hx
    exact h.tokens pos x ((standsIn_keep_iff hx).mp hstands) hx
  · intro pos hpos
    rcases Nat.lt_or_ge pos s.pos with hlt | hge
    · exact (h.passed pos hlt).mono (growsTo_keep title n s)
    · exact hnew pos hge hpos

/-- A link that is passed over lies in the text at the end. -/
theorem Sound.liesInText (h : Sound title s) (hinside : link.stop ≤ title.length)
    (hstart : link.start = s.pos) : LiesInText (s.keep title (link.stop - s.pos)).flush link := by
  have hlt := link.start_lt_stop
  have hlength := congrArg List.length h.passed
  rw [List.length_append, List.length_take] at hlength
  have hmore : ((title.drop s.pos).take (link.stop - s.pos)).length = link.stop - s.pos := by
    rw [List.length_take, List.length_drop]
    omega
  have hne : s.buffer ++ (title.drop s.pos).take (link.stop - s.pos) ≠ [] := by
    intro hnil
    rw [(List.append_eq_nil_iff.mp hnil).2] at hmore
    simp at hmore
    omega
  refine ⟨_, _, standsIn_flush_iff.mpr (Or.inr ⟨hne, rfl, rfl⟩), ?_, ?_⟩
  · show (s.done.flatMap Segment.raw).length ≤ link.start
    omega
  · show link.stop ≤ (s.done.flatMap Segment.raw).length +
      (s.buffer ++ (title.drop s.pos).take (link.stop - s.pos)).length
    rw [List.length_append, hmore]
    omega

theorem Mapped.emit (h : Mapped title s) (hs : Sound title s)
    (hbegins : Begins title s.pos token) : Mapped title (s.emit token) := by
  obtain ⟨hraw, -, htext⟩ := tokenAt?_spec hbegins.2
  have hlength : (s.flush.flatMap Segment.raw).length = s.pos := by
    rw [hs.flush.1, List.length_take, Nat.min_eq_left h.inside]
  have hinside := hraw.length_le
  rw [List.length_drop] at hinside
  have hpos := h.inside
  refine ⟨?_, ?_, ?_⟩
  · show s.pos + token.raw.length ≤ title.length
    omega
  · intro pos x hstands hx
    rw [flush_emit] at hstands
    rcases standsIn_concat_iff.mp hstands with hstands | ⟨rfl, hat⟩
    · exact h.tokens pos x hstands hx
    · rwa [← hat, hlength]
  · intro pos hlt
    rcases Nat.lt_or_ge pos s.pos with hbefore | hfrom
    · exact (h.passed pos hbefore).mono (growsTo_emit token s)
    · rw [flush_emit]
      exact .token (standsIn_concat_iff.mpr (Or.inr ⟨rfl, hlength⟩)) htext hfrom hlt

/-- **A turn accounts for what it passes over.** -/
theorem Mapped.turn (h : Mapped title s) (hs : Sound title s)
    (hturn : s.turn title (links title) = some s') : Mapped title s' := by
  obtain ⟨hlt, ⟨link, hlink, hstart, rfl⟩ | ⟨hapart, ⟨token, htoken, rfl⟩ | ⟨hno, rfl⟩⟩⟩ :=
    turn_cases hturn
  · have hstop := (mem_links hlink).1
    have hlies := hs.liesInText hstop hstart
    have hle := link.start_lt_stop
    apply h.keep (by omega)
    intro pos hfrom hto
    exact .link hlink hlies (by omega) (by omega)
  · exact h.emit hs ⟨hapart, htoken⟩
  · apply h.keep (by omega)
    intro pos hfrom hto
    obtain rfl : pos = s.pos := by omega
    exact .plain ⟨hapart, hno⟩

theorem Runs.mapped (h : Runs title s n s') (hs : Sound title s) (hm : Mapped title s) :
    Mapped title s' := by
  induction h with
  | stay s => exact hm
  | turn hturn _ ih => exact ih (hs.turn hturn) (hm.turn hs hturn)

end turns

end Scan

/-! ## Section 3: Whole titles -/

/-- A link of the title that one of its texts holds as a whole. -/
def Protected (title : Text) (link : Link) : Prop :=
  link ∈ links title ∧ LiesInText (segments title) link

/-- At `pos` the title refers to something: a sign at the start of a word, outside of the
    protected links, with a name of characters in `p` behind it, all that stand there. -/
structure RefersAt (title : Text) (sign : Char) (p : Char → Bool) (pos : Nat) (name : Text) :
    Prop where
  sign      : title[pos]? = some sign
  wordStart : ∀ c ∈ (title.take pos).getLast?, Text.isBlank c = true
  outside   : ∀ link, Protected title link → ¬(link.start ≤ pos ∧ pos < link.stop)
  longest   : (title.drop (pos + 1)).takeWhile p = name
  nonempty  : name ≠ []

section whole
variable {title name t address : Text} {pos pos' : Nat} {prev : Option Char} {x y : Segment}
  {link : Link} {c : Char}

/-- The segments of a title account for all of it. -/
theorem segments_mapped (title : Text) :
    (∀ pos x, StandsAt title pos x → x.isText = false → Begins title pos x) ∧
      ∀ pos < title.length, Passed title (segments title) pos := by
  obtain ⟨n, last, hruns, hlast, hrun⟩ := Scan.exists_runs title {}
  obtain ⟨-, htokens, hpassed⟩ := hruns.mapped (Scan.sound_start title) (Scan.mapped_start title)
  have hend := Scan.turn_eq_none_iff.mp hlast
  unfold StandsAt segments
  rw [hrun]
  exact ⟨htokens, fun pos hpos => hpassed pos (Nat.lt_of_lt_of_le hpos hend)⟩

/-- A segment that stands in a title is written there. -/
theorem StandsAt.raw_prefix (h : StandsAt title pos x) : x.raw <+: title.drop pos := by
  have hraw := StandsIn.raw_prefix h
  rwa [(segments_spec title).1] at hraw

/-- A link in a text and a token share no character. -/
theorem LiesInText.apart (h : LiesInText (segments title) link) (hx : StandsAt title pos x)
    (htoken : x.isText = false) : pos + x.raw.length ≤ link.start ∨ link.stop ≤ pos := by
  obtain ⟨start, t, htext, hfrom, hto⟩ := h
  have hlink := link.start_lt_stop
  by_contra hshare
  rw [not_or, Nat.not_le, Nat.not_le] at hshare
  obtain ⟨-, rfl⟩ := StandsIn.unique hx htext (Nat.lt_of_lt_of_le hshare.2 hto)
    (Nat.lt_of_le_of_lt hfrom hshare.1)
  cases htoken

/-- A token holds no blank, and only a project's name can hold a bracket. -/
theorem chars_of_tokenAt? (h : tokenAt? prev t = some x) (hc : c ∈ x.raw) :
    Text.isBlank c = false ∧ (c = '[' → ∃ name, x = .project name) := by
  cases x with
  | text t => cases (tokenAt?_spec h).2.2
  | project name =>
    obtain ⟨-, -, rfl, -⟩ := tokenAt?_project_iff.mp h
    refine ⟨?_, fun _ => ⟨_, rfl⟩⟩
    rcases List.mem_cons.mp hc with rfl | hc
    · decide +kernel
    · simpa using List.mem_takeWhile_imp hc
  | tag name =>
    obtain ⟨-, -, rfl, -⟩ := tokenAt?_tag_iff.mp h
    rcases List.mem_cons.mp hc with rfl | hc
    · exact ⟨by decide +kernel, fun h => absurd h (by decide)⟩
    · obtain ⟨hblank, hopen⟩ := chars_of_isTagChar (List.mem_takeWhile_imp hc)
      exact ⟨hblank, fun heq => absurd heq hopen⟩
  | url address =>
    obtain ⟨hblank, hopen⟩ := chars_of_addressAt? (addressAt?_of_tokenAt? h) hc
    exact ⟨hblank, fun heq => absurd heq hopen⟩

/-- A character of a token, by its place in the title. -/
theorem StandsAt.mem_raw (h : StandsAt title pos x) (hfrom : pos ≤ pos')
    (hto : pos' < pos + x.raw.length) (hc : title[pos']? = some c) : c ∈ x.raw := by
  obtain ⟨after, hafter⟩ := h.raw_prefix
  obtain ⟨k, rfl⟩ := Nat.exists_eq_add_of_le hfrom
  rw [← List.getElem?_drop, ← hafter, List.getElem?_append_left (by omega)] at hc
  exact List.mem_of_getElem? hc

/-- At a place outside of the protected links, at the start of a word, stands the token that
    begins there. -/
theorem standsAt_of_tokenAt? (h : tokenAt? (title.take pos).getLast? (title.drop pos) = some x)
    (hstart : ∀ c ∈ (title.take pos).getLast?, Text.isBlank c = true)
    (hout : ∀ link, Protected title link → ¬(link.start ≤ pos ∧ pos < link.stop)) :
    StandsAt title pos x := by
  obtain ⟨htokens, hpassed⟩ := segments_mapped title
  have hlt : pos < title.length := by
    rw [← Nat.not_le]
    intro hle
    rw [List.drop_of_length_le hle] at h
    cases h
  cases hpassed pos hlt with
  | @token start y hstands hy hfrom hto =>
    have hbegins := htokens start y hstands hy
    rcases Nat.eq_or_lt_of_le hfrom with rfl | hbefore
    · obtain rfl : y = x := Option.some.inj (hbegins.2.symm.trans h)
      exact hstands
    · -- the character in front is blank and belongs to the token
      have hprev : (title.take pos).getLast? = some title[pos - 1] := by
        rw [List.getLast?_take, if_neg (by omega), List.getElem?_eq_getElem (by omega)]
        rfl
      have hblank := hstart _ hprev
      have hmem : title[pos - 1] ∈ y.raw :=
        StandsAt.mem_raw hstands (by omega) (by omega) (List.getElem?_eq_getElem (by omega))
      rw [(chars_of_tokenAt? hbegins.2 hmem).1] at hblank
      cases hblank
  | link hlink hin hfrom hto => exact absurd ⟨hfrom, hto⟩ (hout _ ⟨hlink, hin⟩)
  | plain hplain =>
    rw [hplain.2] at h
    cases h

/-- A token stands outside of the protected links. -/
theorem StandsAt.outside (h : StandsAt title pos x) (hx : x.isText = false)
    (hlink : Protected title link) : ¬(link.start ≤ pos ∧ pos < link.stop) := by
  have hne := List.length_pos_iff.mpr (tokenAt?_raw_ne_nil ((segments_mapped title).1 pos x h hx).2)
  have hapart := hlink.2.apart h hx
  omega

theorem atWordStart_iff : atWordStart prev = true ↔ ∀ c ∈ prev, Text.isBlank c = true := by
  cases prev <;> simp [atWordStart]

theorem standsAt_project_iff :
    StandsAt title pos (.project name) ↔ RefersAt title '@' (!Text.isBlank ·) pos name := by
  constructor
  · intro h
    obtain ⟨hstart, hsign, hname, hne⟩ :=
      tokenAt?_project_iff.mp ((segments_mapped title).1 pos _ h rfl).2
    rw [List.head?_drop] at hsign
    rw [List.tail_drop] at hname
    exact ⟨hsign, atWordStart_iff.mp hstart, fun link hlink => h.outside rfl hlink, hname, hne⟩
  · rintro ⟨hsign, hstart, hout, hname, hne⟩
    refine standsAt_of_tokenAt? (tokenAt?_project_iff.mpr ?_) hstart hout
    rw [List.head?_drop, List.tail_drop]
    exact ⟨atWordStart_iff.mpr hstart, hsign, hname, hne⟩

theorem standsAt_tag_iff :
    StandsAt title pos (.tag name) ↔ RefersAt title '#' isTagChar pos name := by
  constructor
  · intro h
    obtain ⟨hstart, hsign, hname, hne⟩ :=
      tokenAt?_tag_iff.mp ((segments_mapped title).1 pos _ h rfl).2
    rw [List.head?_drop] at hsign
    rw [List.tail_drop] at hname
    exact ⟨hsign, atWordStart_iff.mp hstart, fun link hlink => h.outside rfl hlink, hname, hne⟩
  · rintro ⟨hsign, hstart, hout, hname, hne⟩
    refine standsAt_of_tokenAt? (tokenAt?_tag_iff.mpr ?_) hstart hout
    rw [List.head?_drop, List.tail_drop]
    exact ⟨atWordStart_iff.mpr hstart, hsign, hname, hne⟩

/-- **A link is protected** unless its bracket stands inside a project reference. -/
theorem liesInText_iff (hlink : link ∈ links title) : LiesInText (segments title) link ↔
    ¬∃ pos name, StandsAt title pos (.project name) ∧ pos < link.start ∧
      link.start < pos + 1 + name.length := by
  obtain ⟨htokens, hpassed⟩ := segments_mapped title
  have hlt := link.start_lt_stop
  constructor
  · rintro hin ⟨pos, name, hstands, hfrom, hto⟩
    have hapart := hin.apart hstands rfl
    have hraw : (Segment.project name).raw.length = name.length + 1 := rfl
    omega
  · intro hno
    have hstop := (mem_links hlink).1
    cases hpassed link.start (by omega) with
    | @token start x hstands hx hfrom hto =>
      -- a token does not begin at a link, and only a project has a bracket inside
      have hbegins := htokens start x hstands hx
      have hne : start ≠ link.start := fun heq => hbegins.1 link hlink heq.symm
      have hmem := StandsAt.mem_raw hstands hfrom hto (getElem?_link_start hlink)
      obtain ⟨name, rfl⟩ := (chars_of_tokenAt? hbegins.2 hmem).2 rfl
      have hraw : (Segment.project name).raw.length = name.length + 1 := rfl
      exact absurd ⟨start, name, hstands, by omega, by omega⟩ hno
    | link hother hin hfrom hto =>
      obtain rfl := links_unique hlink hother hto (by omega)
      exact hin
    | plain hplain => exact absurd rfl (hplain.1 link hlink)

end whole

end Agenda.Title
