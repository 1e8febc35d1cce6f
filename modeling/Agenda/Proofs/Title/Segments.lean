import Agenda.Proofs.Text.Words
import Agenda.Text.CaseLemmas
import Agenda.Title
import Mathlib.Data.List.Chain
import Mathlib.Data.List.Nodup

/-! # Titles lose nothing

    The scan of a title passes over every character once: what it has put into segments and what
    stands in its buffer are together the title up to where it has come.  It is over after at
    most as many turns as the title has characters, and its segments, none of them empty and no
    two of them text side by side, are the title.  What a title says is gathered from all of
    them (`title_accounted`). -/

namespace Agenda

/-! ## Section 1: Segments -/

namespace Segment

/-- What a segment holds, without the sign of a reference. -/
def content : Segment → Text
  | text t => t
  | project name => name
  | tag name => name
  | url address => address

/-- Is the segment plain text? -/
def isText : Segment → Bool
  | text _ => true
  | _ => false

/-- Does the segment stay in a cleaned title? -/
def isKept : Segment → Bool
  | text _ => true
  | url _ => true
  | _ => false

/-- The project that a segment names. -/
def project? : Segment → Option Text
  | project name => some name
  | _ => none

/-- The tag that a segment names. -/
def tag? : Segment → Option Text
  | tag name => some name
  | _ => none

/-- The address that a segment is. -/
def url? : Segment → Option Text
  | url address => some address
  | _ => none

end Segment

namespace Title

section tokens
variable {prev : Option Char} {t address : Text} {token : Segment}

theorem addressAt?_spec (h : addressAt? prev t = some address) :
    address <+: t ∧ address ≠ [] := by
  unfold addressAt? at h
  split at h
  · next rest hrest =>
    dsimp only at h
    split at h
    · obtain rfl := Option.some.inj h
      refine ⟨?_, by simp⟩
      -- a scheme is taken from the front, and the body from the front of what follows
      obtain ⟨cut, hcut⟩ := Text.dropEndWhile_suffix (p := isTrailing)
        (rest.takeWhile isAddressChar)
      have hbody := List.takeWhile_append_dropWhile (p := isAddressChar) (l := rest)
      have hscheme := List.takeWhile_append_dropWhile (p := isSchemeChar) (l := t)
      rw [hcut, List.append_assoc] at hbody
      rw [hrest, ← hbody] at hscheme
      refine ⟨cut ++ rest.dropWhile isAddressChar, Eq.trans ?_ hscheme⟩
      simp
    · cases h
  · cases h

/-- A token stands there as it is written, has a name or an address, and is no plain text. -/
theorem tokenAt?_spec (h : tokenAt? prev t = some token) :
    token.raw <+: t ∧ token.content ≠ [] ∧ token.isText = false := by
  cases t with
  | nil => cases h
  | cons c rest =>
    dsimp only [tokenAt?] at h
    split at h
    · next hproject =>
      obtain ⟨-, rfl, hne⟩ := hproject
      obtain rfl := Option.some.inj h
      exact ⟨List.prefix_cons_inj '@' |>.mpr (List.takeWhile_prefix _), hne, rfl⟩
    · split at h
      · next htag =>
        obtain ⟨-, rfl, hne⟩ := htag
        obtain rfl := Option.some.inj h
        exact ⟨List.prefix_cons_inj '#' |>.mpr (List.takeWhile_prefix _), hne, rfl⟩
      · obtain ⟨address, haddress, rfl⟩ := Option.map_eq_some_iff.mp h
        obtain ⟨hfront, hne⟩ := addressAt?_spec haddress
        exact ⟨hfront, hne, rfl⟩

end tokens

/-! ## Section 2: One turn -/

/-- Not both are plain text. -/
def Apart (x y : Segment) : Prop := ¬(x.isText = true ∧ y.isText = true)

namespace Scan

/-- What has been passed over is in the segments and the buffer, and the segments are as they
    should be: none is empty, no two plain texts stand side by side, and the last one is a
    token. -/
structure Sound (title : Text) (s : Scan) : Prop where
  passed    : s.done.flatMap Segment.raw ++ s.buffer = title.take s.pos
  nonempty  : ∀ x ∈ s.done, x.content ≠ []
  apart     : s.done.IsChain Apart
  lastToken : ∀ x ∈ s.done.getLast?, x.isText = false

section turns
variable {title : Text} {links : List Link} {s s' : Scan} {token : Segment}

theorem sound_start (title : Text) : Sound title {} := by
  refine ⟨?_, ?_, ?_, ?_⟩ <;> simp

theorem Sound.keep (h : Sound title s) (n : Nat) : Sound title (s.keep title n) := by
  refine ⟨?_, h.nonempty, h.apart, h.lastToken⟩
  show s.done.flatMap Segment.raw ++ (s.buffer ++ (title.drop s.pos).take n) = _
  rw [← List.append_assoc, h.passed]
  exact List.take_add.symm

/-- With the buffer as one more segment, the segments are all that has been passed over. -/
theorem Sound.flush (h : Sound title s) : s.flush.flatMap Segment.raw = title.take s.pos ∧
    (∀ x ∈ s.flush, x.content ≠ []) ∧ s.flush.IsChain Apart := by
  have hpassed := h.passed
  unfold Scan.flush
  by_cases hbuffer : s.buffer = []
  · rw [if_pos hbuffer]
    rw [hbuffer, List.append_nil] at hpassed
    exact ⟨hpassed, h.nonempty, h.apart⟩
  · rw [if_neg hbuffer]
    refine ⟨?_, ?_, ?_⟩
    · rw [← hpassed]
      simp [Segment.raw]
    · intro x hx
      rcases List.mem_append.mp hx with hx | hx
      · exact h.nonempty x hx
      · obtain rfl := List.mem_singleton.mp hx
        exact hbuffer
    · -- what stands before the buffer is a token
      rw [List.isChain_append]
      refine ⟨h.apart, List.isChain_singleton _, ?_⟩
      intro x hx y _ hboth
      rw [h.lastToken x hx] at hboth
      cases hboth.1

theorem Sound.emit (h : Sound title s) (hraw : token.raw <+: title.drop s.pos)
    (hcontent : token.content ≠ []) (htoken : token.isText = false) :
    Sound title (s.emit token) := by
  obtain ⟨hpassed, hnonempty, hapart⟩ := h.flush
  -- the buffer is empty again, and the token comes last
  refine ⟨?_, ?_, ?_, ?_⟩
  · show (s.flush ++ [token]).flatMap Segment.raw ++ [] = title.take (s.pos + token.raw.length)
    rw [List.append_nil, List.flatMap_append, hpassed, List.flatMap_singleton, List.take_add,
      ← List.prefix_iff_eq_take.mp hraw]
  · intro x hx
    rcases List.mem_append.mp hx with hx | hx
    · exact hnonempty x hx
    · obtain rfl := List.mem_singleton.mp hx
      exact hcontent
  · show (s.flush ++ [token]).IsChain Apart
    rw [List.isChain_append]
    refine ⟨hapart, List.isChain_singleton _, ?_⟩
    rintro x - y ⟨⟩ hboth
    rw [htoken] at hboth
    cases hboth.2
  · show ∀ x ∈ (s.flush ++ [token]).getLast?, x.isText = false
    rw [List.getLast?_concat]
    rintro x ⟨⟩
    exact htoken

/-- **A turn loses nothing.** -/
theorem Sound.turn (h : Sound title s) (hturn : s.turn title links = some s') :
    Sound title s' := by
  obtain ⟨-, ⟨link, -, -, rfl⟩ | ⟨-, ⟨token, htoken, rfl⟩ | ⟨-, rfl⟩⟩⟩ := turn_cases hturn
  · exact h.keep _
  · obtain ⟨hraw, hcontent, htext⟩ := tokenAt?_spec htoken
    exact h.emit hraw hcontent htext
  · exact h.keep 1

/-- A scan that is over gives its segments. -/
theorem run_of_none (h : s.turn title links = none) : run title links s = s.flush := by
  rw [run]
  split
  · rfl
  · next hnext =>
    rw [h] at hnext
    cases hnext

/-- A scan that takes a turn gives what it gives after the turn. -/
theorem run_of_turn (h : s.turn title links = some s') :
    run title links s = run title links s' := by
  rw [run]
  split
  · next hnone =>
    rw [h] at hnone
    cases hnone
  · next hnext =>
    obtain rfl := Option.some.inj (h.symm.trans hnext)
    rfl

theorem turn_eq_none_iff : s.turn title links = none ↔ title.length ≤ s.pos := by
  unfold Scan.turn
  split
  · next h => simp [h]
  · next h =>
    refine iff_of_false ?_ h
    split
    · simp
    · split <;> simp

end turns

/-! ## Section 3: Runs -/

/-- The scan of a title comes from one state to another in so many turns. -/
inductive Runs (title : Text) : Scan → Nat → Scan → Prop where
  | stay (s : Scan) : Runs title s 0 s
  | turn {s s' s'' : Scan} {n : Nat} (h : s.turn title (links title) = some s')
      (hrest : Runs title s' n s'') : Runs title s (n + 1) s''

section runs
variable {title : Text} {s s' : Scan} {n : Nat}

theorem Runs.sound (h : Runs title s n s') (hs : Sound title s) : Sound title s' := by
  induction h with
  | stay s => exact hs
  | turn hturn _ ih => exact ih (hs.turn hturn)

/-- **Every turn takes a character of the title**, so no run is longer than what is left. -/
theorem Runs.le (h : Runs title s n s') : n ≤ title.length - s.pos := by
  induction h with
  | stay s => exact Nat.zero_le _
  | turn hturn _ ih =>
    obtain ⟨hpos, hlt⟩ := pos_lt_of_turn hturn
    omega

/-- **A scan comes to its end**, with the segments that it gives. -/
theorem exists_runs (title : Text) (s : Scan) : ∃ n last, Runs title s n last ∧
    last.turn title (links title) = none ∧ run title (links title) s = last.flush := by
  -- on the turns that the scan takes
  induction s using run.induct title (links title) with
  | case1 s hnone =>
    exact ⟨0, s, .stay s, hnone, run_of_none hnone⟩
  | case2 s next hturn ih =>
    obtain ⟨n, last, hruns, hlast, hrun⟩ := ih
    exact ⟨n + 1, last, .turn hturn hruns, hlast, (run_of_turn hturn).trans hrun⟩

end runs

end Scan

/-- **The segments of a title are the title**, none is empty, and no two plain texts stand side
    by side. -/
theorem segments_spec (title : Text) : (segments title).flatMap Segment.raw = title ∧
    (∀ x ∈ segments title, x.content ≠ []) ∧ (segments title).IsChain Apart := by
  obtain ⟨n, last, hruns, hlast, hrun⟩ := Scan.exists_runs title {}
  obtain ⟨hpassed, hnonempty, hapart⟩ := (hruns.sound (Scan.sound_start title)).flush
  have hend : title.take last.pos = title :=
    List.take_of_length_le (Scan.turn_eq_none_iff.mp hlast)
  unfold segments
  rw [hrun]
  exact ⟨hpassed.trans hend, hnonempty, hapart⟩

/-! ## Section 4: What a title says -/

/-- The list has the values of another one, each once, in the order in which they appear there
    first. -/
structure FirstOccurrences (values firsts : List Text) : Prop where
  nodup   : firsts.Nodup
  mem_iff : ∀ x, x ∈ firsts ↔ x ∈ values
  ordered : firsts.Pairwise fun x y => values.idxOf x < values.idxOf y

section gathering
variable {values firsts : List Text} {a : Text} {g : Gathered} {parts : List Segment}

theorem firstOccurrences_nil : FirstOccurrences [] [] := by
  refine ⟨List.nodup_nil, ?_, List.Pairwise.nil⟩
  simp

theorem FirstOccurrences.ordered_append (h : FirstOccurrences values firsts) :
    firsts.Pairwise fun x y => (values ++ [a]).idxOf x < (values ++ [a]).idxOf y := by
  apply h.ordered.imp_of_mem
  intro x y hx hy hlt
  rwa [List.idxOf_append_of_mem ((h.mem_iff x).mp hx),
    List.idxOf_append_of_mem ((h.mem_iff y).mp hy)]

/-- A value that has appeared before changes nothing. -/
theorem FirstOccurrences.again (h : FirstOccurrences values firsts) (ha : a ∈ firsts) :
    FirstOccurrences (values ++ [a]) firsts := by
  refine ⟨h.nodup, ?_, h.ordered_append⟩
  intro x
  rw [List.mem_append, List.mem_singleton, ← h.mem_iff]
  constructor
  · exact Or.inl
  · rintro (hx | rfl)
    · exact hx
    · exact ha

/-- A new value appears after all others. -/
theorem FirstOccurrences.first (h : FirstOccurrences values firsts) (ha : a ∉ firsts) :
    FirstOccurrences (values ++ [a]) (firsts ++ [a]) := by
  have hvalues : a ∉ values := fun hmem => ha ((h.mem_iff a).mpr hmem)
  refine ⟨?_, ?_, ?_⟩
  · exact List.nodup_append_comm.mp (List.nodup_cons.mpr ⟨ha, h.nodup⟩)
  · intro x
    rw [List.mem_append, List.mem_append, h.mem_iff]
  · refine List.pairwise_append.mpr ⟨h.ordered_append, List.pairwise_singleton _ _, ?_⟩
    intro x hx y hy
    obtain rfl := List.mem_singleton.mp hy
    have hmem := (h.mem_iff x).mp hx
    rw [List.idxOf_append_of_mem hmem, List.idxOf_append_of_notMem hvalues]
    exact Nat.lt_of_lt_of_le (List.idxOf_lt_length_of_mem hmem) (Nat.le_add_right _ _)

/-- What has been gathered is what these segments say. -/
structure Tells (g : Gathered) (parts : List Segment) : Prop where
  kept    : g.kept = (parts.filter Segment.isKept).flatMap Segment.raw
  project : g.project = (parts.filterMap Segment.project?).getLast?
  tags    : FirstOccurrences ((parts.filterMap Segment.tag?).map Text.lower) g.tags
  url     : g.url = (parts.filterMap Segment.url?).head?

/-- One more segment says what it is. -/
theorem Tells.add (h : Tells g parts) (x : Segment) : Tells (g.add x) (parts ++ [x]) := by
  obtain ⟨hkept, hproject, htags, hurl⟩ := h
  -- for each thing, what the segment adds to it
  suffices hadd : (g.add x).kept = g.kept ++ ([x].filter Segment.isKept).flatMap Segment.raw ∧
      (g.add x).project = ([x].filterMap Segment.project?).getLast?.or g.project ∧
      FirstOccurrences ((parts.filterMap Segment.tag?).map Text.lower ++
        ([x].filterMap Segment.tag?).map Text.lower) (g.add x).tags ∧
      (g.add x).url = g.url.or ([x].filterMap Segment.url?).head? by
    obtain ⟨hkept', hproject', htags', hurl'⟩ := hadd
    refine ⟨?_, ?_, ?_, ?_⟩
    · rw [hkept', hkept, List.filter_append, List.flatMap_append]
    · rw [hproject', hproject, List.filterMap_append, List.getLast?_append]
    · rwa [List.filterMap_append, List.map_append]
    · rw [hurl', hurl, List.filterMap_append, List.head?_append]
  cases x with
  | text t =>
    refine ⟨?_, rfl, ?_, Option.or_none.symm⟩
    · show g.kept ++ t = g.kept ++ (t ++ [])
      rw [List.append_nil]
    · show FirstOccurrences (_ ++ []) g.tags
      rwa [List.append_nil]
  | project name =>
    refine ⟨(List.append_nil _).symm, rfl, ?_, Option.or_none.symm⟩
    show FirstOccurrences (_ ++ []) g.tags
    rwa [List.append_nil]
  | tag name =>
    have hcases : g.add (.tag name) = if Text.lower name ∈ g.tags then g
        else { g with tags := g.tags ++ [Text.lower name] } := rfl
    by_cases hseen : Text.lower name ∈ g.tags
    · rw [hcases, if_pos hseen]
      exact ⟨(List.append_nil _).symm, rfl, htags.again hseen, Option.or_none.symm⟩
    · rw [hcases, if_neg hseen]
      exact ⟨(List.append_nil _).symm, rfl, htags.first hseen, Option.or_none.symm⟩
  | url address =>
    refine ⟨?_, rfl, ?_, ?_⟩
    · show g.kept ++ address = g.kept ++ (address ++ [])
      rw [List.append_nil]
    · show FirstOccurrences (_ ++ []) g.tags
      rwa [List.append_nil]
    · show (g.url <|> some address) = g.url.or (some address)
      cases g.url <;> rfl

theorem tells_foldl (parts : List Segment) : Tells (parts.foldl Gathered.add {}) parts := by
  -- segments are added at the end, so the induction takes them off there
  induction parts using List.reverseRecOn with
  | nil => exact ⟨rfl, rfl, firstOccurrences_nil, rfl⟩
  | append_singleton parts x ih =>
    rw [List.foldl_append]
    exact ih.add x

end gathering

/-- **A title is accounted for.**  Its segments are the title, none is empty, and no two plain
    texts stand side by side.  No run of the scan takes more turns than the title has
    characters, and one comes to the end, with these segments.  The cleaned title is the words
    of the texts and addresses, a blank between any two; the tags are the first occurrences of
    the tags' names in small letters; the project is the last one, and the address the first. -/
theorem title_accounted (title : Text) :
    ((segments title).flatMap Segment.raw = title ∧
      (∀ x ∈ segments title, x.content ≠ []) ∧ (segments title).IsChain Apart) ∧
    ((∀ n s, Scan.Runs title {} n s → n ≤ title.length) ∧
      ∃ n last, Scan.Runs title {} n last ∧ last.turn title (links title) = none ∧
        segments title = last.flush) ∧
    (∃ ws, Text.HasWords (((segments title).filter Segment.isKept).flatMap Segment.raw) ws ∧
      (parse title).cleaned = Text.join [' '] ws) ∧
    FirstOccurrences (((segments title).filterMap Segment.tag?).map Text.lower)
      (parse title).tags ∧
    (parse title).project = ((segments title).filterMap Segment.project?).getLast? ∧
    (parse title).url = ((segments title).filterMap Segment.url?).head? := by
  have htells := tells_foldl (segments title)
  refine ⟨segments_spec title, ⟨?_, Scan.exists_runs title {}⟩, ?_, htells.tags,
    htells.project, htells.url⟩
  · intro n s hruns
    -- the scan starts at the front, so all of the title is left
    exact hruns.le
  · rw [← htells.kept]
    exact ⟨_, Text.hasWords_words _, rfl⟩

end Title

end Agenda
