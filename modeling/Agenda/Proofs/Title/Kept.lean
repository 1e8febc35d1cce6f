import Agenda.Proofs.Text.Tidy
import Agenda.Proofs.Title.Beginnings

/-! # What cleaning keeps

    Cleaning takes the references out of a title and evens out its blanks, so a character that
    stays comes to stand at another place (`place`).  The rest of its word stays with it, and
    what stands before it is the same or a blank for a blank, unless a tag stood right before it
    (`Stays.around`).  So the same begins there before and after cleaning, up to a reference
    right behind a tag, which then starts a word. -/

namespace Agenda.Title

/-! ## Section 1: Kept characters -/

/-- The segments of a text that are kept, as they stand. -/
def kept (xs : List Segment) : Text := (xs.filter Segment.isKept).flatMap Segment.raw

/-- What is kept of the first `n` characters of these segments. -/
def keptBefore : List Segment → Nat → Text
  | [], _ => []
  | x :: xs, n => (if x.isKept then x.raw.take n else []) ++ keptBefore xs (n - x.raw.length)

/-- The character at `pos` is not part of a reference. -/
def Stays (title : Text) (pos : Nat) : Prop := ∃ start x, StandsAt title start x ∧
  x.isKept = true ∧ start ≤ pos ∧ pos < start + x.raw.length

/-- A tag stands right before `pos`. -/
def BehindTag (title : Text) (pos : Nat) : Prop := ∃ start name,
  StandsAt title start (.tag name) ∧ pos = start + 1 + name.length

/-- Where the character at `pos` stands in the cleaned title. -/
def place (title : Text) (pos : Nat) : Nat :=
  (Text.front false false (keptBefore (segments title) pos)).length

section kept
variable {xs before after : List Segment} {x : Segment} {c : Char} {u v k k' : Text}

@[simp] theorem kept_nil : kept [] = [] := rfl

theorem kept_append (xs ys : List Segment) : kept (xs ++ ys) = kept xs ++ kept ys := by
  simp [kept]

theorem kept_cons_of_isKept (h : x.isKept = true) : kept (x :: xs) = x.raw ++ kept xs := by
  simp [kept, h]

theorem kept_cons_of_not_isKept (h : x.isKept = false) : kept (x :: xs) = kept xs := by
  simp [kept, h]

/-- Where everything is kept, that is the text. -/
theorem kept_of_forall (h : ∀ x ∈ xs, x.isKept = true) : kept xs = xs.flatMap Segment.raw := by
  rw [kept, List.filter_eq_self.mpr h]

theorem keptBefore_zero (xs : List Segment) : keptBefore xs 0 = [] := by
  induction xs with
  | nil => rfl
  | cons x xs ih => simp [keptBefore, ih]

theorem keptBefore_append (before xs : List Segment) (n : Nat) :
    keptBefore (before ++ xs) ((before.flatMap Segment.raw).length + n) =
      kept before ++ keptBefore xs n := by
  induction before with
  | nil => simp
  | cons y before ih =>
    have hlength : ((y :: before).flatMap Segment.raw).length + n =
        y.raw.length + ((before.flatMap Segment.raw).length + n) := by
      rw [List.flatMap_cons, List.length_append, Nat.add_assoc]
    rw [List.cons_append, hlength, keptBefore, Nat.add_sub_cancel_left, ih,
      List.take_of_length_le (Nat.le_add_right _ _)]
    cases hy : y.isKept with
    | true => rw [kept_cons_of_isKept hy, List.append_assoc]; rfl
    | false => rw [kept_cons_of_not_isKept hy]; rfl

/-- Up to a place in a segment that is kept: what is kept before it, and its part up to there. -/
theorem keptBefore_split (hkept : x.isKept = true) (hraw : x.raw = u ++ v)
    (before after : List Segment) :
    keptBefore (before ++ x :: after) ((before.flatMap Segment.raw).length + u.length) =
      kept before ++ u := by
  have hlength : u.length - x.raw.length = 0 := by simp [hraw]
  rw [keptBefore_append, keptBefore, hkept, hlength, keptBefore_zero, List.append_nil, hraw]
  simp

/-- Behind a character that is kept, it is kept before. -/
theorem exists_keptBefore_eq (hkept : x.isKept = true) (hraw : x.raw = u ++ c :: v)
    (before after : List Segment) {n : Nat} (hn : u.length < n) : ∃ w,
    keptBefore (before ++ x :: after) ((before.flatMap Segment.raw).length + n) =
      kept before ++ u ++ c :: w := by
  obtain ⟨m, rfl⟩ := Nat.exists_eq_add_of_lt hn
  have htake : x.raw.take (u.length + m + 1) = u ++ c :: v.take m := by
    rw [hraw, Nat.add_assoc, List.take_length_add_append, List.take_succ_cons]
  refine ⟨v.take m ++ keptBefore after (u.length + m + 1 - x.raw.length), ?_⟩
  rw [keptBefore_append, keptBefore, hkept, if_pos rfl, htake]
  simp

/-- A character that is kept belongs to a segment that is. -/
theorem exists_of_kept_eq (h : kept xs = k ++ c :: k') : ∃ before x after u v,
    xs = before ++ x :: after ∧ x.isKept = true ∧ x.raw = u ++ c :: v ∧ k = kept before ++ u := by
  induction xs generalizing k with
  | nil => simp at h
  | cons x xs ih =>
    cases hx : x.isKept with
    | false =>
      rw [kept_cons_of_not_isKept hx] at h
      obtain ⟨before, y, after, u, v, rfl, hy, hraw, rfl⟩ := ih h
      exact ⟨x :: before, y, after, u, v, rfl, hy, hraw, by rw [kept_cons_of_not_isKept hx]⟩
    | true =>
      rw [kept_cons_of_isKept hx] at h
      rcases List.append_eq_append_iff.mp h with ⟨cut, rfl, hcut⟩ | ⟨cut, hraw, hcut⟩
      · obtain ⟨before, y, after, u, v, rfl, hy, hraw, rfl⟩ := ih hcut
        refine ⟨x :: before, y, after, u, v, rfl, hy, hraw, ?_⟩
        rw [kept_cons_of_isKept hx, List.append_assoc]
      · cases cut with
        | nil =>
          -- the segment ends right before the character
          obtain ⟨before, y, after, u, v, rfl, hy, hraw', hk⟩ := ih (k := []) hcut.symm
          refine ⟨x :: before, y, after, u, v, rfl, hy, hraw', ?_⟩
          rw [kept_cons_of_isKept hx, List.append_assoc, ← hk, hraw]
          simp
        | cons d v =>
          obtain ⟨rfl, -⟩ := List.cons.inj hcut
          exact ⟨[], x, xs, k, v, rfl, hx, hraw, rfl⟩

end kept

/-! ## Section 2: Around a character -/

section around
variable {title : Text} {before after : List Segment} {x y : Segment} {c : Char}
  {u v k k' t t' : Text} {pos pos' : Nat}

theorem Stays.split (h : Stays title pos) : ∃ before x after u c v,
    segments title = before ++ x :: after ∧ x.isKept = true ∧ x.raw = u ++ c :: v ∧
      pos = (before.flatMap Segment.raw).length + u.length := by
  obtain ⟨start, x, ⟨before, after, hsplit, rfl⟩, hkept, hfrom, hto⟩ := h
  obtain ⟨n, rfl⟩ := Nat.exists_eq_add_of_le hfrom
  have hn : n < x.raw.length := by omega
  refine ⟨before, x, after, x.raw.take n, x.raw[n], x.raw.drop (n + 1), hsplit, hkept, ?_, ?_⟩
  · rw [List.getElem_cons_drop, List.take_append_drop]
  · rw [List.length_take, Nat.min_eq_left (Nat.le_of_lt hn)]

theorem stays_of_split (hsplit : segments title = before ++ x :: after) (hkept : x.isKept = true)
    (hraw : x.raw = u ++ c :: v) :
    Stays title ((before.flatMap Segment.raw).length + u.length) := by
  refine ⟨_, x, ⟨before, after, hsplit, rfl⟩, hkept, Nat.le_add_right _ _, ?_⟩
  rw [hraw]
  simp

/-- The title around a character of one of its segments. -/
theorem take_drop_of_split (hsplit : segments title = before ++ x :: after)
    (hraw : x.raw = u ++ c :: v) :
    title.take ((before.flatMap Segment.raw).length + u.length) =
        before.flatMap Segment.raw ++ u ∧
      title.drop ((before.flatMap Segment.raw).length + u.length) =
        c :: (v ++ after.flatMap Segment.raw) := by
  have htitle := (segments_spec title).1
  rw [hsplit, List.flatMap_append, List.flatMap_cons, hraw] at htitle
  have hassoc : title = (before.flatMap Segment.raw ++ u) ++
      c :: (v ++ after.flatMap Segment.raw) := by
    rw [← htitle]
    simp
  rw [← List.length_append]
  constructor
  · rw [hassoc, List.take_left' rfl]
  · rw [hassoc, List.drop_left' rfl]

theorem raw_ne_nil_of_mem (h : x ∈ segments title) : x.raw ≠ [] := by
  have hcontent := (segments_spec title).2.1 x h
  cases x with
  | text t => exact hcontent
  | project name => exact List.cons_ne_nil _ _
  | tag name => exact List.cons_ne_nil _ _
  | url address => exact hcontent

theorem StandsAt.raw_ne_nil (h : StandsAt title pos x) : x.raw ≠ [] := by
  obtain ⟨before, after, hsplit, -⟩ := h
  exact raw_ne_nil_of_mem (by rw [hsplit]; simp)

theorem getLast?_flatMap_concat (hne : x.raw ≠ []) (before : List Segment) :
    ((before ++ [x]).flatMap Segment.raw).getLast? = x.raw.getLast? := by
  rw [List.flatMap_append, List.flatMap_singleton, List.getLast?_append_of_ne_nil _ hne]

/-- A reference among the segments stands at the start of a word, and no word starts behind
    it. -/
theorem word_of_reference (hsplit : segments title = before ++ x :: after)
    (hx : x.isKept = false) : atWordStart (before.flatMap Segment.raw).getLast? = true ∧
      atWordStart ((before ++ [x]).flatMap Segment.raw).getLast? = false := by
  have htext : x.isText = false := by cases x <;> first | rfl | cases hx
  have hbegins := (segments_mapped title).1 _ x ⟨before, after, hsplit, rfl⟩ htext
  have hstart := atWordStart_of_reference hbegins.2 hx
  have htitle := (segments_spec title).1
  rw [hsplit, List.flatMap_append] at htitle
  rw [← htitle, List.take_left' rfl] at hstart
  rw [getLast?_flatMap_concat (tokenAt?_raw_ne_nil hbegins.2)]
  exact ⟨hstart, atWordStart_getLast?_raw hbegins.2⟩

/-- Up to the end of its word, what is kept behind some text is what stands there. -/
theorem takeWhile_append_congr
    (h : (∀ c ∈ v, Text.isBlank c = false) →
      k.takeWhile (!Text.isBlank ·) = t.takeWhile (!Text.isBlank ·)) :
    (v ++ k).takeWhile (!Text.isBlank ·) = (v ++ t).takeWhile (!Text.isBlank ·) := by
  induction v with
  | nil => exact h nofun
  | cons c v ih =>
    cases hc : Text.isBlank c with
    | true => simp [hc]
    | false =>
      have hrest := ih fun hv => h (List.forall_mem_cons.mpr ⟨hc, hv⟩)
      simp [hc, hrest]

/-- **Inside a word nothing goes**: references begin at the start of one. -/
theorem takeWhile_kept (hsplit : segments title = before ++ after)
    (hlast : atWordStart (before.flatMap Segment.raw).getLast? = false) :
    (kept after).takeWhile (!Text.isBlank ·) =
      (after.flatMap Segment.raw).takeWhile (!Text.isBlank ·) := by
  induction after generalizing before with
  | nil => rfl
  | cons y after ih =>
    cases hy : y.isKept with
    | false =>
      rw [(word_of_reference hsplit hy).1] at hlast
      cases hlast
    | true =>
      have hsplit' : segments title = (before ++ [y]) ++ after := by simp [hsplit]
      rw [kept_cons_of_isKept hy, List.flatMap_cons]
      refine takeWhile_append_congr fun hword => ih hsplit' ?_
      have hne : y.raw ≠ [] := raw_ne_nil_of_mem (by rw [hsplit]; simp)
      rw [getLast?_flatMap_concat hne, List.getLast?_eq_some_getLast hne]
      exact hword _ (List.getLast_mem hne)

/-- Behind a segment that is kept, what is kept ends as the title does. -/
theorem getLast?_kept (hsplit : segments title = before ++ y :: after) (hy : y.isKept = true) :
    (kept (before ++ [y])).getLast? = ((before ++ [y]).flatMap Segment.raw).getLast? := by
  have hne : y.raw ≠ [] := raw_ne_nil_of_mem (by rw [hsplit]; simp)
  rw [kept_append, kept_cons_of_isKept hy, kept_nil, List.append_nil,
    List.getLast?_append_of_ne_nil _ hne, getLast?_flatMap_concat hne]

/-- With a reference gone, the start of a word is where it began. -/
theorem atWordStart_kept (hsplit : segments title = before ++ y :: after)
    (hy : y.isKept = false) : atWordStart (kept (before ++ [y])).getLast? = true := by
  have hstart := (word_of_reference hsplit hy).1
  rw [kept_append, kept_cons_of_not_isKept hy, kept_nil, List.append_nil]
  rcases List.eq_nil_or_concat' before with rfl | ⟨before, z, rfl⟩
  · rfl
  · have hsplit' : segments title = before ++ z :: y :: after := by simpa using hsplit
    cases hz : z.isKept with
    | true => rwa [getLast?_kept hsplit' hz]
    | false =>
      -- no word starts right behind a reference
      rw [(word_of_reference hsplit' hz).2] at hstart
      cases hstart

theorem stop_of_takeWhile {p : Char → Bool} (h : t.drop (t.takeWhile p).length = c :: t') :
    p c = false := by
  have hrest := congrArg (List.drop (t.takeWhile p).length)
    (List.takeWhile_append_dropWhile (p := p) (l := t))
  rw [List.drop_left, h] at hrest
  exact Text.head?_dropWhile_not t c (by rw [hrest]; rfl)

/-- What stands right behind a reference is no character of its name. -/
theorem StandsAt.stop {start : Nat} (h : StandsAt title start y) (hy : y.isKept = false)
    (ht : title.drop (start + y.raw.length) = c :: t) :
    Text.isBlank c = true ∨ (∃ name, y = .tag name) ∧ isTagChar c = false := by
  have hplace : ∀ name : Text, start + (name.length + 1) = start + 1 + name.length := by
    intro name
    omega
  cases y with
  | text t => cases hy
  | url address => cases hy
  | project name =>
    have hlongest := (standsAt_project_iff.mp h).longest
    have hdrop : (title.drop (start + 1)).drop name.length = c :: t := by
      rw [List.drop_drop, ← hplace]
      exact ht
    rw [← hlongest] at hdrop
    exact Or.inl (by simpa using stop_of_takeWhile hdrop)
  | tag name =>
    have hlongest := (standsAt_tag_iff.mp h).longest
    have hdrop : (title.drop (start + 1)).drop name.length = c :: t := by
      rw [List.drop_drop, ← hplace]
      exact ht
    rw [← hlongest] at hdrop
    exact Or.inr ⟨⟨name, rfl⟩, stop_of_takeWhile hdrop⟩

/-- What is kept before a character that stays ends as the title does there, unless a tag stands
    right before it. -/
theorem Stays.prev (h : Stays title pos) (ht : title.drop pos = c :: t)
    (hc : Text.isBlank c = false) :
    (keptBefore (segments title) pos).getLast? = (title.take pos).getLast? ∨
      BehindTag title pos ∧ isTagChar c = false := by
  obtain ⟨before, x, after, u, d, v, hsplit, hkept, hraw, rfl⟩ := h.split
  obtain ⟨htake, -⟩ := take_drop_of_split hsplit hraw
  have hbefore : keptBefore (segments title) ((before.flatMap Segment.raw).length + u.length) =
      kept before ++ u := by
    rw [hsplit]
    exact keptBefore_split hkept hraw before after
  rw [htake, hbefore]
  by_cases hu : u = []
  · subst hu
    rw [List.append_nil, List.append_nil]
    rcases List.eq_nil_or_concat' before with rfl | ⟨before, y, rfl⟩
    · exact Or.inl rfl
    · have hsplit' : segments title = before ++ y :: x :: after := by simpa using hsplit
      cases hy : y.isKept with
      | true => exact Or.inl (getLast?_kept hsplit' hy)
      | false =>
        have hstands : StandsAt title (before.flatMap Segment.raw).length y :=
          ⟨before, x :: after, hsplit', rfl⟩
        rw [List.flatMap_append, List.flatMap_singleton, List.length_append, List.length_nil,
          Nat.add_zero] at ht
        -- behind a project comes a blank, so it is a tag
        rcases hstands.stop hy ht with hblank | ⟨⟨name, rfl⟩, htag⟩
        · rw [hc] at hblank
          cases hblank
        · refine Or.inr ⟨⟨_, name, hstands, ?_⟩, htag⟩
          simp [Segment.raw]
          omega
  · left
    rw [List.getLast?_append_of_ne_nil _ hu, List.getLast?_append_of_ne_nil _ hu]

/-- Behind a tag what is kept is at the start of a word. -/
theorem Stays.behindTag (h : Stays title pos) (htag : BehindTag title pos) :
    atWordStart (keptBefore (segments title) pos).getLast? = true := by
  obtain ⟨start, name, ⟨before, after, hsplit, rfl⟩, rfl⟩ := htag
  obtain ⟨start, x, hx, hkept, hfrom, hto⟩ := h
  have hplace : (before.flatMap Segment.raw).length + 1 + name.length =
      ((before ++ [Segment.tag name]).flatMap Segment.raw).length := by
    simp [Segment.raw]
    omega
  rw [hplace] at hfrom hto ⊢
  cases after with
  | nil =>
    -- the tag is the end of the title, and no place behind it stays
    have hend := hx.raw_prefix.length_le
    rw [← (segments_spec title).1, hsplit, List.length_drop] at hend
    omega
  | cons y after =>
    have hsplit' : segments title = (before ++ [.tag name]) ++ y :: after := by simp [hsplit]
    have hne := List.length_pos_iff.mpr (raw_ne_nil_of_mem (x := y) (by rw [hsplit]; simp))
    obtain ⟨-, rfl⟩ := StandsIn.unique ⟨_, after, hsplit', rfl⟩ hx hto (by omega)
    have hbefore := keptBefore_split (u := []) hkept (List.nil_append _).symm
      (before ++ [.tag name]) after
    rw [List.length_nil, Nat.add_zero, List.append_nil] at hbefore
    rw [hsplit', hbefore]
    exact atWordStart_kept hsplit rfl

end around

/-! ## Section 3: Places in the cleaned title -/

section places
variable {title : Text} {c : Char} {t t' : Text} {pos pos' place' : Nat}

theorem cleaned_eq_tidy (title : Text) :
    (parse title).cleaned = Text.tidy false false (kept (segments title)) := by
  rw [Text.tidy_eq_join]
  show Text.join [' '] (Text.words ((segments title).foldl Gathered.add {}).kept) = _
  rw [(tells_foldl (segments title)).kept]
  rfl

/-- The cleaned title around a character that stays: what is kept before it, evened out, and the
    rest of its word. -/
theorem Stays.cleaned (h : Stays title pos) (ht : title.drop pos = c :: t)
    (hc : Text.isBlank c = false) :
    (parse title).cleaned.take (place title pos) =
        Text.front false false (keptBefore (segments title) pos) ∧
      ∃ t', (parse title).cleaned.drop (place title pos) = c :: t' ∧
        t'.takeWhile (!Text.isBlank ·) = t.takeWhile (!Text.isBlank ·) := by
  obtain ⟨before, x, after, u, d, v, hsplit, hkept, hraw, rfl⟩ := h.split
  obtain ⟨htake, hdrop⟩ := take_drop_of_split hsplit hraw
  obtain ⟨rfl, rfl⟩ := List.cons.inj (ht.symm.trans hdrop)
  have hbefore : keptBefore (segments title) ((before.flatMap Segment.raw).length + u.length) =
      kept before ++ u := by
    rw [hsplit]
    exact keptBefore_split hkept hraw before after
  have hcleaned : (parse title).cleaned = Text.front false false (kept before ++ u) ++
      c :: Text.tidy true false (v ++ kept after) := by
    rw [cleaned_eq_tidy, hsplit, kept_append, kept_cons_of_isKept hkept, hraw,
      ← Text.tidy_append_cons hc]
    simp
  unfold place
  rw [hbefore, hcleaned]
  refine ⟨List.take_left' rfl, _, List.drop_left' rfl, ?_⟩
  rw [Text.takeWhile_tidy]
  refine takeWhile_append_congr fun hv => ?_
  -- the segment ends inside the word
  have hlast : atWordStart ((before ++ [x]).flatMap Segment.raw).getLast? = false := by
    rw [List.flatMap_append, List.flatMap_singleton, hraw, List.getLast?_append,
      List.getLast?_append, List.getLast?_cons]
    cases hend : v.getLast? with
    | none => exact hc
    | some e => exact hv e (List.mem_of_getLast? hend)
  have hsplit' : segments title = (before ++ [x]) ++ after := by simp [hsplit]
  exact takeWhile_kept hsplit' hlast

/-- A character of the cleaned title that is no blank stayed. -/
theorem exists_place (hc : Text.isBlank c = false)
    (ht : (parse title).cleaned.drop pos' = c :: t') :
    ∃ pos t, Stays title pos ∧ place title pos = pos' ∧ title.drop pos = c :: t := by
  have hsplit := List.take_append_drop pos' (parse title).cleaned
  have hlength : ((parse title).cleaned.take pos').length = pos' := by
    have hlt := congrArg List.length ht
    rw [List.length_drop, List.length_cons] at hlt
    rw [List.length_take]
    omega
  rw [ht, cleaned_eq_tidy] at hsplit
  rw [cleaned_eq_tidy] at hlength
  obtain ⟨k, k', hkept, hfront⟩ := Text.exists_of_tidy_eq hc hsplit.symm
  obtain ⟨before, x, after, u, v, hparts, hx, hraw, rfl⟩ := exists_of_kept_eq hkept
  refine ⟨_, _, stays_of_split hparts hx hraw, ?_, (take_drop_of_split hparts hraw).2⟩
  rw [place, hparts, keptBefore_split hx hraw, ← hfront, hlength]

/-- Characters stay in order. -/
theorem Stays.place_lt (h : Stays title pos) (ht : title.drop pos = c :: t)
    (hc : Text.isBlank c = false) (hlt : pos < pos') : place title pos < place title pos' := by
  obtain ⟨before, x, after, u, d, v, hsplit, hkept, hraw, rfl⟩ := h.split
  obtain ⟨rfl, rfl⟩ := List.cons.inj (ht.symm.trans (take_drop_of_split hsplit hraw).2)
  obtain ⟨n, rfl⟩ := Nat.exists_eq_add_of_lt hlt
  obtain ⟨w, hw⟩ := exists_keptBefore_eq hkept hraw before after (n := u.length + n + 1) (by omega)
  rw [place, place, hsplit, keptBefore_split hkept hraw, Nat.add_assoc, Nat.add_assoc,
    ← Nat.add_assoc u.length, hw, Text.front_append_cons hc, List.length_append]
  simp

/-- Evening out blanks leaves a blank where there was one. -/
theorem getLast?_front (k : Text) : (Text.front false false k).getLast? = k.getLast? ∨
    atWordStart (Text.front false false k).getLast? = true ∧ atWordStart k.getLast? = true := by
  rcases List.eq_nil_or_concat' k with rfl | ⟨k, d, rfl⟩
  · exact Or.inl rfl
  · cases hd : Text.isBlank d with
    | false =>
      left
      rw [Text.front_append_cons hd, List.getLast?_concat]
      exact List.getLast?_concat
    | true =>
      right
      rw [List.getLast?_concat]
      refine ⟨?_, hd⟩
      rcases Text.front_concat_blank hd false false k with ⟨-, hnone⟩ | hspace
      · rw [hnone]
        rfl
      · rw [hspace]
        exact Text.isBlank_space

/-- **A word of the cleaned title** starts where one of the title does, or behind a tag. -/
theorem Stays.atWordStart_iff (h : Stays title pos) (ht : title.drop pos = c :: t)
    (hc : Text.isBlank c = false) :
    atWordStart ((parse title).cleaned.take (place title pos)).getLast? = true ↔
      atWordStart (title.take pos).getLast? = true ∨ BehindTag title pos := by
  have hfront : atWordStart (Text.front false false (keptBefore (segments title) pos)).getLast? =
      atWordStart (keptBefore (segments title) pos).getLast? := by
    rcases getLast?_front (keptBefore (segments title) pos) with hsame | ⟨hstart, hstart'⟩
    · rw [hsame]
    · rw [hstart, hstart']
  rw [(h.cleaned ht hc).1, hfront]
  rcases h.prev ht hc with hsame | ⟨htag, -⟩
  · rw [hsame]
    constructor
    · exact Or.inl
    · rintro (hstart | htag)
      · exact hstart
      · rw [← hsame]
        exact h.behindTag htag
  · exact iff_of_true (h.behindTag htag) (Or.inr htag)

/-- The same reference begins there, if a word starts. -/
theorem Stays.beginsReference_iff (h : Stays title pos) (ht : title.drop pos = c :: t)
    (hc : Text.isBlank c = false) :
    BeginsReference ((parse title).cleaned.drop (place title pos)) ↔
      BeginsReference (title.drop pos) := by
  obtain ⟨-, t', ht', hword⟩ := h.cleaned ht hc
  rw [ht', ht]
  exact beginsReference_congr hc hword

/-- **Addresses stay**: the same one begins there. -/
theorem Stays.addressAt?_eq (h : Stays title pos) (ht : title.drop pos = c :: t)
    (hc : Text.isBlank c = false) :
    addressAt? ((parse title).cleaned.take (place title pos)).getLast?
        ((parse title).cleaned.drop (place title pos)) =
      addressAt? (title.take pos).getLast? (title.drop pos) := by
  obtain ⟨hfront, t', ht', hword⟩ := h.cleaned ht hc
  have hrun : (c :: t').takeWhile (!Text.isBlank ·) = (c :: t).takeWhile (!Text.isBlank ·) := by
    simp [hc, hword]
  rw [hfront, ht', ht]
  rcases h.prev ht hc with hsame | ⟨-, htag⟩
  · apply addressAt?_congr hrun
    rw [← hsame]
    rcases getLast?_front (keptBefore (segments title) pos) with hlast | ⟨hstart, hstart'⟩
    · rw [hlast]
    · rw [mayStartAddress_of_atWordStart hstart, mayStartAddress_of_atWordStart hstart']
  · -- behind a tag stands no letter
    have hnone : ∀ prev t, addressAt? prev (c :: t) = none := by
      intro prev t
      cases haddress : addressAt? prev (c :: t) with
      | none => rfl
      | some address =>
        rw [isTagChar_of_addressAt? haddress] at htag
        cases htag
    rw [hnone, hnone]

end places

end Agenda.Title
