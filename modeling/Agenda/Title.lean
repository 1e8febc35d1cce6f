import Agenda.Text.Case

/-! # Typed titles

    A title may name a project (`@name`), tags (`#name`) and web addresses anywhere in its
    text.  References stand at the start of a word.  A link in brackets, `[label](target)`, is
    plain text, whatever it holds.

    Segments cut a title into references, addresses and the text between, and lose nothing:
    their raw texts one after another are the title. -/

namespace Agenda

/-- A piece of a title. -/
inductive Segment where
  | text (t : Text)
  | project (name : Text)
  | tag (name : Text)
  | url (address : Text)
  deriving DecidableEq

/-- A segment as it stands in the title. -/
def Segment.raw : Segment → Text
  | text t => t
  | project name => '@' :: name
  | tag name => '#' :: name
  | url address => address

namespace Title

/-! ## Section 1: Links in brackets -/

/-- The length of the link that a text begins with: a label up to the first closing bracket
    and, right after it, a target that is not empty. -/
def linkLength? : Text → Option Nat
  | '[' :: rest =>
    match rest.dropWhile (· ≠ ']') with
    | ']' :: '(' :: after =>
      let target := after.takeWhile (· ≠ ')')
      if target ≠ [] ∧ target.length < after.length then
        some ((rest.takeWhile (· ≠ ']')).length + target.length + 4)
      else none
    | _ => none
  | _ => none

theorem linkLength?_pos {t : Text} {n : Nat} (h : linkLength? t = some n) : 0 < n := by
  unfold linkLength? at h
  split at h
  · split at h
    · dsimp only at h
      split at h
      · obtain rfl := Option.some.inj h
        exact Nat.succ_pos _
      · cases h
    · cases h
  · cases h

/-- Where a link stands in a title. -/
structure Link where
  start : Nat
  stop  : Nat
  start_lt_stop : start < stop

/-- The links, found from left to right without overlap: the search has come to `pos`, and the
    next `skip` characters belong to a link. -/
def linksFrom (pos skip : Nat) : Text → List Link
  | [] => []
  | c :: rest =>
    match skip with
    | skip + 1 => linksFrom (pos + 1) skip rest
    | 0 =>
      match h : linkLength? (c :: rest) with
      | some n =>
        ⟨pos, pos + n, Nat.lt_add_of_pos_right (linkLength?_pos h)⟩ ::
          linksFrom (pos + 1) (n - 1) rest
      | none => linksFrom (pos + 1) 0 rest

/-- The links of a title. -/
def links (title : Text) : List Link := linksFrom 0 0 title

/-! ## Section 2: References and addresses -/

/-- Does a word start after `prev`, the character before (if there is any)? -/
def atWordStart (prev : Option Char) : Bool := prev.all Text.isBlank

/-- Characters of a tag's name. -/
def isTagChar (c : Char) : Bool := Text.isAlphanumeric c || ":.-_".toList.contains c

/-- Characters of a scheme after its first letter. -/
def isSchemeChar (c : Char) : Bool := c.isAlphanum || "+.-".toList.contains c

/-- Characters of an address after its scheme. -/
def isAddressChar (c : Char) : Bool := !Text.isBlank c && !"<>[]()".toList.contains c

/-- Punctuation that does not end an address. -/
def isTrailing (c : Char) : Bool := ".,;:!?'\"".toList.contains c

/-- May an address start after `prev`? -/
def mayStartAddress (prev : Option Char) : Bool :=
  prev.all fun c => !(Text.isAlphanumeric c || "+.-".toList.contains c)

/-- The address that a text begins with: a scheme, `://` and more characters, the punctuation
    at its end left off.  What is left must not end in `://`. -/
def addressAt? (prev : Option Char) (t : Text) : Option Text :=
  let scheme := t.takeWhile isSchemeChar
  match t.dropWhile isSchemeChar with
  | ':' :: '/' :: '/' :: rest =>
    let body := Text.dropEndWhile isTrailing (rest.takeWhile isAddressChar)
    let address := scheme ++ "://".toList ++ body
    if mayStartAddress prev ∧ (scheme.head?.map Char.isAlpha).getD false ∧
        ¬ "://".toList.isSuffixOf address then
      some address
    else none
  | _ => none

/-- The reference or address that a text begins with, after `prev`. -/
def tokenAt? (prev : Option Char) : Text → Option Segment
  | [] => none
  | c :: rest =>
    let project := rest.takeWhile (!Text.isBlank ·)
    let tag := rest.takeWhile isTagChar
    if atWordStart prev ∧ c = '@' ∧ project ≠ [] then some (.project project)
    else if atWordStart prev ∧ c = '#' ∧ tag ≠ [] then some (.tag tag)
    else (addressAt? prev (c :: rest)).map .url

theorem tokenAt?_raw_ne_nil {prev : Option Char} {t : Text} {token : Segment}
    (h : tokenAt? prev t = some token) : token.raw ≠ [] := by
  cases t with
  | nil => cases h
  | cons c rest =>
    dsimp only [tokenAt?] at h
    split at h
    · obtain rfl := Option.some.inj h
      exact List.cons_ne_nil _ _
    · split at h
      · obtain rfl := Option.some.inj h
        exact List.cons_ne_nil _ _
      · obtain ⟨address, haddress, rfl⟩ := Option.map_eq_some_iff.mp h
        show address ≠ []
        unfold addressAt? at haddress
        split at haddress
        · dsimp only at haddress
          split at haddress
          · obtain rfl := Option.some.inj haddress
            simp
          · cases haddress
        · cases haddress

/-! ## Section 3: Segments -/

/-- The scan of a title: how far it has come, the text since the last token, and the segments
    before that. -/
structure Scan where
  pos    : Nat := 0
  buffer : Text := []
  done   : List Segment := []

namespace Scan

/-- Pass over `n` characters as text. -/
def keep (title : Text) (n : Nat) (s : Scan) : Scan :=
  { s with pos := s.pos + n, buffer := s.buffer ++ (title.drop s.pos).take n }

/-- The segments up to here: what has been passed over as text is one more. -/
def flush (s : Scan) : List Segment :=
  if s.buffer = [] then s.done else s.done ++ [.text s.buffer]

/-- Pass over a token. -/
def emit (token : Segment) (s : Scan) : Scan :=
  { pos := s.pos + token.raw.length, done := s.flush ++ [token] }

/-- One turn of the scan, which is over at the end of the title.  A link is passed over whole, so
    nothing that starts inside it is a token. -/
def turn (title : Text) (links : List Link) (s : Scan) : Option Scan :=
  if title.length ≤ s.pos then none
  else match links.find? (·.start == s.pos) with
    | some link => some (s.keep title (link.stop - s.pos))
    | none =>
      match tokenAt? (title.take s.pos).getLast? (title.drop s.pos) with
      | some token => some (s.emit token)
      | none => some (s.keep title 1)

/-- What a turn can do: it passes over a link where one starts, and else over a token, or over
    one character where there is none. -/
theorem turn_cases {title : Text} {links : List Link} {s s' : Scan}
    (h : s.turn title links = some s') : s.pos < title.length ∧
      ((∃ link ∈ links, link.start = s.pos ∧ s' = s.keep title (link.stop - s.pos)) ∨
        ((∀ link ∈ links, link.start ≠ s.pos) ∧
          ((∃ token, tokenAt? (title.take s.pos).getLast? (title.drop s.pos) = some token ∧
              s' = s.emit token) ∨
            tokenAt? (title.take s.pos).getLast? (title.drop s.pos) = none ∧
              s' = s.keep title 1))) := by
  unfold turn at h
  split at h
  · cases h
  · next hpos =>
    refine ⟨Nat.lt_of_not_le hpos, ?_⟩
    split at h
    · next link hlink =>
      have hstart := List.find?_some hlink
      exact Or.inl ⟨link, List.mem_of_find?_eq_some hlink, eq_of_beq hstart,
        (Option.some.inj h).symm⟩
    · next hnone =>
      have hapart : ∀ link ∈ links, link.start ≠ s.pos := by simpa using hnone
      refine Or.inr ⟨hapart, ?_⟩
      split at h
      · next token htoken => exact Or.inl ⟨token, htoken, (Option.some.inj h).symm⟩
      · next hno => exact Or.inr ⟨hno, (Option.some.inj h).symm⟩

/-- Every turn goes on in the title. -/
theorem pos_lt_of_turn {title : Text} {links : List Link} {s s' : Scan}
    (h : s.turn title links = some s') : s.pos < title.length ∧ s.pos < s'.pos := by
  obtain ⟨hpos, hcases⟩ := turn_cases h
  refine ⟨hpos, ?_⟩
  rcases hcases with ⟨link, -, hstart, rfl⟩ | ⟨-, ⟨token, htoken, rfl⟩ | ⟨-, rfl⟩⟩
  · have hlink := link.start_lt_stop
    show s.pos < s.pos + (link.stop - s.pos)
    omega
  · have hraw := List.length_pos_iff.mpr (tokenAt?_raw_ne_nil htoken)
    exact Nat.lt_add_of_pos_right hraw
  · exact Nat.lt_succ_self s.pos

/-- Take turns until the scan is over, and give the segments. -/
def run (title : Text) (links : List Link) (s : Scan) : List Segment :=
  match _h : s.turn title links with
  | none => s.flush
  | some next => run title links next
termination_by title.length - s.pos
decreasing_by
  have hpos := pos_lt_of_turn _h
  omega

end Scan

/-- The segments of a title. -/
def segments (title : Text) : List Segment := Scan.run title (links title) {}

/-- The addresses in a title. -/
def addresses (title : Text) : List Text :=
  (segments title).filterMap fun
    | .url address => some address
    | _ => none

/-! ## Section 4: What a title says -/

end Title

/-- A title taken apart. -/
structure ParsedTitle where
  cleaned : Text
  project : Option Text
  tags    : List Text
  url     : Option Text
  deriving DecidableEq

namespace Title

/-- What the segments up to a place say: the text that is kept and the references. -/
structure Gathered where
  kept    : Text := []
  project : Option Text := none
  tags    : List Text := []
  url     : Option Text := none

/-- Add a segment.  A tag counts in small letters and only where it is new, a project takes the
    place of an earlier one, and of several addresses the first stays. -/
def Gathered.add (g : Gathered) : Segment → Gathered
  | .text t => { g with kept := g.kept ++ t }
  | .project name => { g with project := some name }
  | .tag name =>
    if Text.lower name ∈ g.tags then g else { g with tags := g.tags ++ [Text.lower name] }
  | .url address => { g with kept := g.kept ++ address, url := g.url <|> some address }

/-- Take a title apart.  References are taken out of the text and its blanks evened out;
    addresses stay in it. -/
def parse (title : Text) : ParsedTitle :=
  let g := (segments title).foldl Gathered.add {}
  { cleaned := Text.join [' '] (Text.words g.kept)
    project := g.project
    tags := g.tags
    url := g.url }

end Title

end Agenda
