import Agenda.Text.Case

/-! # Glob patterns

    A pattern is matched against a whole text: `*` takes any run of characters, `?` takes one
    character, and every other character takes one that equals it but for case.  There are no
    character classes, so brackets stand for themselves.

    Matching keeps the list of the remainders that the pattern read so far can leave.  The
    work is bounded by the product of the two lengths, however many stars there are. -/

namespace Agenda.Text.Glob

/-- A text and everything it leaves when characters are taken from its front, longest
    first. -/
def suffixes : Text → List Text
  | [] => [[]]
  | c :: rest => (c :: rest) :: suffixes rest

/-- Does the pattern character `p` (other than a star) take the character `c`? -/
def takes (p c : Char) : Bool := p == '?' || fold p == fold c

/-- What is left of a text when the pattern character `p` takes its first character. -/
def takeOne? (p : Char) : Text → Option Text
  | [] => none
  | c :: rest => if takes p c then some rest else none

/-- The remainders after one more pattern character.  Every remainder is a suffix of the
    first, so a star leaves exactly the suffixes of the first. -/
def advance (remainders : List Text) (p : Char) : List Text :=
  if p = '*' then
    match remainders with
    | [] => []
    -- the others are suffixes of the longest and add nothing
    | longest :: _ => suffixes longest
  else remainders.filterMap (takeOne? p)

/-- What the pattern can leave of the text, longest first. -/
def remainders (pattern text : Text) : List Text :=
  pattern.foldl advance [text]

/-- Does the pattern take the whole text? -/
def isMatch (pattern text : Text) : Bool :=
  (remainders pattern text).contains []

end Agenda.Text.Glob
