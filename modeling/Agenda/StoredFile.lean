import Agenda.Datum

/-! # Files that hold a document

    A document that is written to a file and read again comes back as it was, with two
    exceptions that lie in the file format.  In a text that is written over several lines a
    next-line character (U+0085) comes back as a line feed, or as a blank where it stands alone
    between two lines.  A moment whose distance from universal time is finer than a minute can
    be written but not read. -/

namespace Agenda

/-! ## Section 1: Texts over several lines -/

namespace Text

/-- The next-line character. -/
def nextLine : Char := Char.ofNat 0x85

/-- Characters that end a line of a file. -/
def isLineEnd (c : Char) : Bool := c == '\n' || inRanges [(0x85, 0x85), (0x2028, 0x2029)] c

/-- Characters that a file can hold as they are. -/
def isPlainInFile (c : Char) : Bool :=
  c == '\n' || inRanges [(0x20, 0x7E), (0x85, 0x85), (0xA0, 0xFEFE), (0xFF00, 0xFFFD),
    (0x10000, 0x10FFFE)] c

/-- Does a space stand beside the end of a line? -/
def hasSpaceAtLineEnd : Text → Bool
  | a :: b :: rest =>
    (a == ' ' && isLineEnd b) || (isLineEnd a && b == ' ') || hasSpaceAtLineEnd (b :: rest)
  | _ => false

/-- Is every unusual character of a text escaped in a file?  Such a text is written on one
    line. -/
def isEscapedInFile (t : Text) : Bool := !t.all isPlainInFile || hasSpaceAtLineEnd t

/-- A run of line ends as it comes back from a file: a line feed at its front is written
    twice, for a single one is read as a blank. -/
def refoldRun (run : Text) : Text :=
  let written := if run.head? = some '\n' then '\n' :: run else run
  match written.map fun c => if c = nextLine then '\n' else c with
  -- one line end is a fold and reads as a blank; of more the first is the fold
  | ['\n'] => [' ']
  | '\n' :: rest => rest
  | other => other

/-- A text over several lines as it comes back from a file. -/
def refold : Text → Text
  | [] => []
  | c :: rest =>
    if isLineEnd c then
      refoldRun (c :: rest.takeWhile isLineEnd) ++ refold (rest.dropWhile isLineEnd)
    else c :: refold rest
termination_by t => t.length
decreasing_by
  · have := (List.dropWhile_sublist isLineEnd (l := rest)).length_le
    simp only [List.length_cons]; omega
  · simp

/-- A text as it comes back from a file. -/
def stored (t : Text) : Text :=
  if nextLine ∉ t || isEscapedInFile t then t else refold t

end Text

/-! ## Section 2: Values -/

namespace Datum

mutual

/-- A value as it comes back from a file. -/
def stored : Datum → Datum
  | text t => text (Text.stored t)
  | list items => list (storedItems items)
  | map entries => map (storedEntries entries)
  | null => null
  | truth b => truth b
  | integer n => integer n
  | number x => number x
  | day d => day d
  | moment m => moment m

/-- Values as they come back from a file. -/
def storedItems : List Datum → List Datum
  | [] => []
  | v :: rest => stored v :: storedItems rest

/-- Entries as they come back from a file. -/
def storedEntries : List (Text × Datum) → List (Text × Datum)
  | [] => []
  | (k, v) :: rest => (Text.stored k, stored v) :: storedEntries rest

end

/-- Is the distance of a clock from universal time finer than a minute? -/
def isFineOffset (offset : Option Int) : Bool := offset.any fun o => o % 60000000 != 0

mutual

/-- Has a value a moment that cannot be read from a file? -/
def hasFineOffset : Datum → Bool
  | moment m => isFineOffset m.offset
  | list items => anyFineOffset items
  | map entries => anyFineOffsetIn entries
  | _ => false

/-- Has one of the values a moment that cannot be read from a file? -/
def anyFineOffset : List Datum → Bool
  | [] => false
  | v :: rest => hasFineOffset v || anyFineOffset rest

/-- Has one of the entries a moment that cannot be read from a file? -/
def anyFineOffsetIn : List (Text × Datum) → Bool
  | [] => false
  | (_, v) :: rest => hasFineOffset v || anyFineOffsetIn rest

end

end Datum

/-! ## Section 3: Files -/

/-- What stands where a file is looked for. -/
inductive StoredFile where
  | absent
  | directory
  /-- A file that does not hold a document. -/
  | malformed
  | holding (d : Datum)

namespace StoredFile

/-- The file that a document is written to. -/
def save (d : Datum) : StoredFile := holding d.stored

/-- Is there a file with a moment that cannot be read? -/
def hasFineOffset : StoredFile → Bool
  | holding d => d.hasFineOffset
  | _ => false

end StoredFile

end Agenda
