import Agenda.Text.Basic

/-! # Paths

    A path is a root and the names that lead on from it.  Empty names and single dots are
    left out; a double dot is a name like any other.  Two slashes at the front, and no more,
    are a root of their own. -/

namespace Agenda

/-- A path: its root, which is empty for a relative one, and its names. -/
structure Path where
  root  : Text
  names : List Text
  deriving DecidableEq

namespace Path

/-- The parts of a text between slashes. -/
def splitSlashes : Text → List Text
  | [] => [[]]
  | c :: rest =>
    if c = '/' then [] :: splitSlashes rest
    else match splitSlashes rest with
      | part :: parts => (c :: part) :: parts
      | [] => [[c]]

/-- The root at the front of a text. -/
def rootOf : Text → Text
  | ['/', '/'] => "//".toList
  | '/' :: '/' :: c :: _ => if c = '/' then ['/'] else "//".toList
  | '/' :: _ => ['/']
  | _ => []

/-- The path that a text writes. -/
def ofText (t : Text) : Path :=
  { root := rootOf t, names := (splitSlashes t).filter fun p => p ≠ [] ∧ p ≠ ['.'] }

/-- A path as text: the path without root and names is a dot. -/
def write (p : Path) : Text :=
  if p.root = [] ∧ p.names = [] then ['.'] else p.root ++ Text.join ['/'] p.names

/-- The home directory that a name is not known to have. -/
structure UnknownHome where
  user : Text
  deriving DecidableEq

/-- Where home directories are: of each user by name, and under the empty name one's own. -/
abbrev Homes := Text → Option Path

/-- Put a home directory into the place of a tilde and the name of a user, where a relative
    path begins with them. -/
def expandHome (homes : Homes) (p : Path) : Except UnknownHome Path :=
  match p.root, p.names with
  | [], ('~' :: user) :: rest =>
    match homes user with
    | some home => .ok { home with names := home.names ++ rest }
    | none => .error ⟨user⟩
  | _, _ => .ok p

end Path

end Agenda
