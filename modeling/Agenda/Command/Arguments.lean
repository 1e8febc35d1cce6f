import Agenda.Text.Basic

/-! # Arguments of a command

    Arguments are options, which begin with a hyphen, and the one text that some commands
    take.  A long option may be shortened as long as it is the only one that begins so, and
    has its value attached by an equals sign or in the next argument; short options may be
    run together.  After two hyphens nothing is an option.

    Arguments are taken one after another, and the first that is refused, or asks for help,
    decides.  An argument that has no place is refused after all the others. -/

namespace Agenda.Command

/-! ## Section 1: Options -/

/-- What an option takes. -/
inductive Taking where
  | nothing
  /-- The option asks for help. -/
  | help
  | value (accepts : Text → Bool)

/-- An option: its names, by the first of which it is known, and what it takes. -/
structure OptionSpec where
  names : List Text
  takes : Taking

/-- The name by which an option is known. -/
def OptionSpec.key (o : OptionSpec) : Text := o.names.headD []

/-- The option with a name. -/
def findOption? (options : List OptionSpec) (name : Text) : Option OptionSpec :=
  options.find? (·.names.contains name)

/-! ## Section 2: Pieces -/

/-- What an argument is taken for. -/
inductive Piece where
  | argument (t : Text)
  /-- Two hyphens. -/
  | separator
  /-- An option under one of its names; `equals` says that the text attached to it follows an
      equals sign. -/
  | option (o : OptionSpec) (name : Text) (equals : Bool) (attached : Option Text)
  | unknown

/-- Is the piece an option, known or not? -/
def Piece.isOption : Piece → Bool
  | option .. | unknown => true
  | _ => false

/-- A text without a line feed at its end. -/
def dropFinalLineFeed (t : Text) : Text := if t.getLast? = some '\n' then t.dropLast else t

/-- Is the text a negative number? -/
def isNegativeNumber : Text → Bool
  | '-' :: t =>
    let (whole, rest) := (dropFinalLineFeed t).span Text.isDecimal
    match rest with
    | [] => !whole.isEmpty
    | '.' :: fraction => !fraction.isEmpty && fraction.all Text.isDecimal
    | _ => false
  | _ => false

/-- A text before and after its first equals sign. -/
def splitEquals (t : Text) : Text × Option Text :=
  match t.span (· ≠ '=') with
  | (head, _ :: tail) => (head, some tail)
  | (head, []) => (head, none)

/-- The options that a text which is no option's name may stand for: all whose name it begins,
    if it begins with two hyphens, and otherwise the one whose name it begins with. -/
def candidates (options : List OptionSpec) (t : Text) : List Piece :=
  let (head, tail) := splitEquals t
  let long := t[1]? = some '-'
  options.flatMap fun o => o.names.filterMap fun name =>
    if long then
      if head.isPrefixOf name then some (.option o name tail.isSome tail) else none
    else if name = t.take 2 then some (.option o name false (some (t.drop 2)))
    else none

/-- What an argument is taken for; `none` if it may stand for several options. -/
def Piece.ofText? (options : List OptionSpec) (t : Text) : Option Piece :=
  if t.head? ≠ some '-' then some (.argument t)
  else match findOption? options t with
    | some o => some (.option o t false none)
    | none =>
      if t.length = 1 then some (.argument t)
      else
        let (head, tail) := splitEquals t
        match tail.bind fun _ => findOption? options head with
        | some o => some (.option o head true tail)
        | none =>
          match candidates options t with
          | [] => some (if isNegativeNumber t || t.contains ' ' then .argument t else .unknown)
          | [piece] => some piece
          | _ => none

/-- What arguments are taken for; `none` if one of them may stand for several options. -/
def pieces? (options : List OptionSpec) : List Text → Option (List Piece)
  | [] => some []
  | t :: rest =>
    if t = "--".toList then some (.separator :: rest.map .argument)
    else do return (← Piece.ofText? options t) :: (← pieces? options rest)

/-! ## Section 3: Steps -/

/-- What pieces come to, one after another. -/
inductive ArgumentStep where
  | flag (key : Text)
  | value (key t : Text)
  | positional (t : Text)
  | help
  | refused
  | noPlace

/-- The step of an option without a value. -/
def OptionSpec.alone (o : OptionSpec) : ArgumentStep :=
  match o.takes with
  | .help => .help
  | _ => .flag o.key

/-- The step of an option with a value. -/
def OptionSpec.withValue (o : OptionSpec) (t : Text) : ArgumentStep :=
  match o.takes with
  | .value accepts => if accepts t then .value o.key t else .refused
  | _ => .refused

/-- Does the option take a value? -/
def OptionSpec.takesValue (o : OptionSpec) : Bool :=
  match o.takes with
  | .value _ => true
  | _ => false

/-- The steps of an option without attached text, and the option that waits for its value. -/
def bare (o : OptionSpec) : List ArgumentStep × Option OptionSpec :=
  if o.takesValue then ([], some o) else ([o.alone], none)

/-- The steps of an option with attached text.  The text is its value, or, for a short option
    that takes none, more short options.  `none` if the text cannot belong to it. -/
def attached? (options : List OptionSpec) (o : OptionSpec) (name : Text) (equals : Bool) :
    Text → Option (List ArgumentStep × Option OptionSpec)
  | [] => if o.takesValue then some ([o.withValue []], none) else none
  | c :: more =>
    if o.takesValue then some ([o.withValue (c :: more)], none)
    -- only short options run together, and never with a hyphen among them
    else if name[1]? = some '-' ∨ equals ∨ c = '-' then none
    else match findOption? options ['-', c] with
      | none => some ([o.alone, .noPlace], none)
      | some next =>
        let following := match more with
          | [] => some (bare next)
          | '=' :: t => attached? options next ['-', c] true t
          | d :: t => attached? options next ['-', c] false (d :: t)
        following.map fun r => (o.alone :: r.1, r.2)

/-- The steps of pieces.  `positional` tells which text the command still takes, if any. -/
def steps (options : List OptionSpec) (positional : Option (Text → Bool)) :
    List Piece → List ArgumentStep
  | [] => []
  | .unknown :: rest => .noPlace :: steps options positional rest
  | .option o name equals attached :: rest =>
    let own := match attached with
      | none => some (bare o)
      | some t => attached? options o name equals t
    match own with
    | none => [.refused]
    | some (first, none) => first ++ steps options positional rest
    | some (first, some waiting) =>
      match rest with
      | .argument t :: rest => first ++ waiting.withValue t :: steps options positional rest
      -- neither an option nor two hyphens can be the value
      | _ => [.refused]
  | .argument t :: rest =>
    match positional with
    | none => .noPlace :: steps options none rest
    | some accepts =>
      if accepts t then
        .positional t :: match rest with
          -- two hyphens right after the text go with it
          | .separator :: rest => steps options none rest
          | rest => steps options none rest
      else [.refused]
  | .separator :: rest =>
    match positional, rest with
    | some accepts, .argument t :: rest =>
      if accepts t then .positional t :: steps options none rest else [.refused]
    | _, rest => .noPlace :: steps options none rest

/-! ## Section 4: Arguments -/

/-- What arguments come to. -/
structure Arguments where
  positional : Option Text := none
  flags      : List Text := []
  /-- Values by the key of their option, the latest first. -/
  values     : List (Text × Text) := []
  noPlace    : Bool := false

/-- Why arguments do not lead to a command. -/
inductive Exit where
  | help
  | refused
  deriving DecidableEq

namespace Arguments

/-- Take one step. -/
def take (a : Arguments) : ArgumentStep → Except Exit Arguments
  | .flag key => .ok { a with flags := key :: a.flags }
  | .value key t => .ok { a with values := (key, t) :: a.values }
  | .positional t => .ok { a with positional := some t }
  | .noPlace => .ok { a with noPlace := true }
  | .help => .error .help
  | .refused => .error .refused

/-- The arguments that pieces come to. -/
def ofPieces (options : List OptionSpec) (positional : Option (Text → Bool))
    (pieces : List Piece) : Except Exit Arguments :=
  (steps options positional pieces).foldlM take {}

/-- Is an option given? -/
def has (a : Arguments) (key : String) : Bool := a.flags.contains key.toList

/-- The value of an option. -/
def value? (a : Arguments) (key : String) : Option Text :=
  (a.values.find? (·.1 == key.toList)).map (·.2)

end Arguments

end Agenda.Command
