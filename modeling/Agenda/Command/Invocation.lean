import Agenda.Command.Arguments
import Agenda.Gesture
import Agenda.Page

/-! # Invocations

    The commands, the options that each of them has, and what their arguments ask for. -/

namespace Agenda.Command

/-- What a page is asked for; a toggle that is not given is left to the settings. -/
structure PageRequest where
  hideNonActionable : Bool
  showCompleted     : Bool
  project           : Option ProjectId
  includeArchived   : Bool
  scope             : PageScope
  now               : Option Text
  deriving DecidableEq

/-- A command with what it is asked for. -/
inductive Request where
  | parseTitle (title : Text)
  | keyBetween (before after : Option Text) (count : Int)
  | order (gesture : Gesture)
  | view (page : PageRequest)
  | filter (query : Text)
  | checkFilter (query : Text)
  | suggest (query : Text) (cursor : Option Int)
  | review (interval : Option Int) (today : Option Text)
  deriving DecidableEq

/-- A request, and the snapshot that is given for it. -/
structure Invocation where
  request  : Request
  snapshot : Option Text := none
  /-- Is the level of logging set to the most detailed? -/
  verbose  : Bool := false
  deriving DecidableEq

/-! ## Section 1: Options -/

/-- An option that takes nothing. -/
def flag (names : List String) : OptionSpec :=
  { names := names.map String.toList, takes := .nothing }

/-- An option that takes a text. -/
def text (names : List String) : OptionSpec :=
  { names := names.map String.toList, takes := .value fun _ => true }

/-- An option that takes an integer. -/
def integer (names : List String) : OptionSpec :=
  { names := names.map String.toList, takes := .value fun t => (Integer.read? t).isSome }

/-- The option that asks for help. -/
def help : OptionSpec := { names := ["-h".toList, "--help".toList], takes := .help }

/-- The option that names a snapshot. -/
def snapshot : OptionSpec := text ["--snapshot", "-s"]

/-- The kind of gestures with this word. -/
def kindNamed? (t : Text) : Option GestureKind := GestureKind.every.find? (·.word == t)

/-- The scope with this word. -/
def scopeNamed? (t : Text) : Option PageScope := PageScope.every.find? (·.word == t)

/-- The integer that is the value of an option. -/
def Arguments.integer? (a : Arguments) (key : String) : Option Int :=
  (a.value? key).bind Integer.read?

/-! ## Section 2: Commands -/

/-- A command: its name, the text that it takes, its options besides help, and what its
    arguments ask for. -/
structure CommandSpec where
  name       : Text
  positional : Option (Text → Bool) := none
  options    : List OptionSpec
  request    : Arguments → Option Request

/-- Any text. -/
def anyText : Option (Text → Bool) := some fun _ => true

/-- The commands. -/
def commands : List CommandSpec :=
  [ { name := "parse-title".toList, positional := anyText, options := [snapshot]
      request := fun a => a.positional.map .parseTitle },
    { name := "key-between".toList
      options := [text ["--before"], text ["--after"], integer ["--count", "-n"]]
      request := fun a => some (.keyBetween (a.value? "--before") (a.value? "--after")
        ((a.integer? "--count").getD 1)) },
    { name := "order".toList, positional := some fun t => (kindNamed? t).isSome
      options := [integer ["--task"], integer ["--anchor"], integer ["--parent"],
        integer ["--project"], snapshot]
      request := fun a => do
        let kind ← a.positional.bind kindNamed?
        return .order { kind, task := a.integer? "--task", anchor := a.integer? "--anchor",
                        parent := a.integer? "--parent", project := a.integer? "--project" } },
    { name := "view".toList
      options := [flag ["--hide-non-actionable"], flag ["--show-completed"],
        integer ["--project"], flag ["--include-archived"],
        { names := ["--scope".toList], takes := .value fun t => (scopeNamed? t).isSome },
        text ["--now"], snapshot]
      request := fun a => some (.view
        { hideNonActionable := a.has "--hide-non-actionable"
          showCompleted := a.has "--show-completed"
          project := a.integer? "--project"
          includeArchived := a.has "--include-archived"
          scope := ((a.value? "--scope").bind scopeNamed?).getD .all
          now := a.value? "--now" }) },
    { name := "filter".toList, positional := anyText, options := [snapshot]
      request := fun a => a.positional.map .filter },
    { name := "check-filter".toList, positional := anyText, options := []
      request := fun a => a.positional.map .checkFilter },
    { name := "suggest".toList, positional := anyText, options := [integer ["--cursor"], snapshot]
      request := fun a => a.positional.map (.suggest · (a.integer? "--cursor")) },
    { name := "review".toList, options := [integer ["--interval"], text ["--today"], snapshot]
      request := fun a => some (.review (a.integer? "--interval") (a.value? "--today")) } ]

/-- The options that stand before a command. -/
def leadingOptions : List OptionSpec :=
  [help, flag ["--version"], flag ["--verbose", "-v"]]

/-! ## Section 3: Reading -/

/-- What the arguments of a program ask for. -/
inductive Call where
  | version
  | noCommand
  | invoke (i : Invocation)
  deriving DecidableEq

/-- The request of a command's own arguments, and whether one of them has no place. -/
def CommandSpec.read (c : CommandSpec) (args : List Text) :
    Except Exit (Arguments × Request) := do
  let options := help :: c.options
  match pieces? options args with
  | none => .error .refused
  | some pieces =>
    let a ← Arguments.ofPieces options c.positional pieces
    match c.request a with
    | some request => .ok (a, request)
    | none => .error .refused

/-- Read the arguments of a program: options, a command, and its own arguments. -/
def Call.read (args : List Text) : Except Exit Call := do
  match pieces? leadingOptions args with
  | none => .error .refused
  | some pieces =>
    let lead := pieces.takeWhile Piece.isOption
    let top ← Arguments.ofPieces leadingOptions none lead
    let version := top.has "--version"
    match args.drop lead.length with
    | [] =>
      if top.noPlace then .error .refused
      else return if version then .version else .noCommand
    | name :: own =>
      match commands.find? (·.name == name) with
      | none => .error .refused
      | some command =>
        let (a, request) ← command.read own
        if top.noPlace || a.noPlace then .error .refused
        else if version then return .version
        else
          let snapshot := a.value? "--snapshot"
          return .invoke { request, snapshot, verbose := top.has "--verbose" }

end Agenda.Command
