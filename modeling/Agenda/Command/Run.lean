import Agenda.Command.Invocation
import Agenda.Command.Response
import Agenda.Filter.Saved
import Agenda.Settings
import Agenda.Snapshot.Read

/-! # Running a command

    A command looks at its own arguments, at the settings and at one snapshot, and answers.
    Which of several faults it reports is decided by the order in which it looks.  A few
    errors are not answered for: they end the program. -/

namespace Agenda.Command

/-- What a command can look at. -/
structure Environment where
  settings : StoredFile
  fileAt   : Path → StoredFile
  homes    : Path.Homes
  today    : Day
  now      : Moment

/-- Errors that no command answers for. -/
inductive Breakdown where
  | outOfCalendar
  | infiniteInterval
  | statusNotText
  | fineOffset
  | wholeDay
  | unknownHome
  | longInteger (e : Datum.LongInteger)
  deriving DecidableEq

/-- Why a command stops. -/
inductive Stop where
  | failing (f : Failing)
  | broken (b : Breakdown)

/-- What a command gets so far. -/
abbrev Step (α : Type) := Except Stop α

/-- Stop with a failure. -/
def fail {α : Type} (f : Failing) : Step α := .error (.failing f)

/-- Stop with an error that is not answered for. -/
def breakDown {α : Type} (b : Breakdown) : Step α := .error (.broken b)

/-- The message and the payload of a success. -/
structure Success where
  message : Text
  payload : Payload

/-! ## Section 1: Settings and snapshots -/

/-- The settings. -/
def settings (env : Environment) : Step Settings :=
  if env.settings.hasFineOffset then breakDown .fineOffset else .ok (Settings.ofFile env.settings)

/-- A path with the home directory put in. -/
def expand (env : Environment) (p : Path) : Step Path :=
  match p.expandHome env.homes with
  | .ok p => .ok p
  | .error _ => breakDown .unknownHome

/-- The path of the snapshot: the one given, or the one in the settings. -/
def snapshotPath (env : Environment) (given : Option Text) : Step Path :=
  match given.filter (· ≠ []) with
  | some t => expand env (Path.ofText t)
  | none => do
    match (← settings env).snapshotPath env.homes with
    | .ok (some p) => .ok p
    | .ok none =>
      fail (.plain
        "no snapshot given: pass --snapshot or set 'snapshot' in the config".toList)
    | .error (.longInteger e) => fail (.plain e.message)
    | .error (.unknownHome _) => breakDown .unknownHome

/-- The tree of the snapshot. -/
def load (env : Environment) (given : Option Text) : Step Tree := do
  let path ← snapshotPath env given
  match Snapshot.load (env.fileAt path) path.write with
  | .ok tree => .ok tree
  | .error (.refused e) => fail (.ofSnapshot e)
  | .error .statusNotText => breakDown .statusNotText
  | .error .fineOffset => breakDown .fineOffset

/-! ## Section 2: Commands -/

/-- A number and a word that tells what is counted. -/
def counted (n : Nat) (what : String) : Text := Integer.writeNat n ++ [' '] ++ what.toList

/-- Read a typed title, with the projects of the snapshot if one is given. -/
def parseTitle (env : Environment) (snapshot : Option Text) (title : Text) : Step Success := do
  let projects ←
    if (snapshot.filter (· ≠ [])).isSome then do pure (← load env snapshot).projects
    else pure []
  let intake := Intake.ofTitle title projects
  return { message := intake.title, payload := intakePayload intake }

/-- New keys between two keys; an empty key is no bound. -/
def keyBetween (before after : Option Text) (count : Int) : Step Success :=
  match SortKey.keysBetween (before.filter (· ≠ [])) (after.filter (· ≠ [])) count with
  | .ok keys =>
    .ok { message := Text.join ", ".toList keys, payload := [item "keys" (texts keys)] }
  | .error e => fail (.ofKey e)

/-- The plan of a gesture. -/
def order (env : Environment) (snapshot : Option Text) (gesture : Gesture) : Step Success := do
  match gesture.plan (← load env snapshot) with
  | .ok plan =>
    return { message := if plan.changed then plan.sortKey else "no change".toList
             payload := planPayload plan }
  | .error e => fail (.ofGesture e)

/-- The time at which a page is shown. -/
def pageTime (env : Environment) (given : Option Text) : Step Moment :=
  match given.filter (· ≠ []) with
  | none => .ok env.now
  | some t =>
    match Iso.moment? t with
    | some m => .ok m
    | none => fail (.plain ("invalid --now: ".toList ++ Text.quoted t ++
        " (expected YYYY-MM-DDTHH:MM)".toList))

/-- A toggle that is on when it is given, and otherwise as it is set. -/
def toggle (env : Environment) (given : Bool) (isSet : Settings → Bool) : Step Bool :=
  if given then .ok true else (settings env).map isSet

/-- A page. -/
def view (env : Environment) (snapshot : Option Text) (r : PageRequest) : Step Success := do
  let now ← pageTime env r.now
  let tree ← load env snapshot
  let hideNonActionable ← toggle env r.hideNonActionable Settings.hideNonActionable
  let showCompleted ← toggle env r.showCompleted Settings.showCompleted
  let page : Page := {
    hideNonActionable, showCompleted, project := r.project
    includeArchived := r.includeArchived, scope := r.scope, now := .moment now }
  match page.visible tree with
  | .error .wholeDay => breakDown .wholeDay
  | .ok shown =>
    return { message := counted shown.length "tasks"
             payload := [item "scope" (.text page.scope.word),
               item "hide_non_actionable" (.truth page.hideNonActionable),
               item "show_completed" (.truth page.showCompleted),
               item "ids" (ids shown), item "tasks" (titles tree shown)] }

/-- The tasks that meet a query. -/
def filter (env : Environment) (snapshot : Option Text) (query : Text) : Step Success := do
  match Filter.CompiledFilter.ofText query with
  | .error e => fail (.ofQuery e)
  | .ok f =>
    -- the query is read first, so a query that cannot be read is reported without a snapshot
    let tree ← load env snapshot
    let found := f.query.execute tree
    return { message := counted found.length "matches"
             payload := [item "query" (.text f.canonical), item "ids" (ids found),
               item "tasks" (titles tree found)] }

/-- Suggestions for a query that is being typed. -/
def suggest (env : Environment) (snapshot : Option Text) (query : Text) (cursor : Option Int) :
    Step Success := do
  let tree ← load env snapshot
  let offered := Filter.Completion.suggestIn tree query cursor
  return { message := counted offered.length "suggestions"
           payload := [item "suggestions" (.list (offered.map suggestion))] }

/-- The day of a review. -/
def reviewDay (env : Environment) (given : Option Text) : Step Day :=
  match given.filter (· ≠ []) with
  | none => .ok env.today
  | some t =>
    match Iso.day? t with
    | some d => .ok d
    | none => fail (.plain ("invalid --today: ".toList ++ Text.quoted t ++
        " (expected YYYY-MM-DD)".toList))

/-- The interval of a review: the one given, or the one in the settings. -/
def reviewInterval (env : Environment) : Option Int → Step Int
  | some n => .ok n
  | none => do
    match (← settings env).reviewInterval with
    | .ok n => .ok n
    | .error _ => breakDown .infiniteInterval

/-- What there is to review. -/
def review (env : Environment) (snapshot : Option Text) (interval : Option Int)
    (today : Option Text) : Step Success := do
  let today ← reviewDay env today
  let interval ← reviewInterval env interval
  -- both arguments are checked before the snapshot is looked for
  if interval < 1 then fail (.plain "--interval must be positive".toList)
  let tree ← load env snapshot
  match Review.lists tree today interval with
  | .error .outOfCalendar => breakDown .outOfCalendar
  | .ok lists =>
    return { message := counted lists.due.length "due for review"
             payload := [item "today" (.text today.write),
               item "interval_days" (.integer interval), item "due" (ids lists.due),
               item "recent" (ids lists.recent)] }

/-! ## Section 3: Answers -/

/-- The response to a step that has ended. -/
def respond (command : Text) : Step Success → Except Breakdown Response
  | .ok s => .ok { command, message := s.message, payload := s.payload }
  | .error (.failing f) =>
    .ok { command, ok := false, message := f.message, payload := f.payload }
  | .error (.broken b) => .error b

/-- Check a query without running it. -/
def checkFilter (query : Text) : Response :=
  let mode := item "mode" (.text "validate-only".toList)
  let command := "check-filter.validate".toList
  match Filter.CompiledFilter.ofText query with
  | .ok f =>
    let message := "ok".toList
    { command, message, summary := some message
      payload := [item "query" (.text f.canonical),
        item "can_submit" (.truth (Filter.canSubmit query)), mode] }
  | .error e =>
    { command, ok := false, message := e.message, summary := some e.message
      payload := queryPayload e ++ [mode] }

/-- The answer to a request. -/
def Request.answer (env : Environment) (given : Option Text) :
    Request → Except Breakdown Response
  | .parseTitle title => respond "parse-title".toList (Command.parseTitle env given title)
  | .keyBetween before after count =>
    respond "key-between".toList (Command.keyBetween before after count)
  | .order gesture => respond "order".toList (Command.order env given gesture)
  | .view page => respond "view".toList (Command.view env given page)
  | .filter query => respond "filter".toList (Command.filter env given query)
  | .checkFilter query => .ok (Command.checkFilter query)
  | .suggest query cursor => respond "suggest".toList (Command.suggest env given query cursor)
  | .review interval today => respond "review".toList (Command.review env given interval today)

/-- The level of logging: the most detailed if it is asked for, and otherwise as it is set. -/
def Invocation.logLevel (env : Environment) (i : Invocation) : Except Breakdown Text :=
  if i.verbose then .ok "DEBUG".toList
  else if env.settings.hasFineOffset then .error .fineOffset
  else (Settings.ofFile env.settings).logLevel.mapError .longInteger

/-- The answer to an invocation.  The level of logging is looked up first. -/
def Invocation.answer (env : Environment) (i : Invocation) : Except Breakdown Response := do
  let _ ← i.logLevel env
  i.request.answer env i.snapshot

/-- What a program comes to. -/
inductive Outcome where
  | help
  | noCommand
  | refused
  | version
  | answered (r : Response)

/-- The exit code of a program. -/
def Outcome.exitCode : Outcome → Nat
  | help | version => 0
  | noCommand => 1
  | refused => 2
  | answered r => r.exitCode

/-- Run a program with its arguments. -/
def run (env : Environment) (args : List Text) : Except Breakdown Outcome :=
  match Call.read args with
  | .error .help => .ok .help
  | .error .refused => .ok .refused
  | .ok .version => .ok .version
  | .ok .noCommand => .ok .noCommand
  | .ok (.invoke i) => (i.answer env).map .answered

end Agenda.Command
