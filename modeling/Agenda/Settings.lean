import Agenda.Path
import Agenda.StoredFile
import Agenda.Tree.Basic
import Agenda.Review
import Agenda.Text.Case

/-! # Settings

    Settings are a map from keys to values in a file of their own.  Where a value is not
    acceptable the default counts.  A setter reads the file, changes the value of one key or
    takes the key out, and replaces the file; when no key is left there is no file.  The file
    has no keys but texts. -/

namespace Agenda

/-- Settings: for each key its value. -/
structure Settings where
  entries : List (Text × Datum)

namespace Settings

/-! ## Section 1: Files of settings -/

/-- The settings of a file.  A file that holds no map counts as empty. -/
def ofFile : StoredFile → Settings
  | .holding (.map entries) => ⟨entries⟩
  | _ => ⟨[]⟩

/-- The file for settings: none at all for no keys. -/
def toFile (s : Settings) : StoredFile :=
  if s.entries.isEmpty then .absent else .save (.map s.entries)

/-- The value of a key. -/
def get? (s : Settings) (key : Text) : Option Datum :=
  (s.entries.find? (·.1 == key)).map (·.2)

/-- Give a key a value. -/
def assign (s : Settings) (key : Text) (v : Datum) : Settings :=
  ⟨putBy Prod.fst (key, v) s.entries⟩

/-- Take a key out. -/
def remove (s : Settings) (key : Text) : Settings := ⟨s.entries.filter (·.1 != key)⟩

/-- A key that has been given a value has it, and every other key has what it had. -/
theorem get?_assign (s : Settings) (key k : Text) (v : Datum) :
    (s.assign key v).get? k = if key = k then some v else s.get? k := by
  simp only [get?, assign, find?_putBy Prod.fst]
  split <;> rfl

/-- A key that has been taken out has no value, and every other key has what it had. -/
theorem get?_remove (s : Settings) (key k : Text) :
    (s.remove key).get? k = if key = k then none else s.get? k := by
  simp only [get?, remove, List.find?_filter]
  by_cases h : key = k
  · subst h
    simp
  · rw [if_neg h]
    congr 2
    funext e
    by_cases he : e.1 = k <;> simp [he, Ne.symm h]

/-- Give a key a value, or take it out. -/
def update (s : Settings) (key : Text) : Option Datum → Settings
  | some v => s.assign key v
  | none => s.remove key

/-! ## Section 2: Keys -/

/-- The key of the review interval. -/
def intervalKey : Text := "review_interval_days".toList

/-- The key of the toggle that leaves out what cannot be worked on. -/
def hideKey : Text := "hide_non_actionable".toList

/-- The key of the toggle that shows completed tasks. -/
def showKey : Text := "show_completed".toList

/-- The key of the level of logging. -/
def levelKey : Text := "log_level".toList

/-- The key of the path of the snapshot. -/
def snapshotKey : Text := "snapshot".toList

/-! ## Section 3: Reading -/

/-- The review interval in days.  The one value that is neither accepted nor passed over is
    the infinite one. -/
def reviewInterval (s : Settings) : Except Datum.IntegerFault Int :=
  match ((s.get? intervalKey).getD (.integer Review.defaultInterval)).toInteger with
  | .ok n => .ok (if n < 1 then Review.defaultInterval else n)
  | .error .infinite => .error .infinite
  | .error _ => .ok Review.defaultInterval

/-- A toggle: only a truth value counts. -/
def toggle (s : Settings) (key : Text) : Bool :=
  match s.get? key with
  | some (.truth b) => b
  | _ => false

/-- Are tasks that cannot be worked on left out of pages? -/
def hideNonActionable (s : Settings) : Bool := s.toggle hideKey

/-- Are completed tasks shown on pages? -/
def showCompleted (s : Settings) : Bool := s.toggle showKey

/-- The levels of logging. -/
def levels : List Text :=
  ["DEBUG".toList, "INFO".toList, "WARNING".toList, "ERROR".toList, "CRITICAL".toList]

/-- The level of logging when none is set. -/
def defaultLevel : Text := "WARNING".toList

/-- The level of logging.  A value that cannot be written is not passed over either. -/
def logLevel (s : Settings) : Except Datum.LongInteger Text :=
  ((s.get? levelKey).getD (.text defaultLevel)).toText.map fun t =>
    let word := Text.upper (Text.trim t)
    if levels.contains word then word else defaultLevel

/-- Why there is no path of the snapshot. -/
inductive PathFault where
  | longInteger (e : Datum.LongInteger)
  | unknownHome (e : Path.UnknownHome)
  deriving DecidableEq

/-- The path that a text sets; one of blanks sets none. -/
def pathOf (t : Text) (homes : Path.Homes) : Except PathFault (Option Path) :=
  if Text.trim t = [] then .ok none
  else (((Path.ofText (Text.trim t)).expandHome homes).map some).mapError .unknownHome

/-- The path of the snapshot, if one is set. -/
def snapshotPath (s : Settings) (homes : Path.Homes) : Except PathFault (Option Path) := do
  pathOf (← ((s.get? snapshotKey).getD .null).toText.mapError .longInteger) homes

/-! ## Section 4: Changing -/

/-- Why a setting is refused. -/
inductive Refusal where
  | interval (fault : Datum.IntegerFault)
  | notPositive
  | pathNotText
  /-- The file holds a moment that cannot be read from it. -/
  | fineOffset
  | longInteger (e : Datum.LongInteger)
  deriving DecidableEq

/-- The wording of a refusal. -/
def Refusal.message : Refusal → Text
  | interval fault => fault.message
  | notPositive => "review_interval_days must be positive".toList
  | pathNotText => "not a text".toList
  | fineOffset => "the distance from universal time is finer than a minute".toList
  | longInteger e => e.message

/-- The value that is kept for a review interval; null takes it out. -/
def keptInterval : Datum → Except Refusal (Option Datum)
  | .null => .ok none
  | v => do
    let n ← v.toInteger.mapError .interval
    if n < 1 then .error .notPositive else .ok (some (.integer n))

/-- The value that is kept for a toggle: only one that is on is kept. -/
def keptToggle (v : Datum) : Option Datum := if v.isEmpty then none else some (.truth true)

/-- The value that is kept for a path; one of blanks only takes it out. -/
def keptPath (v : Datum) : Except Refusal (Option Datum) :=
  if v.isEmpty then .ok none
  else match v with
    | .text t => .ok (if Text.trim t = [] then none else some (.text (Text.trim t)))
    | _ => .error .pathNotText

/-- The settings that can be set. -/
inductive Setter where
  | reviewInterval
  | hideNonActionable
  | showCompleted
  | snapshotPath
  deriving DecidableEq

/-- The key of a setter. -/
def Setter.key : Setter → Text
  | reviewInterval => intervalKey
  | hideNonActionable => hideKey
  | showCompleted => showKey
  | snapshotPath => snapshotKey

/-- The value that a setter keeps. -/
def Setter.kept : Setter → Datum → Except Refusal (Option Datum)
  | reviewInterval, v => keptInterval v
  | hideNonActionable, v => .ok (keptToggle v)
  | showCompleted, v => .ok (keptToggle v)
  | snapshotPath, v => keptPath v

/-- What is done with the file of the settings: it may break off, and the file stays as it was
    left by then. -/
abbrev Change (α : Type) := ExceptT Refusal (StateM StoredFile) α

/-- Read the settings. -/
def load : Change Settings := do
  let file ← get
  if file.hasFineOffset then throw .fineOffset else return ofFile file

/-- Replace the file by one for these settings.  They are written out first, and nothing is
    changed if that cannot be done. -/
def store (s : Settings) : Change Unit :=
  if (Datum.map s.entries).hasLongInteger then throw (.longInteger ⟨⟩) else set s.toFile

/-- Give a setter a value. -/
def Setter.call (setter : Setter) (v : Datum) : Change Unit := do
  let kept ← liftM (setter.kept v)
  store ((← load).update setter.key kept)

end Settings

end Agenda
