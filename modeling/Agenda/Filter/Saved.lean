import Agenda.Filter.Reader
import Agenda.Filter.Sorting

/-! # Saved filters

    A filter is saved under a title as the text that its query is written as. -/

namespace Agenda.Filter

/-- A typed query and what it was read as. -/
structure CompiledFilter where
  text  : Text
  query : Query

/-- Read a typed query. -/
def CompiledFilter.ofText (t : Text) : Except QueryError CompiledFilter :=
  (Query.read t).map fun q => { text := t, query := q }

/-- The query as it is written. -/
def CompiledFilter.canonical (f : CompiledFilter) : Text := f.query.render

/-- A filter under a title. -/
structure SavedFilter where
  title : Text
  query : Text
  deriving DecidableEq

/-- Save a filter. -/
def SavedFilter.ofCompiled (title : Text) (f : CompiledFilter) : SavedFilter :=
  { title := title, query := f.canonical }

/-- Read a saved filter again. -/
def SavedFilter.compile (f : SavedFilter) : Except QueryError CompiledFilter :=
  CompiledFilter.ofText f.query

/-- Can a typed query be submitted?  It must have more than blanks, and read. -/
def canSubmit (t : Text) : Bool := !(Text.trim t).isEmpty && (Query.read t).isOk

end Agenda.Filter
