import Agenda.Task
import Agenda.Title

/-! # From a typed title to the fields of a task

    The project that a title names is looked up among the projects that are not archived,
    without regard to case.  Its name is kept even where no project has it. -/

namespace Agenda

/-- What a typed title says about a new task. -/
structure Intake where
  title       : Text
  project     : Option ProjectId
  projectName : Option Text
  tags        : List Text
  url         : Option Text
  deriving DecidableEq

namespace Intake

/-- The first active project with this title, whatever its case. -/
def resolveProject? (name : Text) (projects : List Project) : Option Project :=
  if name = [] then none
  else projects.find? fun p => !p.archived && Text.lower p.title == Text.lower name

/-- Read a typed title. -/
def ofTitle (raw : Text) (projects : List Project) : Intake :=
  let parsed := Title.parse raw
  { title := parsed.cleaned
    project := (parsed.project.bind (resolveProject? · projects)).map Project.id
    projectName := parsed.project
    tags := parsed.tags
    url := parsed.url }

end Intake

end Agenda
