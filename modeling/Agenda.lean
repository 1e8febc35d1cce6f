import Agenda.Command.Arguments
import Agenda.Command.Invocation
import Agenda.Command.Response
import Agenda.Command.Run
import Agenda.Datum
import Agenda.Datum.Flow
import Agenda.Filter.Completion
import Agenda.Filter.Error
import Agenda.Filter.Expr
import Agenda.Filter.Field
import Agenda.Filter.Literal
import Agenda.Filter.Meaning
import Agenda.Filter.Reader
import Agenda.Filter.Saved
import Agenda.Filter.Sorting
import Agenda.Filter.Token
import Agenda.Gesture
import Agenda.Intake
import Agenda.Main
import Agenda.Number.Binary64
import Agenda.Number.Integer
import Agenda.Page
import Agenda.Path
import Agenda.Proofs.Basic
import Agenda.Proofs.Filter.Grammar
import Agenda.Proofs.Filter.Lexing
import Agenda.Proofs.Filter.Reading
import Agenda.Proofs.Filter.RoundTrip
import Agenda.Proofs.Gesture.Landing
import Agenda.Proofs.Gesture.Aims
import Agenda.Proofs.Gesture.NewKeys
import Agenda.Proofs.SortKey.Digits
import Agenda.Proofs.SortKey.Fractions
import Agenda.Proofs.SortKey.Integers
import Agenda.Proofs.SortKey.Keys
import Agenda.Proofs.SortKey.Runs
import Agenda.Proofs.Tree.Scopes
import Agenda.Review
import Agenda.Settings
import Agenda.Snapshot.Error
import Agenda.Snapshot.Read
import Agenda.Snapshot.Write
import Agenda.SortKey.Basic
import Agenda.SortKey.Between
import Agenda.StoredFile
import Agenda.Tag
import Agenda.Task
import Agenda.Text.AlphanumericTable
import Agenda.Text.Basic
import Agenda.Text.Case
import Agenda.Text.CaseLemmas
import Agenda.Text.CaseTable
import Agenda.Text.DigitTable
import Agenda.Text.Glob
import Agenda.Text.Quoted
import Agenda.Text.UnprintableTable
import Agenda.Time.Day
import Agenda.Time.Iso
import Agenda.Time.Moment
import Agenda.Time.Typed
import Agenda.Title
import Agenda.Tree.Actionable
import Agenda.Tree.Ancestry
import Agenda.Tree.Basic
import Agenda.Tree.Outline
import Agenda.Proofs.Gesture.Circles
import Agenda.Proofs.Tree.Order
import Agenda.Proofs.Tree.Actionable
import Agenda.Proofs.Tree.Rearrangement
import Agenda.Proofs.Review
import Agenda.Proofs.Filter.Sorting
import Agenda.Proofs.Tree.Building
import Agenda.Proofs.Tree.Finishing
import Agenda.Proofs.Tree.Listing
import Agenda.Proofs.Arrangements
import Agenda.Proofs.Snapshot.Entries
import Agenda.Proofs.Snapshot.RoundTrip
import Agenda.Proofs.Snapshot.Refusals
import Agenda.Proofs.Page
import Agenda.Proofs.Page.Hiding
import Agenda.Proofs.SortKey.Bounds
import Agenda.Proofs.Command.Answers
import Agenda.Proofs.Tree.Groups
import Agenda.Proofs.Tree.Outline
import Agenda.Proofs.Tree.Ancestry
import Agenda.Proofs.Gesture.Moves
import Agenda.Proofs.Filter.Nesting
import Agenda.Proofs.Filter.Shapes
import Agenda.Proofs.Filter.Tiling
import Agenda.Proofs.Filter.Continuation
import Agenda.Proofs.Filter.Depth
import Agenda.Proofs.Filter.Rows
import Agenda.Proofs.Filter.Respelling
import Agenda.Proofs.Filter.Evaluation
import Agenda.Proofs.Text.Glob
import Agenda.Proofs.Filter.Operators
import Agenda.Proofs.SortKey.Bulk
import Agenda.Proofs.SortKey.Numbers
import Agenda.Proofs.Review.Lists
import Agenda.Proofs.Text.Words
import Agenda.Proofs.Title.Segments
import Agenda.Proofs.Text.Tidy
import Agenda.Proofs.Title.Links
import Agenda.Proofs.Title.Tokens
import Agenda.Proofs.Title.Beginnings
import Agenda.Proofs.Title.Kept
import Agenda.Proofs.Title.Cleaning
import Agenda.Proofs.Filter.Steps
import Agenda.Proofs.Filter.Viable
import Agenda.Proofs.Filter.Longer
import Agenda.Proofs.Completion.Pieces
import Agenda.Proofs.Completion.Finished
import Agenda.Proofs.Completion.InStep
import Agenda.Proofs.Completion.Offers
import Agenda.Proofs.Completion.Leads
import Agenda.Proofs.Completion.Legal
import Agenda.Proofs.Completion.Span
import Agenda.Proofs.Settings.Readings
import Agenda.Proofs.SortKey.Midpoints
import Agenda.Proofs.Settings.Changes
import Agenda.Proofs.Tree.Partition
