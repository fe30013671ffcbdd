import Cutscene.Main
import Cutscene.Rehearsal
import Cutscene.Proofs.Play.Step
import Cutscene.Proofs.Play.Throughout
import Cutscene.Proofs.Play.Arms
import Cutscene.Proofs.Text.Glyph
import Cutscene.Proofs.Text.Hiding
import Cutscene.Proofs.Source.Layout
import Cutscene.Proofs.Source.Lines
import Cutscene.Proofs.Source.Restored
import Cutscene.Proofs.Source.Expansion
import Cutscene.Proofs.Expr.Rows
import Cutscene.Proofs.Number.Spelling
import Cutscene.Proofs.Number.Zero
import Cutscene.Proofs.Number.Decimal
import Cutscene.Proofs.Number.Shown
import Cutscene.Proofs.Expr.Quoting
import Cutscene.Proofs.Play.Splice
import Cutscene.Proofs.Play.Guard
import Cutscene.Proofs.Play.Talk
import Cutscene.Proofs.Play.Exchange
import Cutscene.Proofs.Text.RoundTrip
import Cutscene.Proofs.Play.Counting
import Cutscene.Proofs.Play.Joining
import Cutscene.Proofs.Play.Fixed
import Cutscene.Proofs.Expr.Ending
import Cutscene.Proofs.Source.Comments
import Cutscene.Proofs.Session.Printed
import Cutscene.Proofs.Text.Signs
import Cutscene.Proofs.Text.Closing
import Cutscene.Proofs.Text.Bytes
import Cutscene.Proofs.Source.Spacing
import Cutscene.Proofs.Source.Skeleton
import Cutscene.Proofs.Source.Scan
import Cutscene.Proofs.Source.Sequence
import Cutscene.Proofs.Statement.Comparison
import Cutscene.Proofs.Statement.Sequence
import Cutscene.Proofs.Play.Order
import Cutscene.Proofs.Expr.Derivation
import Cutscene.Proofs.Expr.Writing
import Cutscene.Proofs.Source.Brackets
import Cutscene.Proofs.Statement.Depth
import Cutscene.Proofs.Statement.Template
import Cutscene.Proofs.Library.Latest
import Cutscene.Proofs.Play.Cursor
import Cutscene.Proofs.Play.Ahead
import Cutscene.Proofs.Play.Form
import Cutscene.Proofs.Play.Once
import Cutscene.Proofs.Play.Held
import Cutscene.Proofs.Runner.Loading
import Cutscene.Proofs.Session.Written
import Cutscene.Proofs.Runner.Frames
import Cutscene.Proofs.Value.Sameness
import Cutscene.Proofs.Play.Ensemble
import Cutscene.Proofs.Play.Pauses
import Cutscene.Proofs.Play.Asking
import Cutscene.Proofs.Source.Settled
import Cutscene.Proofs.Source.Single
import Cutscene.Proofs.Statement.Idempotence
import Cutscene.Proofs.Statement.Descent
import Cutscene.Proofs.Source.Segments
import Cutscene.Proofs.Source.Definitions
import Cutscene.Proofs.Expr.Literal
import Cutscene.Proofs.Session.Names
import Cutscene.Proofs.Session.Groups
