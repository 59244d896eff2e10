import Doclets.CommandLine.Arguments
import Doclets.CommandLine.Invocation
import Doclets.CommandLine.LogFormat
import Doclets.CommandLine.Settings
import Doclets.Comment
import Doclets.Comment.Text
import Doclets.Decimal.Reading
import Doclets.Decimal.Shortest
import Doclets.Diagnostic
import Doclets.Doclet
import Doclets.Doclet.Identity
import Doclets.Doclet.Json
import Doclets.Doclet.Kind
import Doclets.Doclet.Package
import Doclets.Doclet.Tags
import Doclets.Glob.Matching
import Doclets.Glob.Pattern
import Doclets.Json.Printer
import Doclets.Json.Reader
import Doclets.Json.Token
import Doclets.Json.Value
import Doclets.Ledger
import Doclets.Location
import Doclets.Longname.Scope
import Doclets.Longname.Text
import Doclets.Main
import Doclets.Path
import Doclets.Pipeline.Documenter
import Doclets.Pipeline.Flow
import Doclets.Pipeline.Handler
import Doclets.Pipeline.Run
import Doclets.Pipeline.Walk
import Doclets.Proofs.Comment.Margins
import Doclets.Proofs.Comment.Merging
import Doclets.Proofs.Comment.Parts
import Doclets.Proofs.Comment.Writing
import Doclets.Proofs.Doclet.Agreement
import Doclets.Proofs.Doclet.Borrows
import Doclets.Proofs.Doclet.Braces
import Doclets.Proofs.Doclet.Globals
import Doclets.Proofs.Doclet.Identity
import Doclets.Proofs.Doclet.Prototypes
import Doclets.Proofs.Doclet.Spellings
import Doclets.Proofs.Doclet.Tags
import Doclets.Proofs.Doclet.Types
import Doclets.Proofs.Doclet.Units
import Doclets.Proofs.Longname.Openings
import Doclets.Proofs.Longname.Prototypes
import Doclets.Proofs.Longname.Remainders
import Doclets.Proofs.Longname.Shortening
import Doclets.Proofs.Longname.Spelling
import Doclets.Proofs.Longname.Whole
import Doclets.Proofs.Longname.Words
import Doclets.Proofs.Pipeline.Checked
import Doclets.Proofs.Pipeline.ClassMembers
import Doclets.Proofs.Pipeline.CommentParts
import Doclets.Proofs.Pipeline.Completion
import Doclets.Proofs.Pipeline.Documenting
import Doclets.Proofs.Pipeline.Enumerations
import Doclets.Proofs.Pipeline.Failures
import Doclets.Proofs.Pipeline.InnerMembers
import Doclets.Proofs.Pipeline.Isolation
import Doclets.Proofs.Pipeline.Joining
import Doclets.Proofs.Pipeline.LiteralProperties
import Doclets.Proofs.Pipeline.MemberPaths
import Doclets.Proofs.Pipeline.Membership
import Doclets.Proofs.Pipeline.MethodPlaces
import Doclets.Proofs.Pipeline.Placement
import Doclets.Proofs.Pipeline.Protocol
import Doclets.Proofs.Pipeline.PrototypeMembers
import Doclets.Proofs.Pipeline.PrototypePlaces
import Doclets.Proofs.Pipeline.Reading
import Doclets.Proofs.Pipeline.Reassignment
import Doclets.Proofs.Pipeline.Recording
import Doclets.Proofs.Pipeline.Requests
import Doclets.Proofs.Pipeline.Restart
import Doclets.Proofs.Pipeline.Retention
import Doclets.Proofs.Pipeline.ScopesFirst
import Doclets.Proofs.Pipeline.SeenComments
import Doclets.Proofs.Pipeline.Soundness
import Doclets.Proofs.Pipeline.Units
import Doclets.Proofs.Pipeline.Visits
import Doclets.Proofs.Pipeline.WalkOrder
import Doclets.Proofs.Registry.BorrowedCopies
import Doclets.Proofs.Registry.Borrowing
import Doclets.Proofs.Registry.Checked
import Doclets.Proofs.Registry.Closure
import Doclets.Proofs.Registry.Consistency
import Doclets.Proofs.Registry.Enumerations
import Doclets.Proofs.Registry.Held
import Doclets.Proofs.Registry.Inheritance
import Doclets.Proofs.Registry.Isolation
import Doclets.Proofs.Registry.Lexical
import Doclets.Proofs.Registry.Limits
import Doclets.Proofs.Registry.Names
import Doclets.Proofs.Registry.Overloads
import Doclets.Proofs.Registry.Owners
import Doclets.Proofs.Registry.Precedence
import Doclets.Proofs.Registry.Repetition
import Doclets.Proofs.Registry.Requests
import Doclets.Proofs.Registry.Retention
import Doclets.Proofs.Registry.Safety
import Doclets.Proofs.Registry.Soundness
import Doclets.Proofs.Registry.Stacking
import Doclets.Proofs.Text.Blanks
import Doclets.Proofs.Text.Pieces
import Doclets.Proofs.Tree.Acceptance
import Doclets.Proofs.Tree.Announcing
import Doclets.Proofs.Tree.Attachment
import Doclets.Proofs.Tree.Bisection
import Doclets.Proofs.Tree.ClassBody
import Doclets.Proofs.Tree.Comments
import Doclets.Proofs.Tree.Declarations
import Doclets.Proofs.Tree.Depth
import Doclets.Proofs.Tree.Enclosing
import Doclets.Proofs.Tree.Growth
import Doclets.Proofs.Tree.Links
import Doclets.Proofs.Tree.Naming
import Doclets.Proofs.Tree.Nesting
import Doclets.Proofs.Tree.Order
import Doclets.Proofs.Tree.Paths
import Doclets.Proofs.Tree.Shape
import Doclets.Proofs.Tree.Spanning
import Doclets.Proofs.Tree.Units
import Doclets.Registry
import Doclets.Registry.Borrows
import Doclets.Registry.FollowUp
import Doclets.Registry.History
import Doclets.Registry.Index
import Doclets.Registry.Inheritance
import Doclets.Registry.Scopes
import Doclets.Report
import Doclets.Source.Disk
import Doclets.Source.Encoding
import Doclets.Source.Selection
import Doclets.Source.Unit
import Doclets.Symbol
import Doclets.Text.Alphanumeric
import Doclets.Text.Blank
import Doclets.Text.Pieces
import Doclets.Tree
import Doclets.Tree.Builder
import Doclets.Tree.Estree
import Doclets.Tree.Json
import Doclets.Tree.Kind
import Doclets.Tree.Name
import Doclets.Tree.Node
import Doclets.Tree.Scopes
