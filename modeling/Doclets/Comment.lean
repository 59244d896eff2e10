import Doclets.Comment.Text
import Doclets.Location

/-!
Source comments. The value of a comment excludes its delimiters.
-/

namespace Doclets

inductive CommentKind where
  | block
  | line
  deriving DecidableEq

structure Comment where
  kind : CommentKind
  value : String
  range : Range
  position : Position

namespace Comment

/-- The comment as it is written, delimiters included. -/
def raw (c : Comment) : String :=
  match c.kind with
  | .block => blockText c.value
  | .line => "//" ++ c.value

/-- The value of a block comment by its written form; a text that is none is its own value. -/
def valueOf (raw : String) : String :=
  ((Text.after? "/*" raw).bind (Text.before? "*/")).getD raw

/-- The comment with its text replaced by a written block comment. -/
def withRaw (c : Comment) (raw : String) : Comment :=
  { c with kind := .block, value := valueOf raw }

def isDoc (c : Comment) : Bool := c.kind = .block && isDocText c.raw

end Comment

end Doclets
