import Doclets.Text.Alphanumeric
import Doclets.Text.Pieces

/-!
The text of a block comment. A documentation comment opens with a slash and exactly two stars; its
content stands behind a left margin of stars. A comment may hold several parts, separated by the
marker `@also`, and each part documents on its own.
-/

namespace Doclets.Comment

/-- A block comment as it is written, from the text between its delimiters. -/
def blockText (value : String) : String := "/*" ++ value ++ "*/"

/-- Whether a block comment is a documentation comment: three stars open a banner, and the four
bytes of the empty comment are too few. -/
def isDocText (raw : String) : Bool :=
  decide (4 < raw.utf8ByteSize) && "/**".toList.isPrefixOf raw.toList &&
    !"/***".toList.isPrefixOf raw.toList

def isStar (c : Char) : Bool := c = '*'

/-- The text without the opening delimiter and the stars after it. -/
def dropOpening (cs : List Char) : List Char :=
  match cs with
  | '/' :: '*' :: rest => rest.dropWhile isStar
  | cs => cs

/-- The text without the closing delimiter and the stars before it. -/
def dropClosing (cs : List Char) : List Char :=
  match ['*', '/'].isSuffixOf? cs with
  | some rest => Text.dropEndWhile isStar rest
  | none => cs

/-- A line without its left margin: blanks, then a star, then one space. -/
def dropMargin (line : List Char) : List Char :=
  match Text.trimStart line with
  | '*' :: ' ' :: rest => rest
  | '*' :: rest => rest
  | line => line

/-- The content of a comment or of a part of one, which may lack either delimiter. -/
def content (raw : List Char) : List Char :=
  Text.trim (Text.joinLines
    ((Text.lines (dropClosing (dropOpening (Text.trim raw)))).map dropMargin))

def unwrap (raw : String) : String := String.ofList (content raw.toList)

/-- Whether a marker may end in front of this text: no letter, digit or underscore follows. -/
def endsWord : List Char → Bool
  | [] => true
  | c :: _ => !(Text.isAlphanumeric c || c = '_')

/-- The parts of a text whose current part begins, reversed, with `part`. -/
def partsFrom (part : List Char) : List Char → List (List Char)
  | [] => [part.reverse]
  | '@' :: 'a' :: 'l' :: 's' :: 'o' :: rest =>
    if endsWord rest then part.reverse :: partsFrom [] rest
    else partsFrom ('o' :: 's' :: 'l' :: 'a' :: '@' :: part) rest
  | c :: rest => partsFrom (c :: part) rest

/-- The parts of a comment, in order; without a marker the comment is its own only part. -/
def parts (comment : String) : List String := (partsFrom [] comment.toList).map String.ofList

/-- The value of a comment that minifiers were asked to keep, which opens with `!` in front of the
star of a documentation comment, read as the documentation comment it stands for. -/
def unmask (value : String) : String :=
  match value.toList with
  | '!' :: '*' :: rest => String.ofList ('*' :: rest)
  | _ => value

/-- Two comments written back to back as one comment of two parts, by their values. -/
def merge (first second : String) : String :=
  first ++ "@also" ++ String.ofList (second.toList.dropWhile isStar)

end Doclets.Comment
