import Doclets.Text.Pieces

/-!
File paths: components between slashes. Empty components and single dots say nothing, except for a
dot at the start of a relative path.
-/

namespace Doclets.Path

def isAbsolute (path : String) : Bool := path.toList.head? = some '/'

/-- The components of a path; the root stands first, as `/`, in an absolute one. -/
def components (path : String) : List String :=
  let pieces := (Text.splitAt '/' path.toList).map String.ofList
  let kept := pieces.filter fun piece => piece ≠ "" && piece ≠ "."
  if isAbsolute path then "/" :: kept
  else if pieces.head? = some "." then "." :: kept
  else kept

/-- The path `path` as seen from the directory `base`: an absolute path is itself. -/
def join (base path : String) : String :=
  if isAbsolute path then path
  else if base.toList.getLast? = some '/' || base = "" then base ++ path
  else base ++ "/" ++ path

/-- Whether a path is written with a name at its end. -/
def endsInName (path : String) : Bool :=
  match (Text.splitAt '/' path.toList).getLast? with
  | some name => !(name.isEmpty || name = ['.'] || name = ['.', '.'])
  | none => false

/-- Whether `path` is `parent` or lies below it, component by component. -/
def startsWith (path parent : String) : Bool :=
  (components parent).isPrefixOf (components path)

/-- The last component, if that is a name. -/
def fileName? (path : String) : Option String :=
  match (components path).getLast? with
  | some "/" | some "." | some ".." | none => none
  | some name => some name

/-- A text cut at its last dot. -/
def cutLastDot : List Char → Option (List Char × List Char)
  | [] => none
  | c :: rest =>
    match cutLastDot rest with
    | some (before, after) => some (c :: before, after)
    | none => if c = '.' then some ([], rest) else none

/-- The file name without its extension. A dot at the start of a name begins no extension. -/
def fileStem (path : String) : String :=
  match fileName? path with
  | none => ""
  | some name =>
    match cutLastDot name.toList with
    | some (c :: before, _) => String.ofList (c :: before)
    | _ => name

/-- Whether a piece of a path, behind the first, says nothing. -/
def isIdle (piece : String) : Bool := piece = "" || piece = "."

/-- Pieces without the idle ones at the end. -/
def dropIdle (pieces : List String) : List String := (pieces.reverse.dropWhile isIdle).reverse

/-- The directory that holds what the path leads to, as it is written; the empty path for a bare
name, and none for the root and the empty path. -/
def parent? (path : String) : Option String :=
  match (Text.splitAt '/' path.toList).map String.ofList with
  | [] => none
  | first :: rest =>
    match dropIdle rest with
    | [] => if first = "" then none else some ""
    | names =>
      match first :: dropIdle names.dropLast with
      | [""] => some "/"
      | pieces => some ("/".intercalate pieces)

end Doclets.Path
