import Doclets.Diagnostic

/-!
Diagnostics as they are shown in a terminal, a line each and a count at the end, in colour or not.
-/

namespace Doclets

/-- How a terminal shows a text. -/
inductive Emphasis where
  | file
  | warning
  | error
  | strong

namespace Emphasis

/-- The sequence that begins to show text so. -/
def start : Emphasis → String
  | file => "\x1b[36m"
  | warning => "\x1b[1;33m"
  | error => "\x1b[1;31m"
  | strong => "\x1b[1m"

/-- The sequence that ends every emphasis. -/
def stop : String := "\x1b[0m"

/-- A text with emphasis, which begins again wherever the text itself ends it. -/
def apply (e : Emphasis) (text : String) : String :=
  e.start ++ (stop ++ e.start).intercalate (text.splitOn stop) ++ stop

end Emphasis

namespace Report

/-- A text with emphasis, if colours are on. -/
def shown (color : Bool) (e : Emphasis) (text : String) : String :=
  if color then e.apply text else text

def categoryEmphasis : Category → Emphasis
  | .warning => .warning
  | .error => .error

def line (color : Bool) (d : Diagnostic) : String :=
  let file := if d.file.isEmpty then "<unknown>" else d.file
  shown color .file file ++ " - " ++
    shown color (categoryEmphasis d.category) d.category.name ++ ": " ++ d.message

/-- The diagnostics, one after the other. -/
def text (color : Bool) (ds : List Diagnostic) : String := "\n".intercalate (ds.map (line color))

def counted (n : Nat) (noun : String) : String :=
  toString n ++ " " ++ noun ++ if n = 1 then "" else "s"

/-- How many errors and warnings there are, if there are any. -/
def summary (color : Bool) (ds : List Diagnostic) : Option String :=
  let errors := (ds.filter Diagnostic.isError).length
  let warnings := ds.length - errors
  let parts := (if errors = 0 then [] else [counted errors "error"]) ++
    (if warnings = 0 then [] else [counted warnings "warning"])
  if parts.isEmpty then none
  else some (shown color .strong ("Found " ++ " and ".intercalate parts ++ "."))

/-- Errors make the exit status of a run one, and, if it is to be pedantic, warnings do too. -/
def exitStatus (pedantic : Bool) (ds : List Diagnostic) : Nat :=
  if ds.any fun d => pedantic || d.isError then 1 else 0

end Report

end Doclets
