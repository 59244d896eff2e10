import Doclets.Json.Value

/-!
Problems found in single units. A unit with a problem is left out, and the run goes on.
-/

namespace Doclets

inductive Category where
  | warning
  | error
  deriving DecidableEq

def Category.name : Category → String
  | warning => "warning"
  | error => "error"

structure Diagnostic where
  category : Category
  file : String
  message : String
  deriving DecidableEq

namespace Diagnostic

def isError (d : Diagnostic) : Bool := d.category = .error

def text (d : Diagnostic) : String := d.file ++ ": " ++ d.category.name ++ ": " ++ d.message

def json (d : Diagnostic) : Json.Value :=
  .obj [("category", .str d.category.name), ("file", .str d.file), ("messageText", .str d.message)]

end Diagnostic

end Doclets
