/-!
The forms that log output may take.
-/

namespace Doclets

inductive LogFormat where
  | text
  | tree
  | json
  deriving DecidableEq

namespace LogFormat

/-- The form of a name, in capital or small letters; any other name asks for text. -/
def ofName (name : String) : LogFormat :=
  match name.toLower with
  | "tree" => tree
  | "json" => json
  | _ => text

def name : LogFormat → String
  | text => "Text"
  | tree => "Tree"
  | json => "Json"

end LogFormat

end Doclets
