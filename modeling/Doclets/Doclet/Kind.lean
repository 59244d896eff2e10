/-!
What a doclet documents.
-/

namespace Doclets

inductive DocletKind where
  | «class»
  | constant
  | event
  | external
  | file
  | function
  | interface
  | member
  | mixin
  | module
  | namespace
  | package
  | typedef
  deriving DecidableEq

namespace DocletKind

def name : DocletKind → String
  | .class => "class"
  | .constant => "constant"
  | .event => "event"
  | .external => "external"
  | .file => "file"
  | .function => "function"
  | .interface => "interface"
  | .member => "member"
  | .mixin => "mixin"
  | .module => "module"
  | .namespace => "namespace"
  | .package => "package"
  | .typedef => "typedef"

def all : List DocletKind :=
  [.class, .constant, .event, .external, .file, .function, .interface, .member, .mixin, .module,
    .namespace, .package, .typedef]

def ofName? (name : String) : Option DocletKind := all.find? fun kind => kind.name = name

theorem ofName?_name (k : DocletKind) : ofName? k.name = some k := by
  cases k <;> decide

end DocletKind

end Doclets
