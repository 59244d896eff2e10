import Doclets.Ledger

/-!
JSON values. Integers and floating-point numbers are kept apart, and an object keeps its members
in the order they were written.
-/

namespace Doclets.Json

inductive Value where
  | null
  | bool (value : Bool)
  | int (value : Int)
  | float (value : Float)
  | str (value : String)
  | arr (items : List Value)
  | obj (members : List (String × Value))
  deriving Inhabited

namespace Value

def members? : Value → Option (List (String × Value))
  | .obj members => some members
  | _ => none

def items? : Value → Option (List Value)
  | .arr items => some items
  | _ => none

def str? : Value → Option String
  | .str text => some text
  | _ => none

def bool? : Value → Option Bool
  | .bool b => some b
  | _ => none

/-- A non-negative integer; a float is none, whatever its value. -/
def nat? : Value → Option Nat
  | .int (.ofNat n) => some n
  | _ => none

def isNull : Value → Bool
  | .null => true
  | _ => false

/-- The member called `key` of an object. -/
def get? (key : String) : Value → Option Value
  | .obj members => Ledger.get? key members
  | _ => none

/-- The word for the kind of a value. -/
def kindName : Value → String
  | .null => "null"
  | .bool _ => "boolean"
  | .int _ | .float _ => "number"
  | .str _ => "string"
  | .arr _ => "array"
  | .obj _ => "object"

def strings (texts : List String) : Value := .arr (texts.map .str)

def ofNat (n : Nat) : Value := .int n

def naturals (ns : List Nat) : Value := .arr (ns.map ofNat)

/-- An optional value, written `null` when absent. -/
def ofOption {α : Type} (f : α → Value) : Option α → Value
  | none => .null
  | some a => f a

end Value

/-- A member that is written only if there is a value for it. -/
def memberIf {α : Type} (key : String) (f : α → Value) : Option α → List (String × Value)
  | none => []
  | some a => [(key, f a)]

/-- A list that is written only if it is not empty. -/
def memberUnlessEmpty {α : Type} (key : String) (f : List α → Value) :
    List α → List (String × Value)
  | [] => []
  | items => [(key, f items)]

end Doclets.Json
