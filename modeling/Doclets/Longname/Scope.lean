/-!
The relation of a symbol to its parent, and the punctuation that spells it out in a longname.
-/

namespace Doclets

inductive Scope where
  | global
  | static
  | perInstance
  | inner
  deriving DecidableEq

namespace Scope

/-- The scope that a punctuation character stands for. -/
def ofPunctuation : Char → Option Scope
  | '.' => some .static
  | '#' => some .perInstance
  | '~' => some .inner
  | _ => none

/-- The character that joins a member to its parent; a global has none. -/
def punctuation? : Scope → Option Char
  | .global => none
  | .static => some '.'
  | .perInstance => some '#'
  | .inner => some '~'

def punctuation (s : Scope) : String :=
  match s.punctuation? with
  | none => ""
  | some c => String.singleton c

def name : Scope → String
  | .global => "global"
  | .static => "static"
  | .perInstance => "instance"
  | .inner => "inner"

def ofName? : String → Option Scope
  | "global" => some .global
  | "static" => some .static
  | "instance" => some .perInstance
  | "inner" => some .inner
  | _ => none

theorem ofPunctuation_eq_some_iff {c : Char} {s : Scope} :
    ofPunctuation c = some s ↔ s.punctuation? = some c := by
  constructor
  · intro h
    unfold ofPunctuation at h
    split at h <;> cases h <;> rfl
  · intro h
    cases s <;> cases h <;> rfl

end Scope

/-- Whether a character joins a member to its parent. -/
def isPunctuation (c : Char) : Bool := c = '.' || c = '#' || c = '~'

end Doclets
