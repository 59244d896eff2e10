/-!
Places in a source unit: positions by line and column, and ranges of offsets. Both are stored in
32-bit words.
-/

namespace Doclets

/-- A number as a 32-bit word keeps it. -/
def word32 (n : Nat) : Nat := n % 0x100000000

/-- A one-based line, zero when unknown, and a zero-based column. -/
structure Position where
  line : Nat
  column : Nat
  deriving DecidableEq

def Position.unknown : Position := ⟨0, 0⟩

/-- The offsets from `first` up to below `last`. -/
structure Range where
  first : Nat
  last : Nat
  deriving DecidableEq

namespace Range

def none : Range := ⟨0, 0⟩

def length (r : Range) : Nat := r.last - r.first

def isEmpty (r : Range) : Bool := decide (r.last ≤ r.first)

/-- Whether `inner` lies within `r`; an empty range lies wherever its ends do. -/
def contains (r inner : Range) : Bool := decide (r.first ≤ inner.first ∧ inner.last ≤ r.last)

end Range

end Doclets
