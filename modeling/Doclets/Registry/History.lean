import Std.Data.TreeMap
import Doclets.Tree.Node

/-!
Registrations by key. Every registration under a key is kept, in order; the latest one counts.
-/

namespace Doclets

abbrev DocletId := Nat

/-- What a doclet is registered for: the scope around all units, or a node. -/
inductive ScopeKey where
  | global
  | node (id : NodeId)
  deriving DecidableEq

namespace ScopeKey

/-- The place of a key in the order of keys: the scope around all units, and then unit by unit. -/
def place : ScopeKey → Nat × Nat
  | global => (0, 0)
  | node ⟨unit, none⟩ => (unit + 1, 0)
  | node ⟨unit, some index⟩ => (unit + 1, index + 1)

theorem place_injective {a b : ScopeKey} (h : a.place = b.place) : a = b := by
  rcases a with _ | ⟨ua, _ | ia⟩ <;> rcases b with _ | ⟨ub, _ | ib⟩ <;>
    simp_all [place]

instance : Ord ScopeKey :=
  ⟨compareLex (compareOn fun key => key.place.1) (compareOn fun key => key.place.2)⟩

instance : Std.TransOrd ScopeKey := inferInstanceAs (Std.TransCmp (compareLex _ _))

instance : Std.LawfulEqOrd ScopeKey where
  eq_of_compare {a b} h := by
    have both := compareLex_eq_eq.mp h
    exact place_injective (Prod.ext (Nat.compare_eq_eq.mp both.1) (Nat.compare_eq_eq.mp both.2))

end ScopeKey

structure History (κ : Type) [Ord κ] where
  entries : Std.TreeMap κ (Array DocletId)

namespace History

variable {κ : Type} [Ord κ]

def empty : History κ := ⟨∅⟩

/-- Registers a doclet after all others under the key. -/
def put (h : History κ) (key : κ) (id : DocletId) : History κ :=
  ⟨h.entries.alter key fun old => some ((old.getD #[]).push id)⟩

/-- Every doclet registered under the key, oldest first. -/
def all (h : History κ) (key : κ) : List DocletId :=
  match h.entries[key]? with
  | some ids => ids.toList
  | none => []

/-- The doclet registered last under the key. -/
def latest? (h : History κ) (key : κ) : Option DocletId := (h.entries[key]?).bind Array.back?

def contains (h : History κ) (key : κ) : Bool := h.entries.contains key

/-- The number of keys. -/
def size (h : History κ) : Nat := h.entries.size

def isEmpty (h : History κ) : Bool := h.size = 0

theorem latest?_eq_getLast? (h : History κ) (key : κ) :
    h.latest? key = (h.all key).getLast? := by
  unfold latest? all
  cases h.entries[key]? <;> simp

variable [Std.TransOrd κ]

@[simp] theorem all_empty (key : κ) : (empty : History κ).all key = [] := by
  simp [all, empty]

theorem all_put_self (h : History κ) (key : κ) (id : DocletId) :
    (h.put key id).all key = h.all key ++ [id] := by
  simp only [all, put, Std.TreeMap.getElem?_alter_self]
  cases h.entries[key]? <;> simp

theorem all_put_of_ne [Std.LawfulEqOrd κ] (h : History κ) {key other : κ} (ne : key ≠ other)
    (id : DocletId) : (h.put key id).all other = h.all other := by
  simp [all, put, Std.TreeMap.getElem?_alter, ne]

theorem mem_all_put [Std.LawfulEqOrd κ] {h : History κ} {key other : κ} {id old : DocletId} :
    old ∈ (h.put key id).all other ↔ old ∈ h.all other ∨ key = other ∧ old = id := by
  by_cases same : key = other
  · subst same
    simp [all_put_self]
  · simp [all_put_of_ne h same, same]

end History

end Doclets
