import Doclets.Registry.Index
import Doclets.Symbol

/-!
All that a run has produced: the doclets, the results among them with their look-ups, and the
registrations by node and by longname that scopes are resolved with.
-/

namespace Doclets

structure Registry where
  doclets : Array Doclet
  /-- The results, in the order they were added. -/
  results : Array DocletId
  index : Index
  byNode : History ScopeKey
  byLongname : History String
  /-- The doclet of the scope around all units. -/
  global : DocletId
  /-- The number of units that were numbered. -/
  units : Nat

namespace Registry

/-- Only the doclet of the scope around all units, which is no result. -/
def empty : Registry where
  doclets := #[Doclet.globalScope]
  results := #[]
  index := .empty
  byNode := History.empty.put .global 0
  byLongname := History.empty.put Longname.global 0
  global := 0
  units := 0

/-- A number for the next unit. -/
def nextUnit (r : Registry) : Nat × Registry := (r.units, { r with units := r.units + 1 })

/-! ### Doclets and results -/

/-- The doclet stored as `id`. -/
def doclet (r : Registry) (id : DocletId) : Doclet := r.doclets.getD id .empty

/-- Stores a doclet without making it a result. -/
def insert (r : Registry) (d : Doclet) : DocletId × Registry :=
  (r.doclets.size, { r with doclets := r.doclets.push d })

def modify (r : Registry) (id : DocletId) (f : Doclet → Doclet) : Registry :=
  { r with doclets := r.doclets.modify id f }

/-- Makes a stored doclet a result. -/
def addResult (r : Registry) (id : DocletId) : Registry :=
  { r with results := r.results.push id, index := r.index.add id (r.doclet id) }

/-- Stores a doclet as a result. -/
def addDoclet (r : Registry) (d : Doclet) : DocletId × Registry :=
  let (id, r) := r.insert d
  (id, r.addResult id)

/-- Says whether a doclet has documentation, and files it accordingly. -/
def setUndocumented (r : Registry) (id : DocletId) (undocumented : Bool) : Registry :=
  let r := r.modify id fun d => { d with undocumented := undocumented }
  { r with index := r.index.refile id (r.doclet id) }

/-- The results, in order. -/
def resultDoclets (r : Registry) : List Doclet := r.results.toList.map r.doclet

/-! ### Registrations -/

/-- Registers a doclet for a node and under its longname. -/
def register (r : Registry) (key : ScopeKey) (id : DocletId) : Registry :=
  { r with
    byNode := r.byNode.put key id
    byLongname := r.byLongname.put (r.doclet id).longname id }

/-- Registers the doclet of a node. A function without one gets a placeholder, once, so that the
scope it opens is known to the nodes inside it. -/
def registerNode (r : Registry) (t : Tree) (node : NodeRef) (id : Option DocletId)
    (code : Symbol) : Registry :=
  let key := ScopeKey.node (t.nodeId node)
  match id with
  | some id => r.register key id
  | none =>
    let isFunction := (t.kind? node).any NodeKind.isFunction
    if !isFunction || r.byNode.contains key then r
    else
      let line := ((t.node? node).map fun n => n.position.line).getD 0
      let (id, r) := r.insert (Doclet.placeholder (code.origin t) t.fileName line)
      r.register key id

/-- The doclet registered last for a node; no node stands for the scope around all units. -/
def idOfNode? (r : Registry) (t : Tree) (node : NodeRef) : Option DocletId :=
  r.byNode.latest? (if node.isNone then .global else .node (t.nodeId node))

/-- The doclet registered last for a node. -/
def ofNode? (r : Registry) (t : Tree) (node : NodeRef) : Option Doclet :=
  if node.isNone then none else (r.idOfNode? t node).map r.doclet

/-- The doclet registered last under a longname. -/
def idOfLongname? (r : Registry) (longname : String) : Option DocletId :=
  r.byLongname.latest? longname

/-! ### Declared names -/

/-- Notes what a name declared in the scope of a doclet resolved to, so far. -/
def declare (r : Registry) (scope : DocletId) (name : String) (longname : Option String) :
    Registry :=
  r.modify scope fun d =>
    { d with origin := { d.origin with vars := Ledger.insert name longname d.origin.vars } }

/-! ### What an operation leaves as it is -/

variable (r : Registry) (id other : DocletId) (d : Doclet) (f : Doclet → Doclet)

@[simp] theorem doclets_size_modify : (r.modify id f).doclets.size = r.doclets.size := by
  simp [modify]

@[simp] theorem results_modify : (r.modify id f).results = r.results := rfl

@[simp] theorem index_modify : (r.modify id f).index = r.index := rfl

@[simp] theorem byNode_modify : (r.modify id f).byNode = r.byNode := rfl

@[simp] theorem byLongname_modify : (r.modify id f).byLongname = r.byLongname := rfl

theorem doclet_modify : (r.modify id f).doclet other =
    if id = other ∧ other < r.doclets.size then f (r.doclet other) else r.doclet other := by
  simp only [doclet, modify, Array.getD_eq_getD_getElem?, Array.getElem?_modify]
  by_cases inside : other < r.doclets.size
  · by_cases same : id = other <;> simp [same, inside]
  · simp [inside]

theorem doclet_modify_self {id : DocletId} (stored : id < r.doclets.size) :
    (r.modify id f).doclet id = f (r.doclet id) := by
  rw [doclet_modify, if_pos ⟨rfl, stored⟩]

theorem doclet_modify_of_ne {id other : DocletId} (apart : id ≠ other) :
    (r.modify id f).doclet other = r.doclet other := by
  rw [doclet_modify, if_neg fun both => apart both.1]

theorem doclet_declare_self {id : DocletId} (name : String) (longname : Option String)
    (stored : id < r.doclets.size) : (r.declare id name longname).doclet id =
      { r.doclet id with origin := { (r.doclet id).origin with
          vars := Ledger.insert name longname (r.doclet id).origin.vars } } :=
  r.doclet_modify_self _ stored

theorem doclet_declare_of_ne {id other : DocletId} (name : String) (longname : Option String)
    (apart : id ≠ other) : (r.declare id name longname).doclet other = r.doclet other :=
  r.doclet_modify_of_ne _ apart

@[simp] theorem doclets_size_addDoclet :
    (r.addDoclet d).2.doclets.size = r.doclets.size + 1 := by
  simp [addDoclet, insert, addResult]

@[simp] theorem addDoclet_fst : (r.addDoclet d).1 = r.doclets.size := rfl

@[simp] theorem byNode_addDoclet : (r.addDoclet d).2.byNode = r.byNode := rfl

@[simp] theorem byLongname_addDoclet : (r.addDoclet d).2.byLongname = r.byLongname := rfl

theorem results_addDoclet :
    (r.addDoclet d).2.results.toList = r.results.toList ++ [r.doclets.size] := by
  simp [addDoclet, insert, addResult]

@[simp] theorem doclets_size_insert : (r.insert d).2.doclets.size = r.doclets.size + 1 := by
  simp [insert]

theorem doclet_insert : (r.insert d).2.doclet other =
    if other = r.doclets.size then d else r.doclet other := by
  simp only [doclet, insert, Array.getD_eq_getD_getElem?, Array.getElem?_push]
  split <;> rfl

theorem doclet_insert_of_lt {other : DocletId} (old : other < r.doclets.size) :
    (r.insert d).2.doclet other = r.doclet other := by
  rw [doclet_insert, if_neg (Nat.ne_of_lt old)]

theorem doclet_addDoclet : (r.addDoclet d).2.doclet other =
    if other = r.doclets.size then d else r.doclet other := doclet_insert r other d

theorem index_addDoclet : (r.addDoclet d).2.index = r.index.add r.doclets.size d := by
  have stored : (r.insert d).2.doclet r.doclets.size = d := by simp [doclet_insert]
  simp only [addDoclet, addResult, insert] at stored ⊢
  rw [stored]

end Registry

end Doclets
