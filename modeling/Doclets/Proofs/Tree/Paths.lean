import Doclets.Proofs.Tree.ClassBody

/-!
Paths in a tree: the keys of properties, chains of members, and the statements that assign to them.
-/

namespace Doclets

open Longname (member)

namespace Tree

variable {t : Tree} {i s x b : NodeIndex} {key path : String} {right : NodeRef}

/-! ### Properties -/

/-- A property whose key is an identifier. -/
structure IsProperty (t : Tree) (i : NodeIndex) (key : String) : Prop where
  payload : ∃ name value form computed shorthand,
    t.payload? (some i) = some (.property name value form computed shorthand) ∧
    t.payload? name = some (.identifier key)

theorem nameWithin_of_identifier {r : NodeRef} (payload : t.payload? r = some (.identifier key))
    (fuel : Nat) : t.nameWithin (fuel + 1) r = some key := by
  obtain ⟨n, stored, shape⟩ := Option.map_eq_some_iff.mp payload
  rw [nameWithin, stored]
  dsimp only
  rw [shape]

/-- A property is called by its key, and stands for its value. -/
theorem Grown.symbol_of_property (h : t.Grown) (isProperty : t.IsProperty i key) :
    t.kind? (some i) = some .property ∧ t.name (some i) = key ∧
      ∃ value, Symbol.ofNode? t (some i) = some (Symbol.ofValue t key value) := by
  obtain ⟨name, value, form, computed, shorthand, payload, identifier⟩ := isProperty.payload
  obtain ⟨n, stored, shape, listed⟩ := h.stored_of_payload payload
  have kind : n.kind = .property := by simpa [Payload.kinds] using listed
  have called : t.name name = key := by
    rw [Tree.name, nameWithin_of_identifier identifier]
    rfl
  refine ⟨by rw [kind?, stored, Option.map_some, kind], ?_, value, ?_⟩
  · rw [Tree.name, nameWithin, stored]
    dsimp only
    rw [shape]
    dsimp only
    rw [nameWithin_of_identifier identifier]
    rfl
  · unfold Symbol.ofNode?
    rw [stored]
    dsimp only
    rw [kind, shape]
    dsimp only
    rw [called]
    rfl

/-! ### Chains of members -/

/-- A chain of members, from an identifier on, and the path that it spells. -/
inductive Spells (t : Tree) : NodeRef → String → Prop where
  | identifier {r : NodeRef} {name : String} (payload : t.payload? r = some (.identifier name)) :
    Spells t r name
  | member {r object property : NodeRef} {path name : String} (front : Spells t object path)
    (last : t.payload? property = some (.identifier name))
    (payload : t.payload? r = some (.member object property false)) :
    Spells t r (member path '.' name)

theorem Grown.lt_of_ref (h : t.Grown) {payload : Payload} {v : NodeIndex}
    (known : t.payload? (some i) = some payload) (listed : some v ∈ payload.refs) : v < i :=
  h.below i v ((h.shaped i payload known).2 v listed)

theorem index_of_payload {r : NodeRef} {payload : Payload} (known : t.payload? r = some payload) :
    ∃ v, r = some v ∧ v < t.nodes.size := by
  obtain ⟨n, stored, _⟩ := Option.map_eq_some_iff.mp known
  obtain ⟨v, rfl, stored⟩ := Option.bind_eq_some_iff.mp stored
  exact ⟨v, rfl, (Array.getElem?_eq_some_iff.mp stored).1⟩

theorem nameWithin_of_spells (h : t.Grown) {r : NodeRef} (spells : t.Spells r path) {fuel : Nat}
    (enough : ∀ v, r = some v → v < fuel) : t.nameWithin fuel r = some path := by
  induction spells generalizing fuel with
  | identifier payload =>
    obtain ⟨v, rfl, _⟩ := index_of_payload payload
    obtain ⟨fuel, rfl⟩ :=
      Nat.exists_eq_succ_of_ne_zero (Nat.ne_of_gt (Nat.zero_lt_of_lt (enough v rfl)))
    exact nameWithin_of_identifier payload fuel
  | @member r object property path name front last payload ih =>
    obtain ⟨v, rfl, _⟩ := index_of_payload payload
    obtain ⟨w, rfl, _⟩ := index_of_payload last
    have below := h.lt_of_ref payload (v := w) (by simp [Payload.refs])
    obtain ⟨fuel, rfl⟩ :=
      Nat.exists_eq_succ_of_ne_zero (Nat.ne_of_gt (Nat.zero_lt_of_lt (enough v rfl)))
    have inside := Nat.lt_succ_iff.mp (enough v rfl)
    have first : t.nameWithin fuel object = some path := ih fun u same => by
      subst same
      exact Nat.lt_of_lt_of_le (h.lt_of_ref payload (by simp [Payload.refs])) inside
    obtain ⟨rest, rfl⟩ := Nat.exists_eq_succ_of_ne_zero
      (Nat.ne_of_gt (Nat.zero_lt_of_lt (Nat.lt_of_lt_of_le below inside)))
    obtain ⟨n, stored, shape⟩ := Option.map_eq_some_iff.mp payload
    rw [nameWithin, stored]
    dsimp only
    rw [shape]
    dsimp only
    rw [first, nameWithin_of_identifier last]
    rfl

/-- An assignment is called by the path that it assigns to. -/
theorem Grown.name_of_assignment (h : t.Grown) {operator : String} {left right : NodeRef}
    (payload : t.payload? (some i) = some (.assignment operator left right))
    (spells : t.Spells left path) : t.name left = path ∧ t.name (some i) = path := by
  obtain ⟨_, same, bound⟩ := index_of_payload payload
  cases same
  have inside (v : NodeIndex) (same : left = some v) : v < t.nodes.size :=
    Nat.lt_trans (h.lt_of_ref payload (by simp [Payload.refs, same])) bound
  constructor
  · rw [name, nameWithin_of_spells h spells fun v same => Nat.lt_add_right 2 (inside v same)]
    rfl
  · obtain ⟨n, stored, shape⟩ := Option.map_eq_some_iff.mp payload
    rw [name, nameWithin, stored]
    dsimp only
    rw [shape]
    dsimp only
    exact congrArg (Option.getD · "")
      (nameWithin_of_spells h spells fun v same => Nat.lt_add_right 1 (inside v same))

/-! ### Assignments as statements -/

/-- A statement that assigns `right` to a path. -/
structure AssignsPath (t : Tree) (i : NodeIndex) (path : String) (right : NodeRef) : Prop where
  payload : ∃ operator left,
    t.payload? (some i) = some (.assignment operator left right) ∧ t.Spells left path
  statement : ∃ s b : NodeIndex, t.parent (some i) = some s ∧ t.parent (some s) = some b ∧
    t.kind? (some s) = some .expressionStatement ∧
    (t.kind? (some b) = some .program ∨ t.kind? (some b) = some .blockStatement)

theorem symbol_of_plain {kind : NodeKind} (known : t.kind? (some i) = some kind)
    (plain : kind.isSymbol = false) : Symbol.ofNode? t (some i) = none := by
  obtain ⟨n, stored, rfl⟩ := Option.map_eq_some_iff.mp known
  unfold Symbol.ofNode?
  rw [stored]
  dsimp only
  rw [plain, if_neg Bool.false_ne_true]

/-- Only the node that lists it can stand for a node that is no symbol itself. -/
theorem Grown.eq_of_symbol (h : t.Grown) {kind : NodeKind} {code : Symbol} {j : NodeIndex}
    (known : t.kind? (some x) = some kind) (plain : kind.isSymbol = false)
    (listed : x ∈ t.childrenOf b) (symbol : Symbol.ofNode? t (some j) = some code)
    (here : code.node = some x) : j = b := by
  rcases h.node_of_symbol symbol here with rfl | child
  · rw [symbol_of_plain known plain] at symbol
    cases symbol
  · exact h.unique j b x child listed

/-- No symbol stands for a statement. -/
theorem Grown.not_symbol_of_statement (h : t.Grown) {s : NodeIndex}
    (above : t.parent (some s) = some b) (statement : t.kind? (some s) = some .expressionStatement)
    (block : t.kind? (some b) = some .program ∨ t.kind? (some b) = some .blockStatement)
    {code : Symbol} {j : NodeIndex} (symbol : Symbol.ofNode? t (some j) = some code) :
    code.node ≠ some s := by
  intro here
  obtain rfl := h.eq_of_symbol statement rfl (h.linked s b above).1 symbol here
  rcases block with program | block
  · rw [symbol_of_plain program rfl] at symbol
    cases symbol
  · rw [symbol_of_plain block rfl] at symbol
    cases symbol

end Tree

end Doclets
