import Doclets.Proofs.Pipeline.Placement

/-!
The places of methods and constructors. A method is a member of whatever its path begins with, and
a constructor stands next to its class; neither asks what longname the class was given.
-/

namespace Doclets

open Longname (EndsIn Path Segment Whole member shorten)

namespace Documenter

variable {name key : String}

theorem lastSegment_of_endsIn (segment : Segment key) (ends : EndsIn key name) :
    lastSegment name = key := by
  have plain : ∀ c ∈ key.toList.reverse, (!isPunctuation c) = true := by
    intro c listed
    rw [Longname.isPunctuation_of_not_isMark (segment.plain c (List.mem_reverse.mp listed))]
    rfl
  unfold lastSegment
  cases ends with
  | alone =>
    have all := @List.takeWhile_append_of_pos _ _ _ [] plain
    rw [List.append_nil, List.takeWhile_nil, List.append_nil] at all
    rw [all, List.reverse_reverse, String.ofList_toList]
  | joined whole punctuation =>
    rw [Longname.toList_member, List.reverse_append, List.reverse_cons, List.append_assoc,
      List.takeWhile_append_of_pos plain, List.singleton_append, List.takeWhile_cons_of_neg (by
        simp [punctuation]), List.append_nil, List.reverse_reverse, String.ofList_toList]

/-- The arrow function that returns the class of a method, as the place of the method. -/
def factoryOwner? (ctx : Context) (i : NodeIndex) (isStatic : Bool) (name : String) :
    Option Placement :=
  (ctx.registry.ofNode? ctx.tree (ctx.tree.parent (ctx.tree.scope (some i)))).map fun d =>
    ⟨d.longname, some (if isStatic then .static else .perInstance), lastSegment name⟩

/-- What is declared under the name that a path begins with, as the place of its symbol. -/
def declaredOwner? (ctx : Context) (i : NodeIndex) (name : String) : Option Placement :=
  (Longname.basename? name).bind fun basename =>
    (ctx.registry.declared? ctx.tree (some i) basename).join.map fun longname =>
      ⟨longname, none, withoutBasename name basename⟩

/-- Where the code places a method: by its name, unless an arrow function returns its class. -/
def methodPlace? (ctx : Context) (module : Option String) (i : NodeIndex) (isStatic : Bool)
    (name : String) : Option Placement :=
  placement? ctx module (some i) name
    (if ctx.tree.isFactoryMethod (some i) then factoryOwner? ctx i isStatic name
      else declaredOwner? ctx i name)

/-- Where the code places a constructor: next to its class, as an inner member of what owns it. -/
def constructorPlace? (ctx : Context) (module : Option String) (i : NodeIndex) (name : String) :
    Option Placement :=
  placement? ctx module (some i) name
    (((ctx.registry.ofNode? ctx.tree (ctx.tree.scope (some i))).bind Doclet.memberof).map
      fun parent => ⟨parent, some .inner, lastSegment name⟩)

section

variable {ctx : Context} {module : Option String} {event : SymbolFound} {isStatic : Bool}
  {place : Option Placement}
  (untagged : ∀ part ∈ Comment.parts event.comment, ∀ origin,
    (Doclet.ofComment part origin).Untagged)
  (segment : Segment key) (ends : EndsIn key event.code.name)
  (undeclared : event.code.funcscope = none)
  (isMethod : ctx.tree.isKind (some event.node) .methodDefinition = true)
  (inside : isNamedExport ctx.tree (some event.node) = false)

include untagged segment ends undeclared inside

/-- A method that no declared name leads to an owner. -/
theorem memberof_namedMethod (longer : event.code.name ≠ key)
    (free : reserved? ctx module (some event.node) event.code.name = none)
    (named : ctx.tree.name (some event.node) = event.code.name)
    (owner : ctx.registry.owner ctx.tree (some event.node) =
      ctx.registry.ownerByName ctx.tree (some event.node) (ctx.tree.parent (some event.node)))
    (unknown : ctx.registry.ofNode? ctx.tree (ctx.tree.parent (some event.node)) = none)
    (found : (declaredOwner? ctx event.node event.code.name).or
      (inner? module event.code.name) = place)
    (fits : ∀ p ∈ place, p.Fits key) :
    ofSymbol ctx module event ≠ [] ∧ ∀ d ∈ ofSymbol ctx module event,
      d.memberof = some (parentAt place event.code.name) := by
  have unowned (ownerless : (ctx.registry.owner ctx.tree (some event.node)).memberof = none)
      (alone : inner? module event.code.name = place) :
      ofSymbol ctx module event ≠ [] ∧ ∀ d ∈ ofSymbol ctx module event,
        d.memberof = some (parentAt place event.code.name) := by
    obtain ⟨made, all⟩ := ofSymbol_unowned untagged segment ends undeclared inside free ownerless
      alone fits
    exact ⟨made, fun d listed => (all d listed).2 longer⟩
  rw [Registry.ownerByName, named] at owner
  unfold declaredOwner? at found
  cases base : Longname.basename? event.code.name with
  | none =>
    rw [base] at owner found
    exact unowned (by rw [owner]; rfl) found
  | some basename =>
    rw [base] at owner
    rw [base, Option.bind_some] at found
    dsimp only at owner
    cases declared : ctx.registry.declared? ctx.tree (some event.node) basename with
    | none =>
      rw [declared, unknown] at owner
      rw [declared] at found
      exact unowned (by rw [owner]; rfl) found
    | some longname =>
      rw [declared] at owner found
      cases longname with
      | none => exact unowned (by rw [owner]) found
      | some parent =>
        obtain rfl : some (Placement.mk parent none
          (withoutBasename event.code.name basename)) = place := found
        have own := fits _ rfl
        have filled := (ends.path segment).ne_empty
        exact ofSymbol_unscoped untagged segment filled own fun d begun => by
          rw [placed_of_unreserved begun free, inScope_declared owner own.whole]
          rfl

include isMethod

/-- A method of a class that an arrow function returns. -/
theorem memberof_factoryMethod (longer : event.code.name ≠ key)
    (free : reserved? ctx module (some event.node) event.code.name = none)
    (owner : ctx.registry.owner ctx.tree (some event.node) =
      ctx.registry.ownerOfFactoryMethod ctx.tree (ctx.tree.scope (some event.node)) isStatic)
    (found : (factoryOwner? ctx event.node isStatic event.code.name).or
      (inner? module event.code.name) = place)
    (fits : ∀ p ∈ place, p.Fits key) :
    ofSymbol ctx module event ≠ [] ∧ ∀ d ∈ ofSymbol ctx module event,
      d.memberof = some (parentAt place event.code.name) := by
  rw [Registry.ownerOfFactoryMethod] at owner
  unfold factoryOwner? at found
  cases above : ctx.registry.ofNode? ctx.tree
      (ctx.tree.parent (ctx.tree.scope (some event.node))) with
  | none =>
    rw [above] at owner found
    obtain ⟨made, all⟩ := ofSymbol_unowned untagged segment ends undeclared inside free
      (by rw [owner]; rfl) found fits
    exact ⟨made, fun d listed => (all d listed).2 longer⟩
  | some e =>
    rw [above] at owner found
    obtain rfl : some (Placement.mk e.longname
      (some (if isStatic then .static else .perInstance)) (lastSegment event.code.name)) =
        place := found
    have whole : Whole e.longname := (fits _ rfl).whole
    have last := lastSegment_of_endsIn segment ends
    obtain ⟨c, mark, joined, punctuation⟩ : ∃ c, isPunctuation c = true ∧
        (if isStatic then "." else "#") = String.singleton c ∧
        (if isStatic then Scope.static else Scope.perInstance).punctuation =
          String.singleton c := by
      cases isStatic
      · exact ⟨'#', rfl, rfl, rfl⟩
      · exact ⟨'.', rfl, rfl, rfl⟩
    rw [joined] at owner
    obtain ⟨made, all⟩ := ofSymbol_joined untagged segment (ends.path segment).ne_empty free owner
      whole mark (by rw [if_pos isMethod, last])
    refine ⟨made, fun d listed => ?_⟩
    unfold parentAt
    dsimp only
    rw [(all d listed).2, punctuation, last, ← member,
      Longname.shorten_member whole.toPath mark segment]

/-- A method is a member of what its place leads to. -/
theorem memberof_method (longer : event.code.name ≠ key)
    (named : ctx.tree.name (some event.node) = event.code.name)
    (owner : ctx.registry.owner ctx.tree (some event.node) =
      if ctx.tree.isFactoryMethod (some event.node) then
        ctx.registry.ownerOfFactoryMethod ctx.tree (ctx.tree.scope (some event.node)) isStatic
      else ctx.registry.ownerByName ctx.tree (some event.node) (ctx.tree.parent (some event.node)))
    (unknown : ctx.registry.ofNode? ctx.tree (ctx.tree.parent (some event.node)) = none)
    (found : methodPlace? ctx module event.node isStatic event.code.name = place)
    (fits : ∀ p ∈ place, p.Fits key) :
    ofSymbol ctx module event ≠ [] ∧ ∀ d ∈ ofSymbol ctx module event,
      d.memberof = some (parentAt place event.code.name) := by
  unfold methodPlace? placement? at found
  cases free : reserved? ctx module (some event.node) event.code.name with
  | some p =>
    rw [free, Option.some_or] at found
    subst found
    have own := fits p rfl
    obtain ⟨made, all⟩ := ofSymbol_reserved untagged segment (ends.path segment).ne_empty free
      (own.ends.path segment).ne_empty own
    exact ⟨made, fun d listed => (all d listed).2⟩
  | none =>
    rw [free, Option.none_or] at found
    by_cases factory : ctx.tree.isFactoryMethod (some event.node) = true
    · rw [if_pos factory] at owner found
      exact memberof_factoryMethod untagged segment ends undeclared isMethod inside longer free
        owner found fits
    · rw [if_neg factory] at owner found
      exact memberof_namedMethod untagged segment ends undeclared inside longer free named owner
        unknown found fits

/-- A constructor is what its place leads to. -/
theorem longname_constructor (other : event.code.name ≠ "this")
    (owner : ctx.registry.owner ctx.tree (some event.node) =
      ⟨((ctx.registry.ofNode? ctx.tree (ctx.tree.scope (some event.node))).bind
        Doclet.memberof).map (· ++ "~"), none⟩)
    (found : constructorPlace? ctx module event.node event.code.name = place)
    (whole : ∀ p ∈ place, Whole p.parent) (fits : ∀ p ∈ place, p.path ≠ "" → p.Fits key) :
    ofSymbol ctx module event ≠ [] ∧ ∀ d ∈ ofSymbol ctx module event,
      d.longname = longnameAt place event.code.name := by
  have filled := (ends.path segment).ne_empty
  unfold constructorPlace? placement? at found
  cases free : reserved? ctx module (some event.node) event.code.name with
  | some p =>
    rw [free, Option.some_or] at found
    subst found
    by_cases empty : p.path = ""
    · obtain ⟨made, all⟩ := ofSymbol_module untagged filled (whole p rfl).toPath undeclared
        fun d begun => placed_of_exports begun free empty (ends.path segment) other
      refine ⟨made, fun d listed => ?_⟩
      rw [all d listed, longnameAt, if_pos empty]
    · obtain ⟨made, all⟩ := ofSymbol_reserved untagged segment filled free empty
        (fits p rfl empty)
      exact ⟨made, fun d listed => (all d listed).1⟩
  | none =>
    rw [free, Option.none_or] at found
    cases above : (ctx.registry.ofNode? ctx.tree (ctx.tree.scope (some event.node))).bind
        Doclet.memberof with
    | none =>
      rw [above, Option.map_none, Option.none_or] at found
      rw [above] at owner
      have own (p : Placement) (member : p ∈ place) : p.Fits key := by
        obtain ⟨m, _, rfl⟩ := Option.map_eq_some_iff.mp (found.trans member)
        exact fits _ member filled
      obtain ⟨made, all⟩ := ofSymbol_unowned untagged segment ends undeclared inside free
        (by rw [owner]; rfl) found own
      exact ⟨made, fun d listed => (all d listed).1⟩
    | some parent =>
      rw [above, Option.map_some, Option.some_or] at found
      rw [above] at owner
      subst found
      have last := lastSegment_of_endsIn segment ends
      have joined : ctx.registry.owner ctx.tree (some event.node) =
          .parent (parent ++ String.singleton '~') := owner
      obtain ⟨made, all⟩ := ofSymbol_joined untagged segment filled free joined (whole _ rfl) rfl
        (by rw [if_pos isMethod, last])
      refine ⟨made, fun d listed => ?_⟩
      rw [(all d listed).1, longnameAt, last, if_neg segment.ne_empty]
      rfl

end

end Documenter

end Doclets
