import Doclets.Pipeline.Documenter
import Doclets.Proofs.Doclet.Units
import Doclets.Proofs.Tree.Units

/-!
The number of the unit that a symbol stands in decides nothing about its doclets: they are those of
the same symbol in another unit, as long as the scopes that they are placed by are resolved alike.
-/

namespace Doclets

variable {r s : Registry} {u v : Nat} {t : Tree} {module : Option String} {event : SymbolFound}

namespace Documenter

theorem inModule_inUnit (module : Option String) (exported : Bool) (d : Doclet) (u : Nat) :
    inModule module exported (d.inUnit u) = (inModule module exported d).inUnit u := by
  unfold inModule
  cases module with
  | none => rfl
  | some module =>
    dsimp only
    have said : (if (d.inUnit u).scope.isSome then d.inUnit u
        else { d.inUnit u with scope := some (if exported then .static else .inner) }) =
        (if d.scope.isSome then d
          else { d with scope := some (if exported then .static else .inner) }).inUnit u := by
      rw [apply_ite (Doclet.inUnit · u)]
      rfl
    rw [said]
    generalize (if d.scope.isSome then d
      else { d with scope := some (if exported then .static else .inner) }) = e
    rw [apply_ite (Doclet.inUnit · u), apply_ite (Doclet.inUnit · u)]
    rfl

theorem onExports_inUnit (module rest : String) (d : Doclet) (u : Nat) :
    onExports module rest (d.inUnit u) = (onExports module rest d).inUnit u := by
  unfold onExports
  split <;> rfl

theorem described_inUnit (event : SymbolFound) (part : String) :
    described ⟨r, t.inUnit u⟩ event part = (described ⟨s, t.inUnit v⟩ event part).inUnit u := by
  have origin : { Origin.at event.file event.line event.column with
        code := some (event.code.origin (t.inUnit u)) } =
      ({ Origin.at event.file event.line event.column with
        code := some (event.code.origin (t.inUnit v)) } : Origin).inUnit u := rfl
  unfold described
  dsimp only
  rw [origin, Doclet.ofComment_inUnit, Doclet.ofComment_inUnit, Doclet.name_inUnit]
  split <;> rfl

/-! ### What is filled in -/

theorem outermost_inUnit {d e : Doclet} (same : d = e.inUnit u) (module : Option String) :
    (if d.memberof.isNone && !d.isModule && !decide (module = d.name) then
      { d with scope := some Scope.global } else d) =
    (if e.memberof.isNone && !e.isModule && !decide (module = e.name) then
      { e with scope := some Scope.global } else e).inUnit u := by
  rw [same, apply_ite (Doclet.inUnit · u)]
  rfl

theorem constant_inUnit {d e : Doclet} (same : d = e.inUnit u) (kind? : Option DocletKind) :
    (match kind? with
      | some kind => if d.kind = some DocletKind.member then { d with kind := some kind } else d
      | none => d) =
    (match kind? with
      | some kind => if e.kind = some DocletKind.member then { e with kind := some kind } else e
      | none => e).inUnit u := by
  rw [same]
  cases kind? with
  | none => rfl
  | some kind =>
    dsimp only
    rw [apply_ite (Doclet.inUnit · u)]
    rfl

theorem augmented_inUnit {d e : Doclet} (same : d = e.inUnit u) (parent? : Option String) :
    (if d.isClass then
      match parent? with
      | some parent => d.augment parent
      | none => d
    else d) =
    (if e.isClass then
      match parent? with
      | some parent => e.augment parent
      | none => e
    else e).inUnit u := by
  rw [same, apply_ite (Doclet.inUnit · u)]
  cases parent? with
  | none => rfl
  | some parent =>
    dsimp only
    rw [Doclet.augment_inUnit]
    rfl

theorem completed_inUnit (event : SymbolFound) (d : Doclet) :
    completed ⟨r, t.inUnit u⟩ module event (d.inUnit u) =
      (completed ⟨s, t.inUnit v⟩ module event d).inUnit u := by
  have parent : superName? (t.inUnit u) event.code.node =
      superName? (t.inUnit v) event.code.node := by
    simp only [superName?, Tree.payload?_inUnit, Tree.name_inUnit]
  have kind : ({ d.inUnit u with
        kind := some (d.kind.getD (event.code.impliedKind (t.inUnit u) event.node)) } : Doclet) =
      ({ d with
        kind := some (d.kind.getD (event.code.impliedKind (t.inUnit v) event.node)) } :
          Doclet).inUnit u := rfl
  unfold completed
  dsimp only
  rw [parent]
  exact augmented_inUnit (constant_inUnit (outermost_inUnit kind module) event.code.docletKind) _

/-! ### Where a symbol is placed -/

theorem onThis_inUnit {node : NodeRef}
    (same : r.this (t.inUnit u) node = s.this (t.inUnit v) node) (rest : String) (d : Doclet) :
    onThis ⟨r, t.inUnit u⟩ node rest (d.inUnit u) =
      (onThis ⟨s, t.inUnit v⟩ node rest d).inUnit u := by
  unfold onThis
  dsimp only
  rw [same, apply_ite (Doclet.inUnit · u)]
  rfl

theorem inScope_inUnit {node : NodeRef}
    (same : r.owner (t.inUnit u) node = s.owner (t.inUnit v) node) (name : String) (d : Doclet) :
    inScope ⟨r, t.inUnit u⟩ module node name (d.inUnit u) =
      (inScope ⟨s, t.inUnit v⟩ module node name d).inUnit u := by
  unfold inScope
  dsimp only
  rw [same]
  split
  · rfl
  · exact inModule_inUnit module (isNamedExport t node) d u

theorem placed_inUnit {node : NodeRef} (d : Doclet)
    (this : below? "this" (d.name.getD "") ≠ none →
      r.this (t.inUnit u) node = s.this (t.inUnit v) node)
    (owner : below? "this" (d.name.getD "") = none → exported? module (d.name.getD "") = none →
      r.owner (t.inUnit u) node = s.owner (t.inUnit v) node) :
    placed ⟨r, t.inUnit u⟩ module node (d.inUnit u) =
      (placed ⟨s, t.inUnit v⟩ module node d).inUnit u := by
  unfold placed
  dsimp only
  rw [Doclet.name_inUnit]
  cases below : below? "this" (d.name.getD "") with
  | some rest => exact onThis_inUnit (this (by simp [below])) rest d
  | none =>
    cases exported : exported? module (d.name.getD "") with
    | some path => exact onExports_inUnit path.1 path.2 d u
    | none => exact inScope_inUnit (owner below exported) (d.name.getD "") d

/-- A part of a comment documents the symbol as it does in another unit, if what its place depends
on is the same. -/
theorem ofSymbolPart_inUnit
    (this : below? "this" event.code.name ≠ none →
      r.this (t.inUnit u) (some event.node) = s.this (t.inUnit v) (some event.node))
    (owner : below? "this" event.code.name = none → exported? module event.code.name = none →
      r.owner (t.inUnit u) (some event.node) = s.owner (t.inUnit v) (some event.node))
    (part : String) : ofSymbolPart ⟨r, t.inUnit u⟩ module event part =
      (ofSymbolPart ⟨s, t.inUnit v⟩ module event part).map (Doclet.inUnit · u) := by
  have shown {d e : Doclet} (same : d = e.inUnit u) :
      (if isPrototype d.longname then none else some d) =
        (if isPrototype e.longname then none else some e).map (Doclet.inUnit · u) := by
    rw [same, apply_ite (Option.map (Doclet.inUnit · u))]
    rfl
  have kept {d e : Doclet} (same : d = e.inUnit u) :
      (if (d.name.getD "").isEmpty then none
        else
          let d := completed ⟨r, t.inUnit u⟩ module event d.resolve
          if isPrototype d.longname then none else some d) =
      (if (e.name.getD "").isEmpty then none
        else
          let d := completed ⟨s, t.inUnit v⟩ module event e.resolve
          if isPrototype d.longname then none else some d).map (Doclet.inUnit · u) := by
    have finished : completed ⟨r, t.inUnit u⟩ module event d.resolve =
        (completed ⟨s, t.inUnit v⟩ module event e.resolve).inUnit u := by
      rw [same, Doclet.resolve_inUnit, completed_inUnit]
    rw [apply_ite (Option.map (Doclet.inUnit · u)), ← shown finished, same]
    rfl
  have parent {d e : Doclet} (same : d = e.inUnit u) (named : e.name = some event.code.name) :
      (if d.memberof.isNone then placed ⟨r, t.inUnit u⟩ module (some event.node) d else d) =
        (if e.memberof.isNone then placed ⟨s, t.inUnit v⟩ module (some event.node) e
          else e).inUnit u := by
    rw [same, apply_ite (Doclet.inUnit · u), ← placed_inUnit e (by rwa [named]) (by rwa [named])]
    rfl
  have named : ({ described ⟨r, t.inUnit u⟩ event part with
      name := some event.code.name } : Doclet) =
      ({ described ⟨s, t.inUnit v⟩ event part with name := some event.code.name } :
        Doclet).inUnit u := by
    rw [described_inUnit (s := s) (v := v)]
    rfl
  unfold ofSymbolPart
  rw [apply_ite (Option.map (Doclet.inUnit · u))]
  exact congrArg _ (kept (parent named rfl))

theorem ofSymbol_inUnit
    (this : below? "this" event.code.name ≠ none →
      r.this (t.inUnit u) (some event.node) = s.this (t.inUnit v) (some event.node))
    (owner : below? "this" event.code.name = none → exported? module event.code.name = none →
      r.owner (t.inUnit u) (some event.node) = s.owner (t.inUnit v) (some event.node)) :
    ofSymbol ⟨r, t.inUnit u⟩ module event =
      (ofSymbol ⟨s, t.inUnit v⟩ module event).map (Doclet.inUnit · u) := by
  unfold ofSymbol
  rw [List.map_filterMap]
  exact congrArg (List.filterMap · _) (funext (ofSymbolPart_inUnit this owner))

end Documenter

end Doclets
