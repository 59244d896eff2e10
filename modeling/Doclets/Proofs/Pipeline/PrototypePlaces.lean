import Doclets.Proofs.Doclet.Prototypes
import Doclets.Proofs.Pipeline.LiteralProperties

/-!
Where the members of a prototype are placed: by the longname of the name in front, if that resolved
to one, and by that name itself in the module or function scope around it, if it did not.
-/

namespace Doclets

open Longname (Segment Whole member prototypeOf)

namespace Documenter

variable {ctx : Context} {module : Option String} {node : NodeRef} {event : SymbolFound}
  {name target foo key parent : String}

/-! ### Paths behind an identifier -/

/-- Paths that are the same begin with the same segment. -/
theorem eq_of_front {front other rest more : List Char} (plain : '.' ∉ front) (also : '.' ∉ other)
    (same : front ++ '.' :: rest = other ++ '.' :: more) : front = other := by
  rcases List.append_eq_append_iff.mp same with ⟨own, rfl, ends⟩ | ⟨own, rfl, ends⟩
  · cases own with
    | nil => simp
    | cons c own =>
      obtain rfl : '.' = c := (List.cons.inj ends).1
      exact absurd (by simp) also
  · cases own with
    | nil => simp
    | cons c own =>
      obtain rfl : '.' = c := (List.cons.inj ends).1
      exact absurd (by simp) plain

theorem below?_of_front {rest : List Char} (path : name.toList = foo.toList ++ '.' :: rest)
    (segment : Segment foo) (plain : '.' ∉ target.toList) (other : foo ≠ target) :
    below? target name = none := by
  have dotless : '.' ∉ foo.toList := fun inside => absurd (segment.plain '.' inside) (by decide)
  unfold below?
  split
  next behind found =>
    have text := Text.after?_eq_some_iff.mp found
    split
    next empty =>
      rw [String.isEmpty_iff.mp empty, String.append_empty] at text
      refine absurd ?_ plain
      rw [← text, path]
      simp
    next =>
      rw [Text.after?_eq_none_iff]
      rintro ⟨more, dot⟩
      have split : behind.toList = '.' :: more := by simpa using dot.symm
      have same : foo.toList ++ '.' :: rest = target.toList ++ '.' :: more := by
        rw [← path, text, String.toList_append, split]
      exact other (String.toList_injective (eq_of_front dotless plain same))
  next => rfl

/-- The identifier in front of a path is none of the reserved words. -/
structure Unreserved (module : Option String) (foo : String) : Prop where
  segment : Segment foo
  whole : Whole foo
  ne_this : foo ≠ "this"
  ne_module : foo ≠ "module"
  ne_exports : foo = "exports" → module = none

theorem reserved?_of_front {rest : List Char} (front : Unreserved module foo)
    (path : name.toList = foo.toList ++ '.' :: rest) :
    reserved? ctx module node name = none := by
  have dotless : '.' ∉ foo.toList :=
    fun inside => absurd (front.segment.plain '.' inside) (by decide)
  have this : below? "this" name = none :=
    below?_of_front path front.segment (by decide) front.ne_this
  have exports : exported? module name = none := by
    unfold exported?
    cases module with
    | none => rfl
    | some m =>
      have other : foo ≠ "exports" := fun same => by cases front.ne_exports same
      have long : below? "module.exports" name = none := by
        have absent : Text.after? "module.exports" name = none := by
          rw [Text.after?_eq_none_iff, path]
          rintro ⟨more, same⟩
          have begins : "module.exports".toList = "module".toList ++ '.' :: "exports".toList := by
            decide
          rw [begins, List.append_assoc, List.cons_append] at same
          exact front.ne_module
            (String.toList_injective (eq_of_front dotless (by decide) same.symm))
        unfold below?
        rw [absent]
      dsimp only
      rw [long, below?_of_front path front.segment (by decide) other]
      rfl
  unfold reserved?
  rw [this, exports]
  rfl

/-! ### Symbols that nothing owns -/

/-- A prototype is not documented. -/
theorem ofSymbol_of_hidden
    (untagged : ∀ part ∈ Comment.parts event.comment, ∀ origin,
      (Doclet.ofComment part origin).Untagged)
    (hidden : ∀ d, Begun d event.code.name event.code.funcscope →
      isPrototype (placed ctx module (some event.node) d).resolve.longname = true) :
    ofSymbol ctx module event = [] := by
  unfold ofSymbol
  rw [List.filterMap_eq_nil_iff]
  intro part listed
  have begun := begun_described ctx event (untagged part listed)
  have free : (described ctx event part).memberof.isNone = true := by
    rw [show (described ctx event part).memberof = none from begun.memberof]
    rfl
  unfold ofSymbolPart
  dsimp only
  rw [if_pos free]
  split
  · rfl
  · split
    · rfl
    · rw [(completes_completed ctx module event _).longname, if_pos (hidden _ begun)]

/-- A symbol of a path that neither a reserved word nor a declared name begins, in modules and
function scopes whose longnames stand for themselves. -/
structure Unowned (ctx : Context) (module : Option String) (event : SymbolFound) : Prop where
  untagged : ∀ part ∈ Comment.parts event.comment, ∀ origin,
    (Doclet.ofComment part origin).Untagged
  free : reserved? ctx module (some event.node) event.code.name = none
  owner : (ctx.registry.owner ctx.tree (some event.node)).memberof = none
  inside : isNamedExport ctx.tree (some event.node) = false
  modules : ∀ m ∈ module, Whole m ∧ Longname.isModule m = true
  scopes : ∀ scope ∈ event.code.funcscope, Whole scope

theorem Unowned.placed_outside (h : Unowned ctx none event) {d : Doclet}
    (begun : Begun d event.code.name event.code.funcscope) :
    placed ctx none (some event.node) d = d := by
  rw [placed_of_unreserved begun h.free, inScope_unowned begun h.owner h.inside]
  rfl

theorem Unowned.placed_inside {m : String} (h : Unowned ctx (some m) event)
    (plain : ':' ∉ event.code.name.toList) {d : Doclet}
    (begun : Begun d event.code.name event.code.funcscope) :
    placed ctx (some m) (some event.node) d =
      { d with memberof := some m, scope := some .inner } := by
  obtain ⟨whole, isModule⟩ := h.modules m rfl
  have other := (Longname.apart_of_module isModule plain).ne
  rw [placed_of_unreserved begun h.free, inScope_unowned begun h.owner h.inside,
    Option.filter_some, if_pos (by simpa using Ne.symm other)]
  dsimp only
  rw [whole.parentOf]

/-- What is known of the function scope of a symbol outlasts the beginning. -/
theorem Unowned.funcscope (h : Unowned ctx module event) {d : Doclet}
    (begun : Begun d event.code.name event.code.funcscope) :
    d.funcscope? = event.code.funcscope := by
  rw [begun.funcscope]
  cases declared : event.code.funcscope with
  | none => rfl
  | some scope => rw [Option.filter_some, if_pos (by simp [(h.scopes scope declared).ne_empty])]

/-- The prototype of a name that resolved to nothing makes no doclet. -/
theorem Unowned.ofSymbol_prototype (h : Unowned ctx module event) (segment : Segment foo)
    (named : event.code.name = prototypeOf foo) : ofSymbol ctx module event = [] := by
  have hidden (outer : Option String) :
      isPrototype (Doclet.within outer (foo ++ "#")) = true := by
    cases outer with
    | none => simp [Doclet.within, isPrototype]
    | some scope =>
      rw [Doclet.within, isPrototype, Longname.toList_member, Doclet.toList_hash,
        ← List.cons_append, ← List.append_assoc, List.getLast?_concat]
      rfl
  have plain : ':' ∉ (foo ++ "#").toList := by
    rw [Doclet.toList_hash, List.mem_append]
    simp [segment.not_mem_colon]
  have colonless : ':' ∉ event.code.name.toList :=
    named ▸ Longname.not_mem_colon_prototypeOf segment.not_mem_colon
  apply ofSymbol_of_hidden h.untagged
  intro d begun
  have name := begun.name.trans (congrArg some named)
  cases module with
  | none =>
    rw [h.placed_outside begun, Doclet.longname_prototype segment begun.longname name
      begun.memberof begun.scope (by rw [h.funcscope begun]; exact h.scopes)]
    exact hidden _
  | some m =>
    obtain ⟨whole, isModule⟩ := h.modules m rfl
    have text := Doclet.longname_prototype_inner (d := { d with
      memberof := some m, scope := some .inner }) segment begun.longname name whole
      (Longname.apart_of_module isModule plain) rfl rfl
    rw [h.placed_inside colonless begun, text]
    exact hidden _

/-- A member of such a prototype is an instance member of the path in front of it. -/
theorem Unowned.ofSymbol_member_prototype (h : Unowned ctx module event) (segment : Segment foo)
    (whole : Whole foo) (own : Segment key)
    (named : event.code.name = member (prototypeOf foo) '.' key) :
    ofSymbol ctx module event ≠ [] ∧ ∀ d ∈ ofSymbol ctx module event,
      d.longname = member (Doclet.within (module.or event.code.funcscope) foo) '#' key ∧
        d.memberof = some (Doclet.within (module.or event.code.funcscope) foo) := by
  have plain : ':' ∉ (member foo '#' key).toList :=
    Longname.not_mem_colon_member (by decide) segment.not_mem_colon own.not_mem_colon
  have colonless : ':' ∉ event.code.name.toList :=
    named ▸ Longname.not_mem_colon_member (by decide)
      (Longname.not_mem_colon_prototypeOf segment.not_mem_colon) own.not_mem_colon
  apply ofSymbol_of_resolved h.untagged
  · rw [named]
    exact Longname.member_ne_empty _ _ _
  · rw [Longname.endsJoined_member own.ne_empty]
    exact own.path.not_joined
  · intro d begun _
    have name := begun.name.trans (congrArg some named)
    have filled : d.name.getD "" ≠ "" := by
      rw [name]
      exact Longname.member_ne_empty _ _ _
    cases module with
    | none =>
      have resolved := Doclet.resolve_member_prototype segment begun.longname own name whole
        begun.memberof begun.scope (by rw [h.funcscope begun]; exact h.scopes)
      rw [h.funcscope begun] at resolved
      exact ⟨_, h.placed_outside begun, filled, resolved⟩
    | some m =>
      obtain ⟨inner, isModule⟩ := h.modules m rfl
      have resolved := Doclet.resolve_member_prototype_inner (d := { d with
        memberof := some m, scope := some .inner }) segment begun.longname own name inner
        (Longname.apart_of_module isModule plain) rfl rfl
      exact ⟨_, h.placed_inside colonless begun, filled, resolved⟩

/-! ### Symbols that a declared name owns -/

/-- What is left of a path behind the identifier in front. -/
theorem withoutBasename_front {c : Char} {rest : List Char}
    (path : name.toList = foo.toList ++ c :: rest) (leads : Longname.basename? name = some foo) :
    withoutBasename name foo = String.ofList rest := by
  have found : Text.after? foo name = some (String.ofList (c :: rest)) := by
    rw [Text.after?_eq_some_iff]
    apply String.toList_injective
    rw [path, String.toList_append, String.toList_ofList]
  unfold withoutBasename
  rw [found]
  dsimp only
  rw [if_pos (by simp [leads]), String.toList_ofList]
  rfl

/-- A symbol of a path that begins with a declared name. -/
structure Owned (ctx : Context) (module : Option String) (event : SymbolFound)
    (foo parent : String) : Prop where
  untagged : ∀ part ∈ Comment.parts event.comment, ∀ origin,
    (Doclet.ofComment part origin).Untagged
  free : reserved? ctx module (some event.node) event.code.name = none
  leads : Longname.basename? event.code.name = some foo
  owner : ctx.registry.owner ctx.tree (some event.node) = ⟨some parent, some foo⟩
  whole : Whole parent

theorem Owned.placed (h : Owned ctx module event foo parent) {c : Char} {rest : List Char}
    (path : event.code.name.toList = foo.toList ++ c :: rest) {d : Doclet}
    (begun : Begun d event.code.name event.code.funcscope) :
    placed ctx module (some event.node) d =
      { d with name := some (String.ofList rest), memberof := some parent } := by
  rw [placed_of_unreserved begun h.free, inScope_declared h.owner h.whole,
    withoutBasename_front path h.leads]

/-- The prototype of a name that resolved has a doclet after all. -/
theorem Owned.ofSymbol_prototype (h : Owned ctx module event foo parent) (segment : Segment foo)
    (named : event.code.name = prototypeOf foo) :
    ofSymbol ctx module event ≠ [] ∧ ∀ d ∈ ofSymbol ctx module event,
      d.longname = prototypeOf parent ∧ d.memberof = some parent := by
  have unmarked : "prototype".toList.all fun c => !Longname.isMark c := by decide
  have plain : ∀ c ∈ "prototype".toList, Longname.isMark c = false := by
    intro c listed
    simpa using List.all_eq_true.mp unmarked c listed
  have path : event.code.name.toList = foo.toList ++ '.' :: "prototype".toList := by
    rw [named, Longname.toList_prototypeOf]
    rfl
  rw [Longname.prototypeOf_eq_member]
  apply ofSymbol_of_resolved h.untagged
  · rw [named, Longname.prototypeOf_eq_member]
    exact Longname.member_ne_empty _ _ _
  · rw [Longname.endsJoined_member (by decide)]
    exact Longname.not_joined_of_plain plain
  · intro d begun code
    refine ⟨_, h.placed path begun, by simp, ?_⟩
    rw [String.ofList_toList]
    have untold : d.scopeInCode = none := by
      unfold Doclet.scopeInCode
      rw [code, named, Option.bind_some, Longname.scope_shorten_prototypeOf segment]
      rfl
    exact (Doclet.resolve_static (d := { d with
      name := some "prototype", memberof := some parent }) h.whole (by decide) plain rfl rfl
      begun.longname begun.scope untold).symm

/-- A member of that prototype is an instance member of what the name resolved to. -/
theorem Owned.ofSymbol_member_prototype (h : Owned ctx module event foo parent)
    (own : Segment key) (other : parent ≠ "#" ++ key)
    (named : event.code.name = member (prototypeOf foo) '.' key) :
    ofSymbol ctx module event ≠ [] ∧ ∀ d ∈ ofSymbol ctx module event,
      d.longname = member parent '#' key ∧ d.memberof = some parent := by
  have path : event.code.name.toList =
      foo.toList ++ '.' :: (Longname.prototypeWord ++ '.' :: key.toList) := by
    rw [named, Longname.toList_member_prototypeOf]
  have rest :
      String.ofList (Longname.prototypeWord ++ '.' :: key.toList) = "prototype." ++ key := by
    apply String.toList_injective
    rw [String.toList_ofList, String.toList_append]
    rfl
  apply ofSymbol_of_resolved h.untagged
  · rw [named]
    exact Longname.member_ne_empty _ _ _
  · rw [Longname.endsJoined_member own.ne_empty]
    exact own.path.not_joined
  · intro d begun _
    refine ⟨_, h.placed path begun, by simp [Longname.prototypeWord], ?_⟩
    rw [rest]
    have spelled : Longname.Spelled ("#" ++ key).toList := by
      rw [String.toList_append]
      exact Longname.spelled_nil.join (c := '#') rfl own.spelled
    rw [Doclet.resolve_respelled (d := { d with
      name := some ("prototype." ++ key), memberof := some parent }) rfl
      (Longname.spellPrototypes_leading own.spelled) (Longname.spellPrototypes_of_spelled spelled)
      (by simp)]
    exact Doclet.resolve_leading (d := { d with
      name := some ("#" ++ key), memberof := some parent }) h.whole own other rfl rfl
      begun.longname begun.scope

/-- A symbol that belongs to a prototype. -/
theorem inScope_prototype {d : Doclet}
    (owner : ctx.registry.owner ctx.tree node = .parent (prototypeOf parent))
    (whole : Whole parent) (other : ctx.tree.isKind node .methodDefinition = false) :
    inScope ctx module node name d =
      { d with name := some name, memberof := some (parent ++ String.singleton '#') } := by
  have filled : prototypeOf parent ≠ "" := by
    rw [Longname.prototypeOf_eq_member]
    exact Longname.member_ne_empty _ _ _
  have kept : Option.filter (fun parent => !parent.isEmpty) (some (prototypeOf parent)) =
      some (prototypeOf parent) := by
    rw [Option.filter_some, if_pos (by simp [filled])]
  unfold inScope
  simp only [owner, Owner.parent, kept, localName, other, Doclet.withMemberof,
    whole.parentOf_prototypeOf]
  rfl

end Documenter

end Doclets
