import Doclets.Pipeline.Documenter
import Doclets.Proofs.Comment.Parts
import Doclets.Proofs.Doclet.Identity
import Doclets.Proofs.Doclet.Tags

/-!
Where symbols are placed that no tag places. The code spells a path, on `this`, on the exports of
the module or among the declared names, and the longname is the path below the parent that this
leads to.
-/

namespace Doclets

open Longname (EndsIn Path Segment Whole member shorten)

/-- A place that the code leads to: a parent, the scope below it unless the name suggests it, and
the path that is left of the name. -/
structure Placement where
  parent : String
  scope : Option Scope
  path : String
  deriving DecidableEq

/-- A place for a symbol whose name ends in a segment: a parent that stands for itself, and that a
longer path does not spell out again. -/
structure Placement.Fits (p : Placement) (name : String) : Prop where
  whole : Whole p.parent
  apart : p.path ≠ name → Longname.Apart p.parent p.path
  ends : EndsIn name p.path

namespace Documenter

variable {ctx : Context} {module : Option String} {node : NodeRef} {name target : String}

/-! ### Names on `this` and on the exports -/

theorem below?_of_segment (segment : Segment name) (other : name ≠ target) :
    below? target name = none := by
  unfold below?
  split
  next rest found =>
    have text := Text.after?_eq_some_iff.mp found
    split
    next empty =>
      rw [String.isEmpty_iff.mp empty, String.append_empty] at text
      exact absurd text other
    next =>
      apply Text.after?_eq_none_iff.mpr
      intro dot
      have inside : '.' ∈ name.toList := by
        rw [text, String.toList_append]
        exact List.mem_append_right _ (dot.subset (by simp))
      exact absurd (segment.plain '.' inside) (by decide)
  next => rfl

theorem below?_this (rest : String) : below? "this" ("this." ++ rest) = some rest := by
  have behind : Text.after? "this" ("this." ++ rest) = some ("." ++ rest) :=
    Text.after?_eq_some_iff.mpr (by rw [← String.append_assoc]; rfl)
  unfold below?
  rw [behind]
  dsimp only
  rw [if_neg (by simp)]
  exact Text.after?_eq_some_iff.mpr rfl

theorem exported?_of_segment (segment : Segment name)
    (free : name = "exports" → module = none) : exported? module name = none := by
  have long : name ≠ "module.exports" := by
    rintro rfl
    exact absurd (segment.plain '.' (by decide)) (by decide)
  unfold exported?
  cases module with
  | none => rfl
  | some module =>
    have other : name ≠ "exports" := fun same => by cases free same
    dsimp only
    rw [below?_of_segment segment long, below?_of_segment segment other]
    rfl

/-! ### Doclets of symbols -/

/-- What holds of the doclet of each part of the comment holds of all doclets of the symbol, and
there are some. -/
theorem forall_mem_ofSymbol {event : SymbolFound} {P : Doclet → Prop}
    (each : ∀ part ∈ Comment.parts event.comment,
      ∃ d, ofSymbolPart ctx module event part = some d ∧ P d) :
    ofSymbol ctx module event ≠ [] ∧ ∀ d ∈ ofSymbol ctx module event, P d := by
  unfold ofSymbol
  constructor
  · obtain ⟨part, listed⟩ := List.exists_mem_of_ne_nil _ (Comment.parts_ne_nil event.comment)
    obtain ⟨d, made, _⟩ := each part listed
    exact List.ne_nil_of_mem (List.mem_filterMap.mpr ⟨part, listed, made⟩)
  · intro d listed
    obtain ⟨part, listed, made⟩ := List.mem_filterMap.mp listed
    obtain ⟨e, also, holds⟩ := each part listed
    rw [made] at also
    exact Option.some.inj also ▸ holds

/-- A doclet that the code has named and nothing has placed. -/
structure Begun (d : Doclet) (name : String) (funcscope : Option String) : Prop where
  name : d.name = some name
  memberof : d.memberof = none
  scope : d.scope = none
  kind : d.kind = none
  longname : d.longname = ""
  funcscope : d.funcscope? = funcscope.filter fun scope => !scope.isEmpty

theorem described_eq (ctx : Context) (event : SymbolFound) {part : String}
    (unplaced : ∀ origin, (Doclet.ofComment part origin).Unplaced) : ∃ origin,
      described ctx event part = Doclet.ofComment part origin ∧
        origin.code = some (event.code.origin ctx.tree) := by
  refine ⟨{ Origin.at event.file event.line event.column with
    code := some (event.code.origin ctx.tree) }, ?_, rfl⟩
  unfold described
  dsimp only
  rw [if_neg (by simp [(unplaced _).name])]

theorem begun_described (ctx : Context) (event : SymbolFound) {part : String}
    (untagged : ∀ origin, (Doclet.ofComment part origin).Untagged) :
    Begun { described ctx event part with name := some event.code.name } event.code.name
      event.code.funcscope := by
  obtain ⟨origin, same, code⟩ := described_eq ctx event fun origin => (untagged origin).unplaced
  have plain := untagged origin
  obtain ⟨longname, from_⟩ := Doclet.longname_ofComment part origin
  rw [same]
  refine ⟨rfl, plain.memberof, plain.scope, plain.kind, longname, ?_⟩
  unfold Doclet.funcscope?
  dsimp only
  rw [from_, code]
  rfl

theorem codeName_described (ctx : Context) (event : SymbolFound) (part : String) :
    (described ctx event part).codeName = some event.code.name := by
  have from_ (raw : String) (origin : Origin) : (Doclet.ofComment raw origin).origin = origin :=
    (Doclet.longname_ofComment raw origin).2
  unfold described Doclet.codeName
  dsimp only
  split <;> rw [from_] <;> rfl

/-! ### Completion -/

/-- Augmenting a doclet leaves everything but its parents alone. -/
theorem exists_augment (d : Doclet) (parent : String) :
    ∃ augments, d.augment parent = { d with augments := augments } := by
  unfold Doclet.augment
  split
  · exact ⟨d.augments, by cases d; rfl⟩
  · exact ⟨_, rfl⟩

/-- A doclet after what remained to be filled in, `kind` where it had none. -/
structure Completes (kind : DocletKind) (code : Option DocletKind) (d e : Doclet) : Prop where
  longname : e.longname = d.longname
  memberof : e.memberof = d.memberof
  thisName : e.thisName = d.thisName
  comment : e.comment = d.comment
  undocumented : e.undocumented = d.undocumented
  properties : e.properties = d.properties
  kind : d.kind = none → code = none → e.kind = some kind

theorem Completes.augment {kind : DocletKind} {code : Option DocletKind} {d e : Doclet}
    (h : Completes kind code d e) (parent : String) : Completes kind code d (e.augment parent) := by
  obtain ⟨_, same⟩ := exists_augment e parent
  rw [same]
  exact ⟨h.longname, h.memberof, h.thisName, h.comment, h.undocumented, h.properties, h.kind⟩

theorem Completes.augment? {kind : DocletKind} {code : Option DocletKind} {d e : Doclet}
    (h : Completes kind code d e) (parent? : Option String) : Completes kind code d
      (if e.isClass then
        match parent? with
        | some parent => e.augment parent
        | none => e
      else e) := by
  split
  · split
    next parent => exact h.augment parent
    next => exact h
  · exact h

/-- What remains to be filled in once a doclet is resolved leaves its place alone. -/
theorem completes_completed (ctx : Context) (module : Option String) (event : SymbolFound)
    (d : Doclet) : Completes (event.code.impliedKind ctx.tree event.node) event.code.docletKind d
      (completed ctx module event d) := by
  unfold completed
  apply Completes.augment?
  dsimp only
  split
  next told =>
    rw [told]
    refine ⟨?_, ?_, ?_, ?_, ?_, ?_, fun _ none => by cases none⟩ <;> split <;> split <;> rfl
  next told =>
    refine ⟨?_, ?_, ?_, ?_, ?_, ?_, fun untold _ => ?_⟩
    case refine_7 =>
      rw [untold]
      split <;> rfl
    all_goals split <;> rfl

theorem isPrototype_of_not_joined {longname : String}
    (last : Longname.endsJoined longname = false) : isPrototype longname = false := by
  unfold isPrototype
  rw [decide_eq_false_iff_not]
  intro hash
  rw [Longname.endsJoined, hash] at last
  cases last

/-- What belongs to something is no global, and keeps name and scope. -/
theorem keeps_completed (ctx : Context) (module : Option String) (event : SymbolFound) {d : Doclet}
    (owned : d.memberof.isNone = false) : (completed ctx module event d).name = d.name ∧
      (completed ctx module event d).scope = d.scope := by
  have augmented (e : Doclet) (parent? : Option String) (same : e.name = d.name ∧ e.scope = d.scope) :
      let f := if e.isClass then
          match parent? with
          | some parent => e.augment parent
          | none => e
        else e
      f.name = d.name ∧ f.scope = d.scope := by
    dsimp only
    split
    · split
      · unfold Doclet.augment
        split <;> exact same
      · exact same
    · exact same
  unfold completed
  simp only [owned, Bool.false_and, Bool.false_eq_true, if_false]
  apply augmented
  split
  · split <;> exact ⟨rfl, rfl⟩
  · exact ⟨rfl, rfl⟩

/-- The doclet of a part of a comment that leaves the place of the symbol to the code, unless that is
a prototype. -/
theorem ofSymbolPart_of_placed {event : SymbolFound} {part : String} {p : Doclet}
    (free : (described ctx event part).memberof = none) (named : event.code.name ≠ "")
    (placed : placed ctx module (some event.node)
      { described ctx event part with name := some event.code.name } = p)
    (kept : p.name.getD "" ≠ "") :
    ofSymbolPart ctx module event part = if isPrototype p.resolve.longname then none
      else some (completed ctx module event p.resolve) := by
  have longname := (completes_completed ctx module event p.resolve).longname
  unfold ofSymbolPart
  rw [if_neg (by simpa using named)]
  dsimp only
  have unplaced : (described ctx event part).memberof.isNone = true := by
    rw [free]
    rfl
  rw [if_pos unplaced, show Documenter.placed _ _ _ _ = p from placed,
    if_neg (by simpa using kept), longname]

theorem ofSymbolPart_eq {event : SymbolFound} {part : String} {p : Doclet}
    (free : (described ctx event part).memberof = none) (named : event.code.name ≠ "")
    (placed : placed ctx module (some event.node)
      { described ctx event part with name := some event.code.name } = p)
    (kept : p.name.getD "" ≠ "") (shown : Longname.endsJoined p.resolve.longname = false) :
    ofSymbolPart ctx module event part = some (completed ctx module event p.resolve) := by
  rw [ofSymbolPart_of_placed free named placed kept, isPrototype_of_not_joined shown,
    if_neg Bool.false_ne_true]

/-- The doclet of a part of a comment that leaves everything to the code. -/
theorem exists_ofSymbolPart {event : SymbolFound} {part : String} {p : Doclet}
    (untagged : ∀ origin, (Doclet.ofComment part origin).Untagged) (named : event.code.name ≠ "")
    (placed : placed ctx module (some event.node)
      { described ctx event part with name := some event.code.name } = p)
    (kept : p.name.getD "" ≠ "") (shown : Longname.endsJoined p.resolve.longname = false) :
    ∃ e, ofSymbolPart ctx module event part = some e ∧ e.longname = p.resolve.longname ∧
      e.memberof = p.resolve.memberof := by
  have free : (described ctx event part).memberof = none :=
    (begun_described ctx event untagged).memberof
  have completes := completes_completed ctx module event p.resolve
  exact ⟨_, ofSymbolPart_eq free named placed kept shown, completes.longname, completes.memberof⟩

theorem sameContent_inModule (module : Option String) (exported : Bool) (d : Doclet) :
    d.SameContent (inModule module exported d) := by
  unfold inModule
  split
  · exact .refl d
  · split
    · exact .refl d
    · split <;> dsimp only <;> split <;> first | exact .refl d | exact ⟨_, _, _, _, rfl⟩

/-- Where a symbol is placed has no part in what its comment says. -/
theorem sameContent_placed (ctx : Context) (module : Option String) (node : NodeRef) (d : Doclet) :
    d.SameContent (placed ctx module node d) := by
  unfold placed
  dsimp only
  split
  · unfold onThis
    dsimp only
    split <;> exact ⟨_, _, _, _, rfl⟩
  · split
    · unfold onExports
      split <;> exact ⟨_, _, _, _, rfl⟩
    · unfold inScope
      dsimp only
      split
      · exact ⟨_, _, _, _, rfl⟩
      · exact sameContent_inModule _ _ d

/-- A doclet that is made of a symbol says what the part of its comment does, and was completed. -/
theorem exists_completed_of_ofSymbolPart {event : SymbolFound} {part : String} {d : Doclet}
    (made : ofSymbolPart ctx module event part = some d) :
    ∃ p : Doclet, (described ctx event part).SameContent p ∧ d = completed ctx module event p := by
  unfold ofSymbolPart at made
  split at made
  · cases made
  · extract_lets told named owned done at made
    have begun : (described ctx event part).SameContent named := ⟨_, _, _, _, rfl⟩
    have same : named.SameContent owned := by
      unfold owned
      split
      · exact sameContent_placed ctx module _ named
      · exact .refl named
    split at made
    · cases made
    · split at made
      · cases made
      · refine ⟨owned.resolve, ?_, (Option.some.inj made).symm⟩
        exact (begun.trans same).trans (Doclet.sameContent_resolve owned)

/-- The code tells the kind of a symbol where no tag does, and only a tag tells what `this` is. -/
theorem nature_of_mem_ofSymbol {event : SymbolFound} {d : Doclet}
    (untagged : ∀ part ∈ Comment.parts event.comment, ∀ origin,
      (Doclet.ofComment part origin).Untagged)
    (code : event.code.docletKind = none) (made : d ∈ ofSymbol ctx module event) :
    d.kind = some (event.code.impliedKind ctx.tree event.node) ∧
      ((∀ part ∈ Comment.parts event.comment, ∀ origin,
        (Doclet.ofComment part origin).thisName = none) → d.thisName = none) := by
  obtain ⟨part, listed, made⟩ := List.mem_filterMap.mp made
  have begun := begun_described ctx event (untagged part listed)
  obtain ⟨p, same, rfl⟩ := exists_completed_of_ofSymbolPart made
  have completes := completes_completed ctx module event p
  refine ⟨completes.kind (same.kind.trans begun.kind) code, fun plain => ?_⟩
  refine (completes.thisName.trans same.thisName).trans ?_
  unfold described
  dsimp only
  split
  · rfl
  · exact plain part listed _

/-- No symbol is made with members. -/
theorem properties_of_mem_ofSymbol {event : SymbolFound} {d : Doclet}
    (made : d ∈ ofSymbol ctx module event) : d.properties = [] := by
  obtain ⟨part, _, made⟩ := List.mem_filterMap.mp made
  obtain ⟨p, same, rfl⟩ := exists_completed_of_ofSymbolPart made
  have begun : (described ctx event part).properties = [] := by
    unfold described
    dsimp only
    split <;> exact Doclet.properties_ofComment _ _
  calc (completed ctx module event p).properties
      = p.properties := (completes_completed ctx module event p).properties
    _ = (described ctx event part).properties := same.properties
    _ = [] := begun

/-! ### Places -/

/-- The place of a name on `this` or on the exports of the module. -/
def reserved? (ctx : Context) (module : Option String) (node : NodeRef) (name : String) :
    Option Placement :=
  match below? "this" name with
  | some rest => some ⟨ctx.registry.this ctx.tree node, some .perInstance, rest⟩
  | none => (exported? module name).map fun (module, rest) => ⟨module, some .static, rest⟩

/-- The place of a symbol in the module, unless it is called like that. -/
def inner? (module : Option String) (name : String) : Option Placement :=
  (module.filter fun m => m ≠ name).map fun m => ⟨m, some .inner, name⟩

/-- The place that the code leads to: below `this` or the exports, else below whatever owns the
symbol, and else in the module. -/
def placement? (ctx : Context) (module : Option String) (node : NodeRef) (name : String)
    (owned : Option Placement) : Option Placement :=
  (reserved? ctx module node name).or (owned.or (inner? module name))

/-- The parent that a symbol called `name` has at a place. -/
def parentAt (place : Option Placement) (name : String) : String :=
  match place with
  | some ⟨parent, some scope, path⟩ => (shorten (parent ++ scope.punctuation ++ path)).memberof
  | some ⟨parent, none, _⟩ => parent
  | none => (shorten name).memberof

/-- The longname that a symbol called `name` has at a place in a scope. -/
def longnameAt (place : Option Placement) (name : String) : String :=
  match place with
  | some ⟨parent, scope, path⟩ =>
    if path = "" then parent else parent ++ (scope.getD .static).punctuation ++ path
  | none => name

variable {d : Doclet} {p : Placement} {funcscope : Option String} {s : Scope} {c : Char}
  {parent key : String}

/-- A single segment has no such place, unless it is one of these words. -/
theorem reserved?_of_segment (segment : Segment name) (other : name ≠ "this")
    (free : name = "exports" → module = none) : reserved? ctx module node name = none := by
  unfold reserved?
  rw [below?_of_segment segment other, exported?_of_segment segment free]
  rfl

theorem scope_of_reserved (found : reserved? ctx module node name = some p) :
    ∃ s c, p.scope = some s ∧ s.punctuation? = some c := by
  unfold reserved? at found
  split at found
  · cases found
    exact ⟨.perInstance, '#', rfl, rfl⟩
  · obtain ⟨_, _, rfl⟩ := Option.map_eq_some_iff.mp found
    exact ⟨.static, '.', rfl, rfl⟩

theorem placed_of_reserved (begun : Begun d name funcscope)
    (found : reserved? ctx module node name = some p) (filled : p.path ≠ "")
    (whole : Whole p.parent) : placed ctx module node d =
      { d with name := some p.path, memberof := some p.parent, scope := p.scope } := by
  unfold reserved? at found
  unfold placed
  simp only [begun.name, Option.getD_some]
  cases this : below? "this" name with
  | some rest =>
    rw [this] at found
    cases found
    dsimp only at filled whole ⊢
    unfold onThis
    dsimp only
    rw [if_neg (by simp [whole.ne_empty, filled])]
    simp [Doclet.withMemberof, whole.parentOf]
  | none =>
    rw [this] at found
    obtain ⟨⟨own, rest⟩, exported, rfl⟩ := Option.map_eq_some_iff.mp found
    dsimp only at filled whole ⊢
    rw [exported]
    dsimp only
    unfold onExports
    rw [if_neg (by simpa using filled)]
    simp [Doclet.withMemberof, whole.parentOf]

/-- The exports themselves are the module. -/
theorem placed_of_exports (begun : Begun d name funcscope)
    (found : reserved? ctx module node name = some p) (empty : p.path = "") (path : Path name)
    (other : name ≠ "this") : placed ctx module node d = { d with name := some p.parent } := by
  unfold reserved? at found
  unfold placed
  simp only [begun.name, Option.getD_some]
  cases this : below? "this" name with
  | some rest =>
    rw [this] at found
    cases found
    dsimp only at empty
    subst empty
    unfold below? at this
    split at this
    next rest behind =>
      have text := Text.after?_eq_some_iff.mp behind
      split at this
      next nothing =>
        rw [String.isEmpty_iff.mp nothing, String.append_empty] at text
        exact absurd text other
      next =>
        have dot := Text.after?_eq_some_iff.mp this
        rw [text, dot] at path
        exact absurd path.not_joined (by decide)
    next => cases this
  | none =>
    rw [this] at found
    obtain ⟨⟨own, rest⟩, exported, rfl⟩ := Option.map_eq_some_iff.mp found
    dsimp only at empty ⊢
    rw [exported]
    dsimp only
    unfold onExports
    rw [if_pos (by simpa using empty)]

theorem placed_of_named (named : d.name = some name)
    (free : reserved? ctx module node name = none) :
    placed ctx module node d = inScope ctx module node name d := by
  unfold reserved? at free
  unfold placed
  simp only [named, Option.getD_some]
  cases this : below? "this" name with
  | some rest =>
    rw [this] at free
    cases free
  | none =>
    rw [this] at free
    rw [Option.map_eq_none_iff.mp free]

theorem placed_of_unreserved (begun : Begun d name funcscope)
    (free : reserved? ctx module node name = none) :
    placed ctx module node d = inScope ctx module node name d :=
  placed_of_named begun.name free

/-- A symbol whose owner says how its members are joined. -/
theorem inScope_joined
    (owner : ctx.registry.owner ctx.tree node = .parent (parent ++ String.singleton c))
    (whole : Whole parent) (punctuation : isPunctuation c = true) :
    inScope ctx module node name d = { d with
      name := some (if ctx.tree.isKind node .methodDefinition then lastSegment name else name)
      memberof := some (parent ++ String.singleton c) } := by
  have filled : (parent ++ String.singleton c).isEmpty = false := by simp
  have kept : Option.filter (fun parent => !parent.isEmpty) (some (parent ++ String.singleton c)) =
      some (parent ++ String.singleton c) := by
    rw [Option.filter_some, filled]
    rfl
  unfold inScope
  simp only [owner, Owner.parent, kept, localName, Doclet.withMemberof,
    whole.parentOf_joined punctuation]

/-- A symbol that nothing owns is an inner member of the module, unless it is exported. -/
theorem inScope_unowned (begun : Begun d name funcscope)
    (owner : (ctx.registry.owner ctx.tree node).memberof = none)
    (inside : isNamedExport ctx.tree node = false) : inScope ctx module node name d =
      match module.filter fun m => m ≠ name with
      | some m => { d with memberof := Doclet.parentOf m, scope := some .inner }
      | none => d := by
  unfold inScope
  simp only [owner, Option.filter_none]
  cases module with
  | none => rfl
  | some m =>
    unfold inModule
    by_cases same : name = m
    · simp [begun.memberof, begun.name, same, Option.filter_some]
    · have other : m ≠ name := fun also => same also.symm
      simp [begun.memberof, begun.name, begun.scope, same, other, inside, Doclet.withMemberof,
        Option.filter_some]

/-- A symbol whose path begins with a declared name. -/
theorem inScope_declared {basename : String}
    (owner : ctx.registry.owner ctx.tree node = ⟨some parent, some basename⟩)
    (whole : Whole parent) : inScope ctx module node name d =
      { d with name := some (withoutBasename name basename), memberof := some parent } := by
  have filled : parent.isEmpty = false := by simp [whole.ne_empty]
  have kept : Option.filter (fun parent => !parent.isEmpty) (some parent) = some parent := by
    rw [Option.filter_some, filled]
    rfl
  unfold inScope
  simp only [owner, kept, localName, Doclet.withMemberof, whole.parentOf]

/-- A symbol that belongs to whatever documents the node around it. -/
theorem inScope_around (owner : ctx.registry.owner ctx.tree node = .parent parent)
    (whole : Whole parent) (other : ctx.tree.isKind node .methodDefinition = false) :
    inScope ctx module node name d = { d with name := some name, memberof := some parent } := by
  have kept : Option.filter (fun parent => !parent.isEmpty) (some parent) = some parent := by
    rw [Option.filter_some, if_pos (by simp [whole.ne_empty])]
  unfold inScope
  simp only [owner, Owner.parent, kept, localName, other, Doclet.withMemberof, whole.parentOf]
  rfl

/-! ### The doclets that are made -/

/-- A doclet that is joined to its parent by punctuation. -/
structure Joined (d : Doclet) (parent : String) (c : Char) (key : String) : Prop where
  name : d.name = some key
  memberof : d.memberof = some parent
  scope : d.scope = Scope.ofPunctuation c
  longname : d.longname = member parent c key

/-- A symbol whose owner says how its members are joined, and whose comment may say what it is. -/
theorem ofSymbol_member {event : SymbolFound}
    (unplaced : ∀ part ∈ Comment.parts event.comment, ∀ origin,
      (Doclet.ofComment part origin).Unplaced)
    (segment : Segment key) (named : event.code.name ≠ "")
    (free : reserved? ctx module (some event.node) event.code.name = none)
    (owner : ctx.registry.owner ctx.tree (some event.node) = .parent (parent ++ String.singleton c))
    (whole : Whole parent) (punctuation : isPunctuation c = true)
    (own : (if ctx.tree.isKind (some event.node) .methodDefinition then
      lastSegment event.code.name else event.code.name) = key) :
    ofSymbol ctx module event ≠ [] ∧
      ∀ d ∈ ofSymbol ctx module event, Joined d parent c key := by
  have path := (whole.join punctuation segment.path).toPath
  apply forall_mem_ofSymbol
  intro part listed
  obtain ⟨origin, same, _⟩ := described_eq ctx event (unplaced part listed)
  have plain := unplaced part listed origin
  have longname := (Doclet.longname_ofComment part origin).1
  rw [← same] at plain longname
  have placed := (placed_of_named (d := { described ctx event part with
    name := some event.code.name }) rfl free).trans (inScope_joined owner whole punctuation)
  rw [own] at placed
  have resolved := Doclet.resolve_joined (d := { described ctx event part with
    name := some key, memberof := some (parent ++ String.singleton c) }) whole punctuation segment
    rfl rfl longname (by rw [show Doclet.scope _ = none from plain.scope]; simp)
  have made := ofSymbolPart_eq plain.memberof named placed segment.ne_empty
    (by rw [resolved]; exact path.not_joined)
  rw [resolved] at made
  obtain ⟨name, scope⟩ := keeps_completed ctx module event (d := { described ctx event part with
    name := some key, memberof := some parent, longname := member parent c key,
    scope := Scope.ofPunctuation c }) rfl
  have completes := completes_completed ctx module event { described ctx event part with
    name := some key, memberof := some parent, longname := member parent c key,
    scope := Scope.ofPunctuation c }
  exact ⟨_, made, name, completes.memberof, scope, completes.longname⟩

section

variable {event : SymbolFound}
  (untagged : ∀ part ∈ Comment.parts event.comment, ∀ origin,
    (Doclet.ofComment part origin).Untagged)

include untagged

/-- All doclets of a symbol are what its place is resolved to. -/
theorem ofSymbol_of_resolved {longname : String} {above : Option String}
    (named : event.code.name ≠ "") (shown : Longname.endsJoined longname = false)
    (resolved : ∀ d, Begun d event.code.name event.code.funcscope →
      d.codeName = some event.code.name → ∃ p, placed ctx module (some event.node) d = p ∧
        p.name.getD "" ≠ "" ∧ p.resolve.longname = longname ∧ p.resolve.memberof = above) :
    ofSymbol ctx module event ≠ [] ∧ ∀ d ∈ ofSymbol ctx module event,
      d.longname = longname ∧ d.memberof = above := by
  apply forall_mem_ofSymbol
  intro part listed
  have begun := begun_described ctx event (untagged part listed)
  obtain ⟨p, place, filled, text, parent⟩ := resolved _ begun (codeName_described ctx event part)
  obtain ⟨e, made, longname, memberof⟩ := exists_ofSymbolPart (untagged part listed) named place
    filled (text ▸ shown)
  exact ⟨e, made, longname.trans text, memberof.trans parent⟩

/-- A symbol whose owner says how its members are joined. -/
theorem ofSymbol_joined (segment : Segment key) (named : event.code.name ≠ "")
    (free : reserved? ctx module (some event.node) event.code.name = none)
    (owner : ctx.registry.owner ctx.tree (some event.node) = .parent (parent ++ String.singleton c))
    (whole : Whole parent) (punctuation : isPunctuation c = true)
    (own : (if ctx.tree.isKind (some event.node) .methodDefinition then
      lastSegment event.code.name else event.code.name) = key) :
    ofSymbol ctx module event ≠ [] ∧ ∀ d ∈ ofSymbol ctx module event,
      d.longname = member parent c key ∧ d.memberof = some parent := by
  obtain ⟨some, all⟩ := ofSymbol_member (fun part listed origin =>
    (untagged part listed origin).unplaced) segment named free owner whole punctuation own
  exact ⟨some, fun d listed => ⟨(all d listed).longname, (all d listed).memberof⟩⟩

/-- A symbol that is placed below a parent in a scope. -/
theorem ofSymbol_within {path : String} (segment : Segment key) (named : event.code.name ≠ "")
    (fits : Placement.Fits ⟨parent, some s, path⟩ key) (punctuation : s.punctuation? = some c)
    (placed : ∀ d, Begun d event.code.name event.code.funcscope →
      placed ctx module (some event.node) d =
        { d with name := some path, memberof := some parent, scope := some s }) :
    ofSymbol ctx module event ≠ [] ∧ ∀ d ∈ ofSymbol ctx module event,
      d.longname = member parent c path ∧
        d.memberof = some (shorten (member parent c path)).memberof := by
  have own := fits.ends.path segment
  have joined := fits.whole.toPath.join (Doclet.isPunctuation_of_scope punctuation) own
  refine ofSymbol_of_resolved untagged named joined.not_joined fun d begun _ => ?_
  obtain ⟨text, above⟩ := Doclet.resolve_within (d := { d with
    name := some path, memberof := some parent, scope := some s }) fits.whole segment fits.ends
    rfl rfl fits.apart begun.longname rfl punctuation
  exact ⟨_, placed d begun, own.ne_empty, text, above⟩

/-- A symbol that is placed below a parent, in the scope that its name suggests. -/
theorem ofSymbol_unscoped {path : String} (segment : Segment key) (named : event.code.name ≠ "")
    (fits : Placement.Fits ⟨parent, none, path⟩ key)
    (placed : ∀ d, Begun d event.code.name event.code.funcscope →
      placed ctx module (some event.node) d =
        { d with name := some path, memberof := some parent }) :
    ofSymbol ctx module event ≠ [] ∧ ∀ d ∈ ofSymbol ctx module event,
      d.memberof = some parent := by
  apply forall_mem_ofSymbol
  intro part listed
  have begun := begun_described ctx event (untagged part listed)
  have own := fits.ends.path segment
  obtain ⟨above, last⟩ := Doclet.resolve_suggested (d := { described ctx event part with
    name := some path, memberof := some parent }) fits.whole segment fits.ends rfl rfl fits.apart
    begun.longname begun.scope
  obtain ⟨e, made, _, memberof⟩ := exists_ofSymbolPart (untagged part listed) named
    (placed _ begun) own.ne_empty (by rw [Longname.endsJoined, last]; exact own.not_joined)
  exact ⟨e, made, memberof.trans above⟩

/-- A symbol that the code places nowhere has its name for a longname. -/
theorem ofSymbol_alone (segment : Segment key) (ends : EndsIn key event.code.name)
    (undeclared : event.code.funcscope = none)
    (placed : ∀ d, Begun d event.code.name event.code.funcscope →
      placed ctx module (some event.node) d = d) :
    ofSymbol ctx module event ≠ [] ∧ ∀ d ∈ ofSymbol ctx module event,
      d.longname = event.code.name ∧
        (event.code.name ≠ key → d.memberof = some (shorten event.code.name).memberof) := by
  apply forall_mem_ofSymbol
  intro part listed
  have begun := begun_described ctx event (untagged part listed)
  have own := ends.path segment
  have free := begun.funcscope
  rw [undeclared] at free
  have unscoped := begun.scope
  have text := Doclet.longname_resolve_alone own begun.name begun.memberof free begun.longname
    (by rw [unscoped]; simp)
  obtain ⟨e, made, longname, memberof⟩ := exists_ofSymbolPart (untagged part listed) own.ne_empty
    (placed _ begun) own.ne_empty (by rw [text]; exact own.not_joined)
  refine ⟨e, made, longname.trans text, ?_⟩
  intro longer
  rw [memberof]
  generalize event.code.name = name at ends begun longer
  cases ends with
  | alone => exact absurd rfl longer
  | joined whole punctuation =>
    rw [Doclet.resolve_path whole punctuation segment begun.name begun.memberof free begun.longname
      (by rw [unscoped]; simp), Longname.shorten_member whole.toPath punctuation segment]

/-- A symbol called by a segment that is placed below a parent, under a plain name. -/
theorem ofSymbol_static {own : String} (segment : Segment event.code.name) (whole : Whole parent)
    (filled : own ≠ "") (plain : Longname.Plain own.toList)
    (placed : ∀ d, Begun d event.code.name event.code.funcscope →
      placed ctx module (some event.node) d =
        { d with name := some own, memberof := some parent }) :
    ofSymbol ctx module event ≠ [] ∧ ∀ d ∈ ofSymbol ctx module event,
      d.longname = member parent '.' own ∧ d.memberof = some parent := by
  refine ofSymbol_of_resolved untagged segment.ne_empty ?_ fun d begun called => ?_
  · rw [Longname.endsJoined_member filled]
    exact Longname.not_joined_of_plain plain
  · obtain ⟨above, text⟩ := Doclet.resolve_static (d := { d with
      name := some own, memberof := some parent }) whole filled plain rfl rfl begun.longname
      begun.scope (Doclet.scopeInCode_of_segment segment called)
    exact ⟨_, placed d begun, filled, text, above⟩

/-- A symbol that is left without a name makes no doclet. -/
theorem ofSymbol_nameless (placed : ∀ d, Begun d event.code.name event.code.funcscope →
    (placed ctx module (some event.node) d).name = some "") : ofSymbol ctx module event = [] := by
  unfold ofSymbol
  rw [List.filterMap_eq_nil_iff]
  intro part listed
  have begun := begun_described ctx event (untagged part listed)
  have free : (described ctx event part).memberof.isNone = true := by
    rw [show (described ctx event part).memberof = none from begun.memberof]
    rfl
  unfold ofSymbolPart
  split
  · rfl
  · dsimp only
    rw [if_pos free, placed _ begun]
    rfl

/-- A segment that nothing owns is an inner member of the module, or else its own longname. -/
theorem ofSymbol_segment_unowned (segment : Segment event.code.name)
    (undeclared : event.code.funcscope = none)
    (inside : isNamedExport ctx.tree (some event.node) = false)
    (free : reserved? ctx module (some event.node) event.code.name = none)
    (owner : (ctx.registry.owner ctx.tree (some event.node)).memberof = none)
    (whole : ∀ m ∈ module.filter fun m => m ≠ event.code.name, Whole m) :
    ofSymbol ctx module event ≠ [] ∧ ∀ d ∈ ofSymbol ctx module event,
      match module.filter fun m => m ≠ event.code.name with
      | some m => d.longname = member m '~' event.code.name ∧ d.memberof = some m
      | none => d.longname = event.code.name ∧ d.memberof = none := by
  have placed (d : Doclet) (begun : Begun d event.code.name event.code.funcscope) :=
    (placed_of_unreserved begun free).trans (inScope_unowned begun owner inside)
  cases declared : module.filter fun m => m ≠ event.code.name with
  | some m =>
    have own := whole m declared
    have fits : Placement.Fits ⟨m, some .inner, event.code.name⟩ event.code.name :=
      ⟨own, fun other => absurd rfl other, .alone⟩
    have made := ofSymbol_within untagged segment segment.ne_empty fits (c := '~') rfl
      fun d begun => by
        have kept : d.name = some event.code.name := begun.name
        rw [placed d begun, declared, ← kept]
        dsimp only
        rw [own.parentOf]
    rw [Longname.shorten_member own.toPath rfl segment] at made
    exact made
  | none =>
    refine ofSymbol_of_resolved untagged segment.ne_empty segment.path.not_joined
      fun d begun _ => ?_
    have alone := placed d begun
    rw [declared] at alone
    have free := begun.funcscope
    rw [undeclared] at free
    have resolved := Doclet.resolve_segment segment begun.name begun.memberof free begun.longname
      (by rw [begun.scope]; simp)
    refine ⟨d, alone, ?_, by rw [resolved], ?_⟩
    · rw [begun.name]
      exact segment.ne_empty
    · rw [resolved]
      exact begun.memberof

/-- A symbol on `this` or on the exports. -/
theorem ofSymbol_reserved (segment : Segment key) (named : event.code.name ≠ "")
    (found : reserved? ctx module (some event.node) event.code.name = some p)
    (filled : p.path ≠ "") (fits : p.Fits key) :
    ofSymbol ctx module event ≠ [] ∧ ∀ d ∈ ofSymbol ctx module event,
      d.longname = longnameAt (some p) event.code.name ∧
        d.memberof = some (parentAt (some p) event.code.name) := by
  obtain ⟨s, c, scope, punctuation⟩ := scope_of_reserved found
  obtain ⟨parent, _, path⟩ := p
  cases scope
  have made := ofSymbol_within untagged segment named fits punctuation
    fun d begun => placed_of_reserved begun found filled fits.whole
  unfold longnameAt parentAt
  dsimp only
  rw [if_neg filled, Option.getD_some, Doclet.punctuation_eq punctuation]
  exact made

/-- A symbol that nothing owns. -/
theorem ofSymbol_unowned {place : Option Placement} (segment : Segment key)
    (ends : EndsIn key event.code.name) (undeclared : event.code.funcscope = none)
    (inside : isNamedExport ctx.tree (some event.node) = false)
    (free : reserved? ctx module (some event.node) event.code.name = none)
    (owner : (ctx.registry.owner ctx.tree (some event.node)).memberof = none)
    (found : inner? module event.code.name = place) (fits : ∀ p ∈ place, p.Fits key) :
    ofSymbol ctx module event ≠ [] ∧ ∀ d ∈ ofSymbol ctx module event,
      d.longname = longnameAt place event.code.name ∧
        (event.code.name ≠ key → d.memberof = some (parentAt place event.code.name)) := by
  unfold inner? at found
  cases declared : module.filter fun m => m ≠ event.code.name with
  | none =>
    rw [declared] at found
    subst found
    exact ofSymbol_alone untagged segment ends undeclared fun d begun => by
      rw [placed_of_unreserved begun free, inScope_unowned begun owner inside, declared]
  | some m =>
    rw [declared] at found
    subst found
    have filled := (ends.path segment).ne_empty
    have own := fits _ rfl
    have punctuation : Scope.inner.punctuation? = some '~' := rfl
    obtain ⟨made, all⟩ := ofSymbol_within untagged segment filled own punctuation
      fun d begun => by
        have kept : d.name = some event.code.name := begun.name
        rw [placed_of_unreserved begun free, inScope_unowned begun owner inside, declared, ← kept]
        dsimp only
        rw [own.whole.parentOf]
    refine ⟨made, fun d listed => ?_⟩
    obtain ⟨longname, memberof⟩ := all d listed
    unfold longnameAt parentAt
    rw [Option.map_some]
    dsimp only
    rw [if_neg filled, Option.getD_some, Doclet.punctuation_eq punctuation]
    exact ⟨longname, fun _ => memberof⟩

/-- The exports themselves document the module. -/
theorem ofSymbol_module (named : event.code.name ≠ "") (path : Path parent)
    (undeclared : event.code.funcscope = none)
    (placed : ∀ d, Begun d event.code.name event.code.funcscope →
      placed ctx module (some event.node) d = { d with name := some parent }) :
    ofSymbol ctx module event ≠ [] ∧ ∀ d ∈ ofSymbol ctx module event, d.longname = parent := by
  apply forall_mem_ofSymbol
  intro part listed
  have begun := begun_described ctx event (untagged part listed)
  have free := begun.funcscope
  rw [undeclared] at free
  have text := Doclet.longname_resolve_alone (d := { described ctx event part with
    name := some parent }) path rfl begun.memberof free begun.longname
    (by rw [show Doclet.scope _ = none from begun.scope]; simp)
  obtain ⟨e, made, longname, _⟩ := exists_ofSymbolPart (untagged part listed) named
    (placed _ begun) path.ne_empty (by rw [text]; exact path.not_joined)
  exact ⟨e, made, longname.trans text⟩

end

end Documenter

end Doclets
