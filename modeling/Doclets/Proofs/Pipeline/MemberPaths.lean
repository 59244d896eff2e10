import Doclets.Proofs.Longname.Remainders
import Doclets.Proofs.Pipeline.InnerMembers
import Doclets.Proofs.Pipeline.PrototypeMembers
import Doclets.Proofs.Tree.Naming

/-!
Assignments to what is below a name that resolved to a longname, in every run that only documents.
The name in front and one character behind it are cut off, whatever that is, and the rest is joined
to the longname again. So a path of plain members keeps its place, and one that leads on from the
prototype does; a computed member, or a prototype further down, does not.
-/

namespace Doclets

open Longname (JoinsStatically KeepsPath Segments Whole isMarked joinBelow member shorten
  spellPrototypes)

/-! ### Names below a longname -/

namespace Doclet

variable {d : Doclet} {name own parent text : String}

theorem qualifyName_below (named : d.name = some name) (filled : spellPrototypes name ≠ "")
    (known : d.memberof = some parent) (whole : parent ≠ "") :
    d.qualifyName = (spellPrototypes name, { d with name := some (spellPrototypes name) }) := by
  unfold qualifyName
  simp [named, known, filled, whole]

/-- Where nothing divides it, a path is joined to its parent. -/
theorem longname_of_undivided {q : Doclet} (qualified : d.qualifyName = (name, q))
    (divided : q.divide name = (none, q)) (unnamed : q.longname = "") (scope : q.scope = none)
    (filled : q.join.longname ≠ "") : d.resolve.longname = q.join.longname := by
  have settled : q.settle none = q.join := by simp [settle, scope, unnamed]
  unfold resolve
  simp only [qualified, divided, settled]
  rw [if_neg (by simpa using filled)]

/-- The scope in the code is that of the last punctuation there. -/
theorem punctuation_scopeInCode (code : d.codeName = some text) :
    (d.scopeInCode.getD .static).punctuation? = some ((shorten text).scope.getD '.') := by
  have punctuation := Longname.isPunctuation_scope_shorten text
  unfold scopeInCode
  rw [code, Option.bind_some]
  cases last : (shorten text).scope with
  | none => rfl
  | some c =>
    rw [last, Option.getD_some] at punctuation
    obtain ⟨s, mark, joins⟩ := exists_scope_of_isPunctuation punctuation
    rw [Option.bind_some, mark]
    exact joins

theorem longname_join (named : d.name = some name) (known : d.memberof = some parent)
    (code : d.codeName = some text) : d.join.longname = if isMarked name then parent ++ name
      else member parent ((shorten text).scope.getD '.') name := by
  by_cases marked : isMarked name = true
  · obtain ⟨c, more, punctuation, chars⟩ := Longname.exists_of_isMarked marked
    obtain ⟨s, mark, joins⟩ := exists_scope_of_isPunctuation punctuation
    have whole : String.singleton c ++ String.ofList more = name := by
      apply String.toList_injective
      rw [chars]
      simp
    unfold join
    simp only [named, known, chars, List.head?_cons, Option.bind_some, mark, Option.isSome_some,
      if_true, List.drop_one, List.tail_cons, Option.some_or, Option.getD_some]
    rw [punctuation_eq joins, if_pos marked, String.append_assoc, whole]
  · have bare : name.toList.head?.bind Scope.ofPunctuation = none := by
      rw [Option.eq_none_iff_forall_ne_some]
      intro s leading
      obtain ⟨c, head, mark⟩ := Option.bind_eq_some_iff.mp leading
      have punctuation := isPunctuation_of_scope (Scope.ofPunctuation_eq_some_iff.mp mark)
      exact marked (by rw [isMarked, head, Option.any_some, punctuation])
    have joins := punctuation_scopeInCode code
    unfold join
    simp only [named, known, bare, Option.none_or]
    rw [punctuation_eq joins, if_neg marked]
    rfl

/-- The longname of a path below a parent, where only the name in the code says how it is joined. -/
theorem longname_resolve_below (whole : Whole parent) (filled : name ≠ "")
    (named : d.name = some name) (known : d.memberof = some parent) (unnamed : d.longname = "")
    (scope : d.scope = none) (code : d.codeName = some text) :
    d.resolve.longname = joinBelow parent text (spellPrototypes name) := by
  have spelled := Longname.spellPrototypes_ne_empty filled
  have qualified := qualifyName_below named spelled known whole.ne_empty
  have long : joinBelow parent text (spellPrototypes name) ≠ "" :=
    Longname.joinBelow_ne_empty spelled
  generalize spellPrototypes name = own at spelled qualified long ⊢
  have limited : d.scope ≠ some .global := by simp [scope]
  let q : Doclet := { d with name := some own }
  have divided : q.divide own = q.divideBelow own parent :=
    divide_below whole.ne_empty known whole.spelled
  unfold divideBelow at divided
  rw [if_neg (by simpa using spelled)] at divided
  unfold joinBelow at long ⊢
  -- What `divideBelow` asks is what `joinBelow` asks; only the last answer is left to `join`.
  split at divided
  next below =>
    rw [if_pos below] at long ⊢
    exact longname_of_shortened long qualified divided (Or.inl unnamed) limited
  next beside =>
    rw [if_neg beside] at long ⊢
    split at divided
    next same =>
      rw [if_pos same] at long ⊢
      subst same
      split at divided
      next isModule =>
        rw [if_pos isModule]
        have kept := Longname.spellPrototypes_of_spelled whole.spelled
        exact longname_of_divided spelled kept qualified divided (Or.inl unnamed) limited
      next outside =>
        rw [if_neg outside]
        have static : q.scope = none := scope
        rw [static] at divided
        exact longname_of_divided (Longname.member_ne_empty own '.' own)
          (Longname.spellPrototypes_member whole.spelled rfl whole.spelled) qualified divided
          (Or.inl unnamed) (by simp)
    next other =>
      have untold : q.scope = none := scope
      rw [whole.not_joined, if_neg Bool.false_ne_true, untold] at divided
      rw [if_neg other] at long ⊢
      have joined := longname_join (d := q) rfl known code
      rw [← joined] at long ⊢
      exact longname_of_undivided qualified divided unnamed untold long

end Doclet

/-! ### The doclets of a path -/

namespace Documenter

variable {ctx : Context} {module : Option String} {event : SymbolFound} {node : NodeRef}
  {name target base parent own rest : String} {c : Char}

theorem below?_cases (found : below? target name = some rest) :
    name = target ∨ name.toList = target.toList ++ '.' :: rest.toList := by
  unfold below? at found
  split at found
  next behind after =>
    have text := Text.after?_eq_some_iff.mp after
    split at found
    next empty =>
      rw [String.isEmpty_iff.mp empty, String.append_empty] at text
      exact Or.inl text
    next =>
      rw [Text.after?_eq_some_iff.mp found] at text
      exact Or.inr (by simp [text])
  next => cases found

/-- A path below a target begins with the word that the target begins with. -/
theorem basename?_of_below? {word : String} (found : below? target name = some rest)
    (alone : Longname.basename? target = some word)
    (leads : Longname.basename? (word ++ ".") = some word)
    (begins : (word ++ ".").toList <+: (target ++ ".").toList) :
    Longname.basename? name = some word := by
  rcases below?_cases found with rfl | text
  · exact alone
  · obtain ⟨more, same⟩ := begins
    have path : (word ++ ".").toList = word.toList ++ '.' :: [] := by simp
    have also : name.toList = word.toList ++ '.' :: (more ++ rest.toList) := by
      calc
        name.toList = (target ++ ".").toList ++ rest.toList := by simp [text]
        _ = word.toList ++ '.' :: (more ++ rest.toList) := by simp [← same]
    exact Longname.basename?_of_front path also leads

/-- A path that begins with no reserved word is neither on `this` nor on the exports. -/
theorem reserved?_of_basename (leads : Longname.basename? name = some base)
    (not_this : base ≠ "this") (not_module : base ≠ "module") (not_exports : base ≠ "exports") :
    reserved? ctx module node name = none := by
  have free {target word : String} (other : base ≠ word)
      (begins : ∀ rest, below? target name = some rest → Longname.basename? name = some word) :
      below? target name = none := by
    rw [Option.eq_none_iff_forall_ne_some]
    exact fun rest below => other (Option.some.inj (leads.symm.trans (begins rest below)))
  have this : below? "this" name = none := free not_this fun _ below =>
    basename?_of_below? below (by decide) (by decide) (by decide)
  have long : below? "module.exports" name = none := free not_module fun _ below =>
    basename?_of_below? below (by decide) (by decide) (by decide)
  have exports : below? "exports" name = none := free not_exports fun _ below =>
    basename?_of_below? below (by decide) (by decide) (by decide)
  unfold reserved? exported?
  rw [this, long, exports]
  cases module <;> rfl

/-- A path that ends behind the character that is cut off makes no doclet. -/
theorem Owned.ofSymbol_end (h : Owned ctx module event base parent)
    (path : event.code.name = member base c "") : ofSymbol ctx module event = [] := by
  have text : event.code.name.toList = base.toList ++ [c] := by
    rw [path, Longname.toList_member]
    rfl
  exact ofSymbol_nameless h.untagged fun d begun => by rw [h.placed text begun]

/-- The doclets of any other path that begins with a name that resolved. -/
theorem Owned.ofSymbol_below (h : Owned ctx module event base parent)
    (path : event.code.name = member base c own) (filled : own ≠ "") :
    let longname := joinBelow parent event.code.name (spellPrototypes own)
    if isPrototype longname then ofSymbol ctx module event = []
    else ofSymbol ctx module event ≠ [] ∧
      ∀ d ∈ ofSymbol ctx module event, d.longname = longname := by
  intro longname
  have text : event.code.name.toList = base.toList ++ c :: own.toList := by
    rw [path, Longname.toList_member]
  have each : ∀ part ∈ Comment.parts event.comment, ∃ e : Doclet, e.longname = longname ∧
      ofSymbolPart ctx module event part = if isPrototype longname then none else some e := by
    intro part listed
    have begun := begun_described ctx event (h.untagged part listed)
    have placed := h.placed text begun
    rw [String.ofList_toList] at placed
    have resolved := Doclet.longname_resolve_below (d := { described ctx event part with
      name := some own, memberof := some parent }) h.whole filled rfl rfl begun.longname
      begun.scope (codeName_described ctx event part)
    have made := ofSymbolPart_of_placed begun.memberof
      (path ▸ Longname.member_ne_empty base c own) placed filled
    rw [resolved] at made
    exact ⟨_, (completes_completed ctx module event _).longname.trans resolved, made⟩
  split
  next hidden =>
    unfold ofSymbol
    rw [List.filterMap_eq_nil_iff]
    intro part listed
    obtain ⟨e, _, made⟩ := each part listed
    rw [made, if_pos hidden]
  next shown =>
    apply forall_mem_ofSymbol
    intro part listed
    obtain ⟨e, text, made⟩ := each part listed
    exact ⟨e, made.trans (if_neg shown), text⟩

end Documenter

/-! ### Assignments to paths -/

namespace Tree

variable {t : Tree} {i : NodeIndex}

/-- An assignment is called like what it assigns to, if that has a name. -/
theorem name_of_assigned {operator : String} {left right : NodeRef}
    (payload : t.payload? (some i) = some (.assignment operator left right))
    (named : t.name left ≠ "") : t.name (some i) = t.name left := by
  obtain ⟨text, found⟩ : ∃ text, t.nameWithin (t.nodes.size + 2) left = some text := by
    rw [← Option.isSome_iff_exists, Option.isSome_iff_ne_none]
    intro none
    exact named (by rw [name, none]; rfl)
  obtain ⟨n, stored, shape⟩ := Option.map_eq_some_iff.mp payload
  have longer : t.nameWithin (t.nodes.size + 2 + 1) (some i) = some text := by
    rw [nameWithin, stored]
    dsimp only
    rw [shape]
    exact found
  rw [name_of_nameWithin found, name_of_nameWithin longer]

end Tree

namespace Walk

variable {walk : Walk (Option String)} {file base parent own : String} {i : NodeIndex} {c : Char}

/-- An assignment, without tags, to a path that begins with an identifier that resolved to a
longname. The identifier is no reserved word, and something follows it. -/
structure AtPath (walk : Walk (Option String)) (i : NodeIndex) (base : String) (c : Char)
    (own parent : String) : Prop where
  payload : ∃ operator left right,
    walk.tree.payload? (some i) = some (.assignment operator left right) ∧
      walk.tree.name left = member base c own
  leads : Longname.basename? (member base c own) = some base
  not_this : base ≠ "this"
  not_module : base ≠ "module"
  not_exports : base ≠ "exports"
  front : walk.front? i = some parent
  segments : Segments parent
  untagged : ∀ part ∈ Comment.parts (walk.tree.docText i), ∀ origin,
    (Doclet.ofComment part origin).Untagged

theorem AtPath.owned (here : walk.AtPath i base c own parent) {event : SymbolFound} {r : Registry}
    (found : walk.AssignmentFound file i (member base c own) event r) :
    Documenter.Owned ⟨r, walk.tree⟩ walk.state event base parent where
  untagged := found.comment ▸ here.untagged
  free := Documenter.reserved?_of_basename (found.named ▸ here.leads) here.not_this here.not_module
    here.not_exports
  leads := found.named ▸ here.leads
  owner := found.owned here.front here.leads (Longname.ne_member base c own)
  whole := here.segments.whole

/-- The checkpoint of an assignment to a path. -/
theorem AtPath.exists_found (h : walk.tree.Grown) (here : walk.AtPath i base c own parent)
    (file : String) : ∃ event r, walk.AssignmentFound file i (member base c own) event r := by
  obtain ⟨operator, left, right, payload, named⟩ := here.payload
  have filled : walk.tree.name left ≠ "" := named ▸ Longname.member_ne_empty base c own
  exact exists_assignmentFound_of_payload h payload named
    ((Tree.name_of_assigned payload filled).trans named) file

theorem AtPath.made_end (h : walk.tree.Grown) (here : walk.AtPath i base c "" parent)
    (file : String) : walk.made file i = [] := by
  obtain ⟨event, r, found⟩ := here.exists_found h file
  rw [found.made]
  exact (here.owned found).ofSymbol_end found.named

/-- What is made of an assignment to a path: doclets of one longname, unless that is a prototype. -/
theorem AtPath.made_below (h : walk.tree.Grown) (here : walk.AtPath i base c own parent)
    (filled : own ≠ "") (file : String) :
    let longname := joinBelow parent (member base c own) (spellPrototypes own)
    if Documenter.isPrototype longname then walk.made file i = []
    else walk.Makes file i fun d => d.longname = longname := by
  obtain ⟨event, r, found⟩ := here.exists_found h file
  have made := (here.owned found).ofSymbol_below found.named filled
  rw [found.named] at made
  unfold Makes
  rw [found.made]
  exact made

/-- Where the longname is that of the path with the longname in front. -/
theorem AtPath.makes_iff (h : walk.tree.Grown) (here : walk.AtPath i base c own parent)
    (file : String) {longname : String} :
    (walk.Makes file i fun d => d.longname = longname) ↔
      own ≠ "" ∧ Documenter.isPrototype longname = false ∧
        joinBelow parent (member base c own) (spellPrototypes own) = longname := by
  by_cases filled : own = ""
  · subst filled
    have none := here.made_end h file
    exact iff_of_false (fun made => made.1 none) fun other => other.1 rfl
  · have made := here.made_below h filled file
    dsimp only at made
    split at made
    next hidden =>
      refine iff_of_false (fun some => some.1 made) ?_
      rintro ⟨_, shown, rfl⟩
      rw [hidden] at shown
      cases shown
    next shown =>
      rw [made.eq_iff]
      constructor
      · rintro rfl
        exact ⟨filled, by simpa using shown, rfl⟩
      · exact fun keeps => keeps.2.2

end Walk

namespace Run

variable {run : Run (Option String)} {file base parent own : String} {t : Tree} {i : NodeIndex}
  {c : Char}

/-- The doclets of the symbol at a node all have this longname, and the walk of the unit ends with
such a result. -/
def RegistersAs (run : Run (Option String)) (file : String) (t : Tree) (i : NodeIndex)
    (longname : String) : Prop :=
  ((run.walkTo file t i).Makes file i fun d => d.longname = longname) ∧
    let done := (run.walk file t).2.registry
    ∃ id ∈ done.results, (done.doclet id).longname = longname

theorem Documents.registersAs_iff (h : run.Documents file t) (visited : .node i ∈ t.stops)
    {longname : String} : run.RegistersAs file t i longname ↔
      (run.walkTo file t i).Makes file i fun d => d.longname = longname := by
  refine ⟨And.left, fun makes => ⟨makes, ?_⟩⟩
  obtain ⟨d, made⟩ := List.exists_mem_of_ne_nil _ makes.1
  obtain ⟨id, listed, alike⟩ := h.stored_of_made visited made
  exact ⟨id, listed, alike.longname.trans (makes.2 d made)⟩

/-- What an assignment to a path registers, if the name in front resolved to a longname: what is
left of the path, joined to the longname by what the whole name suggests. Behind a dot that is the
path with the longname in front exactly where the path keeps its place; behind a bracket it never
is. -/
theorem registers_path (h : run.Documents file t) (visited : .node i ∈ t.stops)
    (here : (run.walkTo file t i).AtPath i base c own parent) :
    let text := member base c own
    let longname := joinBelow parent text (spellPrototypes own)
    let path := spellPrototypes (member parent c own)
    (if own = "" ∨ Documenter.isPrototype longname then (run.walkTo file t i).made file i = []
      else run.RegistersAs file t i longname) ∧
    (run.RegistersAs file t i path ↔
      own ≠ "" ∧ Documenter.isPrototype path = false ∧ longname = path) ∧
    (c = '.' → (longname = path ↔ KeepsPath parent text own)) ∧
    (c = '[' → longname ≠ path) := by
  have tree := h.tree_walkTo i
  have grown : (run.walkTo file t i).tree.Grown := tree.symm ▸ h.grown
  intro text longname path
  refine ⟨?_, ?_, ?_, ?_⟩
  · by_cases filled : own = ""
    · subst filled
      rw [if_pos (Or.inl rfl)]
      exact here.made_end grown file
    · have made := here.made_below grown filled file
      simp only [filled, false_or]
      dsimp only at made
      split at made
      next hidden =>
        rw [if_pos hidden]
        exact made
      next shown =>
        rw [if_neg shown]
        exact (h.registersAs_iff visited).mpr made
  · rw [h.registersAs_iff visited]
    exact here.makes_iff grown file
  · rintro rfl
    exact Longname.joinBelow_eq_iff here.segments text own
  · rintro rfl
    exact Longname.joinBelow_ne_computed here.segments.whole.spelled text _ own

end Run

/-! ### Members of a variable -/

namespace MembersOfVariable

open ExportedClass (identifier node)
open LiteralOfVariables (declaration)
open PrototypeOfVariable (assignment select)

/-- `object[property]` -/
def element (object property : Json.Value) : Json.Value :=
  node "MemberExpression" [("object", object), ("property", property), ("computed", .bool true)]

/-- `function f() { var b = a; … }`, with assignments to `b.a.c`, `b.prototype.m`, `b[k]`, `b["k"]`,
`b.prototype` and `b.a.prototype.m`. -/
def unit : Json.Value :=
  let b := identifier "b"
  let targets := [select (select b "a") "c", select (select b "prototype") "m",
    element b (identifier "k"), element b (node "Literal" [("value", .str "k")]),
    select b "prototype", select (select (select b "a") "prototype") "m"]
  let assignments := targets.map fun target => assignment target (identifier "v")
  node "Program" [("comments", .arr []), ("body", .arr [
    NestedFunctions.declaration "f" (declaration "b" (identifier "a") :: assignments)])]

def tree : Tree :=
  match Estree.ofValue "b.js" unit with
  | .ok t => t
  | .error _ => ⟨"", 0, #[], none, #[]⟩

def run : Run (Option String) := .start .estree .documenting none

theorem documents : run.Documents "b.js" tree :=
  ⟨⟨.estree, .documenting, none, [], rfl⟩, rfl, unit, _, rfl, rfl⟩

theorem segments : Segments "f~b" := by
  have f : Longname.Word "f" := by decide +kernel
  have b : Longname.Word "b" := by decide +kernel
  rw [show "f~b" = member "f" '~' "b" by decide]
  exact .join (.one f.segment (by decide)) rfl b.segment

/-- An assignment of the unit: its node, what it assigns to, and what follows `b` there. -/
structure Target where
  node : NodeIndex
  left : NodeIndex
  joint : Char
  own : String

/-- Nested members, and those of the prototype. -/
def kept : List Target := [⟨11, 9, '.', "a.c"⟩, ⟨19, 17, '.', "prototype.m"⟩]

/-- Computed members, the bare prototype, and the member of another prototype. -/
def lost : List Target := [⟨25, 23, '[', "k]"⟩, ⟨31, 29, '[', "\"k\"]"⟩, ⟨37, 35, '.', "prototype"⟩,
  ⟨47, 45, '.', "a.prototype.m"⟩]

theorem payload {target : Target} (listed : target ∈ kept ++ lost) :
    tree.payload? (some target.node) =
      some (.assignment "=" (some target.left) (some (target.left + 1))) := by
  simp only [kept, lost, List.cons_append, List.nil_append, List.mem_cons, List.not_mem_nil,
    or_false] at listed
  rcases listed with rfl | rfl | rfl | rfl | rfl | rfl <;> rfl

theorem named : ∀ target ∈ kept ++ lost,
    tree.name (some target.left) = member "b" target.joint target.own ∧
      Longname.basename? (member "b" target.joint target.own) = some "b" ∧
      tree.docText target.node = "" ∧ target.node < tree.nodes.size := by
  decide +kernel

theorem front : ∀ target ∈ kept ++ lost,
    (run.walkTo "b.js" tree target.node).front? target.node = some "f~b" := by
  decide +kernel

theorem visited {target : Target} (listed : target ∈ kept ++ lost) :
    .node target.node ∈ tree.stops :=
  documents.visited (named target listed).2.2.2

theorem atPath {target : Target} (listed : target ∈ kept ++ lost) :
    (run.walkTo "b.js" tree target.node).AtPath target.node "b" target.joint target.own "f~b" := by
  have same := documents.tree_walkTo target.node
  obtain ⟨path, leads, plain, _⟩ := named target listed
  refine ⟨⟨"=", some target.left, some (target.left + 1), ?_, ?_⟩, leads, by decide, by decide,
    by decide, front target listed, segments, ?_⟩
  · rw [same]
    exact payload listed
  · rw [same]
    exact path
  · rw [same, plain]
    exact fun part listed origin => (ExportedClass.untagged part listed origin).1

/-- Computed members lose the bracket, the bare prototype stays a word, and the member of another
prototype is joined to the variable as if that was its own. -/
theorem members_misplaced : run.Documents "b.js" tree ∧
    (∀ target ∈ lost, .node target.node ∈ tree.stops ∧
      (run.walkTo "b.js" tree target.node).AtPath target.node "b" target.joint target.own "f~b") ∧
    (lost.map fun target => ((run.walkTo "b.js" tree target.node).made "b.js" target.node).map
      Doclet.longname) = [["f~b.k]"], ["f~b.\"k\"]"], ["f~b.prototype"], ["f~b#a#m"]] ∧
    (lost.map fun target => spellPrototypes (member "f~b" target.joint target.own)) =
      ["f~b[k]", "f~b[\"k\"]", "f~b#", "f~b.a#m"] := by
  have listed {target : Target} (among : target ∈ lost) : target ∈ kept ++ lost :=
    List.mem_append_right kept among
  refine ⟨documents, fun target among => ⟨visited (listed among), atPath (listed among)⟩, ?_, ?_⟩
  · decide +kernel
  · decide +kernel

/-- A nested member and one of the prototype keep their path, a computed member does not. -/
theorem registers_path_variable :
    run.RegistersAs "b.js" tree 11 "f~b.a.c" ∧ run.RegistersAs "b.js" tree 19 "f~b#m" ∧
      run.RegistersAs "b.js" tree 25 "f~b.k]" ∧ ¬ run.RegistersAs "b.js" tree 25 "f~b[k]" := by
  have nested : (⟨11, 9, '.', "a.c"⟩ : Target) ∈ kept ++ lost := by simp [kept]
  have own : (⟨19, 17, '.', "prototype.m"⟩ : Target) ∈ kept ++ lost := by simp [kept]
  have computed : (⟨25, 23, '[', "k]"⟩ : Target) ∈ kept ++ lost := by simp [lost]
  have first := Run.registers_path documents (visited nested) (atPath nested)
  have second := (Run.registers_path documents (visited own) (atPath own)).2.1
  have third := Run.registers_path documents (visited computed) (atPath computed)
  dsimp only at first second third
  have below : spellPrototypes (member "f~b" '.' "a.c") = "f~b.a.c" := by decide +kernel
  have dotted : Longname.Dotted "a.c" := by
    rw [show "a.c" = member "a" '.' "c" by decide]
    exact .join (.one (by decide +kernel)) (by decide +kernel)
  have base : Longname.Word "b" := by decide +kernel
  have apart : Longname.Apart "f~b" "a.c" := ⟨by decide, by decide⟩
  have keeps : KeepsPath "f~b" (member "b" '.' "a.c") "a.c" :=
    dotted.keepsPath base.segment.path apart
  have behind : joinBelow "f~b" (member "b" '.' "prototype.m") (spellPrototypes "prototype.m") =
      "f~b#m" ∧ spellPrototypes (member "f~b" '.' "prototype.m") = "f~b#m" := by decide +kernel
  have within : joinBelow "f~b" (member "b" '[' "k]") (spellPrototypes "k]") = "f~b.k]" ∧
      spellPrototypes (member "f~b" '[' "k]") = "f~b[k]" := by decide +kernel
  rw [below] at first
  rw [behind.1, behind.2] at second
  rw [within.1, within.2, if_neg (by decide +kernel)] at third
  refine ⟨first.2.1.mpr ⟨by decide, by decide +kernel, (first.2.2.1 rfl).mpr keeps⟩,
    second.mpr (by decide +kernel), third.1, fun registers => ?_⟩
  exact third.2.2.2 rfl (third.2.1.mp registers).2.2

end MembersOfVariable

end Doclets
