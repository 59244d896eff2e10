import Doclets.Proofs.Pipeline.LiteralProperties
import Doclets.Proofs.Pipeline.Reading
import Doclets.Proofs.Pipeline.Units
import Doclets.Proofs.Registry.Isolation

/-!
A unit that is read after others makes the doclets that it makes on its own, as long as no question
that it leaves open is answered by what was there before: what a name stands for that it looks up
and nothing in it declares, and, where it asks what `this` is, whether a parent that it did not
register itself is a class.
-/

namespace Doclets

open Registry (Stacked above)
open Registry.Stacked (shift)

theorem Doclet.alike_inUnit (d : Doclet) (u : Nat) : (d.inUnit u).Alike d :=
  ⟨⟨rfl, rfl, rfl, rfl, rfl, rfl⟩, rfl, rfl, rfl⟩

/-! ### Open questions -/

/-- A name that a stop looks up to place a symbol, and that nothing declares. -/
def Walk.LeavesName (walk : Walk (Option String)) (file : String) (base : String) : Stop → Prop
  | .comment _ => False
  | .node i => ∃ event followUps r,
    Watchers.symbolAt? walk.tree file i walk.registry = some (event, followUps, r) ∧
      Documenter.below? "this" event.code.name = none ∧
      Documenter.exported? walk.state event.code.name = none ∧
      r.AsksName walk.tree (some event.node) base

/-- A parent of an instance member that a stop asks for to place a symbol on `this`, and that
nothing was registered under. -/
def Walk.LeavesClass (walk : Walk (Option String)) (file : String) (parent : String) :
    Stop → Prop
  | .comment _ => False
  | .node i => ∃ event followUps r,
    Watchers.symbolAt? walk.tree file i walk.registry = some (event, followUps, r) ∧
      Documenter.below? "this" event.code.name ≠ none ∧ r.AsksClass walk.tree parent

namespace Watchers

variable {old r s : Registry} {u v : Nat} {t : Tree} {file : String}

/-! ### Symbols -/

/-- What is found in a unit on top of others, and what is found in it on its own. -/
structure Prepared {α : Type} (old : Registry) (u v : Nat) (a b : α × List FollowUp × Registry) :
    Prop where
  found : a.1 = b.1
  followUps : a.2.1 = b.2.1.map (shift old.doclets.size)
  stacked : Stacked old u v a.2.2 b.2.2

/-- Notes a name with the scope around it. -/
def noteName (t : Tree) (node : NodeRef) (name : String) (r : Registry) :
    List FollowUp × Registry :=
  if name.isEmpty then ([], r)
  else
    match r.idOfNode? t (t.scope node) with
    | some scope => ([.trackName scope], r.declare scope name none)
    | none => ([], r)

/-- A symbol with the function scope that declares its name in front of an assignment. -/
def withFuncscope (t : Tree) (node : NodeRef) (kind : NodeKind) (code : Symbol) (r : Registry) :
    Symbol :=
  if kind = .assignmentExpression then
    match Longname.basename? code.name with
    | some basename =>
      if basename = "this" then code
      else
        let scope := r.declaringScope t node basename
        { code with funcscope := if scope.isEmpty then none else some scope }
    | none => code
  else code

theorem declareName_eq (t : Tree) (node : NodeRef) (kind : NodeKind) (code : Symbol)
    (r : Registry) : declareName t node kind code r =
      let noted := noteName t node code.name r
      (withFuncscope t node kind code noted.2, noted.1, noted.2) := rfl

theorem stacked_noteName (h : Stacked old u v r s) (t : Tree) (node : NodeRef) (name : String) :
    (noteName (t.inUnit u) node name r).1 =
        (noteName (t.inUnit v) node name s).1.map (shift old.doclets.size) ∧
      Stacked old u v (noteName (t.inUnit u) node name r).2
        (noteName (t.inUnit v) node name s).2 := by
  unfold noteName
  rw [Tree.scope_inUnit, Tree.scope_inUnit, h.idOfNode?]
  split
  · exact ⟨rfl, h⟩
  · cases s.idOfNode? (t.inUnit v) (t.scope node) with
    | none => exact ⟨rfl, h⟩
    | some scope => exact ⟨rfl, h.declare scope name none⟩

theorem prepared_declareName (h : Stacked old u v r s) (t : Tree) (node : NodeRef)
    (kind : NodeKind) (code : Symbol) : Prepared old u v
      (declareName (t.inUnit u) node kind code r) (declareName (t.inUnit v) node kind code s) := by
  obtain ⟨followUps, noted⟩ := stacked_noteName h t node code.name
  rw [declareName_eq, declareName_eq]
  refine ⟨?_, followUps, noted⟩
  unfold withFuncscope
  simp only [noted.declaringScope t node]

theorem prepared_prepare (h : Stacked old u v r s) (t : Tree) (node : NodeRef) (kind : NodeKind)
    (code : Symbol) : Prepared old u v (prepare (t.inUnit u) node kind code r)
      (prepare (t.inUnit v) node kind code s) := by
  have declared := prepared_declareName h t node kind code
  unfold prepare
  split
  case h_3 => exact ⟨rfl, rfl, h⟩
  case h_4 =>
    rw [Tree.isConstructor_inUnit, Tree.isConstructor_inUnit]
    refine ⟨rfl, ?_, h⟩
    dsimp only
    split <;> rfl
  case h_5 => exact ⟨rfl, rfl, h⟩
  all_goals exact declared

/-- A node stands for the same symbol in a unit on top of others. -/
theorem prepared_symbolAt? (h : Stacked old u v r s) (t : Tree) (file : String) (i : NodeIndex) :
    Option.Rel (Prepared old u v) (symbolAt? (t.inUnit u) file i r)
      (symbolAt? (t.inUnit v) file i s) := by
  unfold symbolAt?
  rw [Tree.nodes_inUnit, Tree.nodes_inUnit, Tree.ofNode?_inUnit, Tree.ofNode?_inUnit,
    Tree.doc?_inUnit, Tree.doc?_inUnit]
  cases t.nodes[i]? with
  | none => exact .none
  | some n =>
    cases Symbol.ofNode? t (some i) with
    | none => exact .none
    | some code =>
      have prepared := prepared_prepare h t (some i) n.kind code
      dsimp only
      exact .some ⟨by rw [prepared.found], prepared.followUps, prepared.stacked⟩

/-! ### Doclets -/

/-- Doclets that are registered in a unit on top of others lie on top of what was there. -/
theorem stacked_register {f : Doclet → Doclet} (alike : ∀ d, (f d).Alike d)
    (h : Stacked old u v r s) (doclets : List Doclet) (state : Option String) :
    let first := documenting.register (doclets.map f) r state
    let second := documenting.register doclets s state
    first.2.1 = second.2.1.map (above old.doclets.size) ∧
      (∀ id ∈ second.2.1, 0 < id ∧ id < second.2.2.1.doclets.size) ∧
      Stacked old u v first.2.2.1 second.2.2.1 := by
  induction doclets generalizing r s state with
  | nil => exact ⟨rfl, (fun id none => by cases none), h⟩
  | cons d rest ih =>
    rw [List.map_cons, register_cons, register_cons]
    have shown (d : Doclet) (s : Option String) :
        Handler.relay Handler.newDoclet documenting.handlers d s = (.continue, d, s) := rfl
    rw [shown, shown]
    obtain ⟨last, inside, stacked⟩ := ih (h.addDoclet (alike d)) state
    dsimp only at last inside stacked ⊢
    have kept := documenting.retains_register rest (s.addDoclet d).2 state
    refine ⟨?_, ?_, stacked⟩
    · rw [last, ← h.above_size]
      cases (documenting.register rest (s.addDoclet d).2 state).2.1 <;> rfl
    · intro id listed
      rcases Option.or_eq_some_iff.mp listed with later | ⟨_, this⟩
      · exact inside id later
      · rw [← Option.some.inj this]
        have bound : s.doclets.size < (s.addDoclet d).2.doclets.size := by simp
        exact ⟨h.rooted.2.stored, Nat.lt_of_lt_of_le bound kept.size_le⟩

/-! ### Comments -/

/-- A stop at a documentation comment stores what its parts document on their own. -/
theorem passComment_of_doc {walk : Walk (Option String)} {index : Nat} {comment : Comment}
    (found : walk.tree.comments[index]? = some comment) (doc : comment.isDoc = true)
    (file : String) : documenting.passComment file index walk =
      let read := Documenter.ofCommentParts
        ⟨comment.raw, file, comment.position.line, comment.position.column, []⟩ walk.state
        (Comment.parts comment.raw)
      (.continue,
        ⟨walk.tree, (documenting.register read.1 walk.registry read.2).2.2.1, read.2⟩) := by
  let event : CommentFound :=
    ⟨comment.raw, file, comment.position.line, comment.position.column, []⟩
  generalize told : Documenter.ofCommentParts event walk.state (Comment.parts comment.raw) = read
  have shown : Handler.relay (fun h => h.commentFound ⟨walk.registry, walk.tree⟩)
      documenting.handlers event walk.state =
        (.continue, { event with doclets := read.1 }, read.2) := by
    rw [← told]
    rfl
  obtain ⟨flow, state, _⟩ := register_documenting read.1 walk.registry read.2
  unfold passComment
  rw [found]
  dsimp only
  rw [if_pos doc, shown]
  dsimp only
  rw [flow, state, if_pos rfl]
  rfl

theorem passComment_of_plain {walk : Walk (Option String)} {index : Nat}
    (plain : ∀ comment, walk.tree.comments[index]? = some comment → comment.isDoc = false)
    (file : String) : documenting.passComment file index walk = (.continue, walk) := by
  unfold passComment
  cases found : walk.tree.comments[index]? with
  | none => rfl
  | some comment =>
    dsimp only
    rw [if_neg (by simp [plain comment found])]

end Watchers

/-! ### Walks -/

/-- A walk of a unit on top of others, beside the walk of the unit on its own. -/
structure Walk.Stacked (old : Registry) (t : Tree) (u v : Nat) (walk alone : Walk (Option String)) :
    Prop where
  tree : walk.tree = t.inUnit u ∧ alone.tree = t.inUnit v
  state : walk.state = alone.state
  registry : Registry.Stacked old u v walk.registry alone.registry

/-- Nothing that was there before answers what a stop of a walk leaves open. -/
structure Walk.Apart (old : Registry) (walk : Walk (Option String)) (file : String) (stop : Stop) :
    Prop where
  names : ∀ base, walk.LeavesName file base stop →
    Ledger.get? base (old.doclet 0).origin.vars = none
  classes : ∀ parent, walk.LeavesClass file parent stop → ¬ old.HasClass parent

namespace Walk.Stacked

variable {old : Registry} {t : Tree} {u v : Nat} {walk alone : Walk (Option String)} {file : String}
  {i : NodeIndex} {stop : Stop} {stops : List Stop}

open Watchers (documenting passNode_documenting passNode_plain passComment_of_doc
  passComment_of_plain passAll_cons stacked_register prepared_symbolAt?)

theorem passNode (h : Walk.Stacked old t u v walk alone) (sound : old.Sound)
    (apart : alone.Apart old file (.node i)) :
    Walk.Stacked old t u v (documenting.passNode file i walk).2
      (documenting.passNode file i alone).2 := by
  have both := prepared_symbolAt? h.registry t file i
  rw [← h.tree.1, ← h.tree.2] at both
  generalize first : Watchers.symbolAt? walk.tree file i walk.registry = x at both
  generalize second : Watchers.symbolAt? alone.tree file i alone.registry = y at both
  cases both with
  | none =>
    rw [passNode_plain first, passNode_plain second]
    exact h
  | @some a b prepared =>
    obtain ⟨event, shifted, r⟩ := a
    obtain ⟨other, followUps, s⟩ := b
    obtain ⟨same, shift, stacked⟩ := prepared
    dsimp only at same shift stacked
    subst same shift
    -- The two look-ups that may see what was there before are the ones that `apart` is about.
    have made : walk.made file i = (alone.made file i).map (Doclet.inUnit · u) := by
      rw [Walk.made_of_symbol first, Walk.made_of_symbol second, h.tree.1, h.tree.2, h.state]
      refine Documenter.ofSymbol_inUnit (fun below => ?_) fun below inside => ?_
      · exact stacked.this t _ sound fun parent asks => apart.classes parent
          ⟨event, followUps, s, second, below, h.tree.2 ▸ asks⟩
      · exact stacked.owner t _ fun base asks => apart.names base
          ⟨event, followUps, s, second, below, inside, h.tree.2 ▸ asks⟩
    rw [passNode_documenting first, passNode_documenting second, made, h.state]
    obtain ⟨last, inside, stored⟩ :=
      stacked_register (Doclet.alike_inUnit · u) stacked (alone.made file i) alone.state
    refine ⟨h.tree, rfl, ?_⟩
    dsimp only
    rw [last]
    generalize documenting.register (alone.made file i) s alone.state = done at last inside stored
    rw [h.tree.1, h.tree.2]
    cases told : done.2.1 with
    | none => exact stored.registerNode t event.code.node none (by simp) event.code
    | some id =>
      obtain ⟨pos, bound⟩ := inside id told
      have followed := stored.follow_all t (some event.node) event.code.name pos bound followUps
      have kept := Watchers.retains_follow_all (t.inUnit v) (some event.node) event.code.name id
        followUps done.2.2.1
      refine followed.registerNode t event.code.node (some id) ?_ event.code
      rintro _ ⟨⟩
      exact ⟨pos, Nat.lt_of_lt_of_le bound kept.size_le⟩

theorem passComment (h : Walk.Stacked old t u v walk alone) (file : String) (index : Nat) :
    Walk.Stacked old t u v (documenting.passComment file index walk).2
      (documenting.passComment file index alone).2 := by
  have first : walk.tree.comments[index]? = t.comments[index]? := by rw [h.tree.1]; rfl
  have second : alone.tree.comments[index]? = t.comments[index]? := by rw [h.tree.2]; rfl
  by_cases doc : ∃ comment, t.comments[index]? = some comment ∧ comment.isDoc = true
  · obtain ⟨comment, found, isDoc⟩ := doc
    rw [passComment_of_doc (first.trans found) isDoc, passComment_of_doc (second.trans found) isDoc,
      h.state]
    dsimp only
    generalize Documenter.ofCommentParts _ alone.state _ = read
    obtain ⟨_, _, stored⟩ :=
      stacked_register (f := fun d => d) Doclet.Alike.refl h.registry read.1 read.2
    rw [List.map_id'] at stored
    exact ⟨h.tree, rfl, stored⟩
  · have plain (comment : Comment) (found : t.comments[index]? = some comment) :
        comment.isDoc = false := by
      rw [Bool.eq_false_iff]
      exact fun isDoc => doc ⟨comment, found, isDoc⟩
    rw [passComment_of_plain (fun comment found => plain comment (first.symm.trans found)),
      passComment_of_plain (fun comment found => plain comment (second.symm.trans found))]
    exact h

/-- A stop keeps a walk beside the walk of the unit on its own. -/
theorem pass (h : Walk.Stacked old t u v walk alone) (sound : old.Sound)
    (apart : alone.Apart old file stop) : Walk.Stacked old t u v
      (documenting.pass file walk stop).2 (documenting.pass file alone stop).2 := by
  cases stop with
  | comment index => exact h.passComment file index
  | node i => exact h.passNode sound apart

theorem passAll (h : Walk.Stacked old t u v walk alone) (sound : old.Sound)
    (apart : ∀ before stop after, stops = before ++ stop :: after →
      (documenting.passAll file before alone).2.Apart old file stop) : Walk.Stacked old t u v
      (documenting.passAll file stops walk).2 (documenting.passAll file stops alone).2 := by
  induction stops generalizing walk alone with
  | nil => exact h
  | cons stop rest ih =>
    rw [passAll_cons, passAll_cons]
    refine ih (h.pass sound (apart [] stop rest rfl)) fun before next after split => ?_
    have there := apart (stop :: before) next after (by rw [split]; rfl)
    rw [passAll_cons] at there
    exact there

end Walk.Stacked

/-! ### Units -/

/-- What a doclet is called, and where it belongs. -/
def Doclet.place (d : Doclet) : Option String × Option String × Option Scope × String :=
  (d.name, d.memberof, d.scope, d.longname)

namespace Registry

open Watchers (documenting)

variable {old r s : Registry} {u v : Nat} {file : String} {t : Tree}

/-- The results are those that were there before, and then those of the unit on its own. -/
theorem Stacked.map_resultDoclets {β : Type} {f : Doclet → β} (h : Stacked old u v r s)
    (sound : old.Sound) (same : ∀ d e : Doclet, d.SameIdentity e → f d = f e) :
    r.resultDoclets.map f = old.resultDoclets.map f ++ s.resultDoclets.map f := by
  unfold resultDoclets
  rw [h.results, List.map_append, List.map_append, List.map_map, List.map_map, List.map_map,
    List.map_map, List.map_map]
  congr 1
  · refine List.map_congr_left fun id listed => ?_
    exact same _ _ (h.remembers.1.doclet id (sound.valid id (Array.mem_toList_iff.mp listed)))
  · refine List.map_congr_left fun id listed => ?_
    obtain ⟨pos, bound⟩ := h.listed id (Array.mem_toList_iff.mp listed)
    exact same _ _ (h.alike id pos bound).toSameIdentity

/-- Nothing that is there answers what a unit leaves open when it is walked on its own. -/
def Apart (old : Registry) (file : String) (t : Tree) : Prop :=
  ∀ before stop after, t.stops = before ++ stop :: after →
    (empty.walkTo file t before).Apart old file stop

/-- A unit adds to the results those that it has on its own. -/
theorem Apart.places_walked (h : old.Apart file t) (sound : old.Sound) (rooted : old.Rooted)
    (numbered : old.Numbered) : (old.walked file t).resultDoclets.map Doclet.place =
      old.resultDoclets.map Doclet.place ++
        (empty.walked file t).resultDoclets.map Doclet.place := by
  have begun : Walk.Stacked old t old.units 0 ⟨t.inUnit old.units, old.nextUnit.2, none⟩
      ⟨t.inUnit 0, empty.nextUnit.2, none⟩ :=
    ⟨⟨rfl, rfl⟩, rfl, .start sound rooted numbered⟩
  have done : Walk.Stacked old t old.units 0 (old.walkTo file t t.stops)
      (empty.walkTo file t t.stops) := begun.passAll sound h
  refine done.registry.map_resultDoclets sound fun d e same => ?_
  unfold Doclet.place
  rw [same.name, same.memberof, same.scope, same.longname]

end Registry

/-! ### Runs -/

namespace Run

variable {run : Run (Option String)}

/-- The run that has the same provider and watchers, before it has read anything. -/
def alone (run : Run (Option String)) : Run (Option String) :=
  start run.provider run.watchers none

/-- The doclets of a unit have the names and parents, and the order, that they have when it is read
on its own, whatever was read before, as long as that answers nothing that the unit leaves open.
A unit that is its own source is called by its position, so only paths are `named` alike. -/
theorem places_parse (h : run.OnlyDocuments) (disk : Disk) (encoding : Encoding)
    (units : List String) (unit : String) (named : nameUnit units.length unit = nameUnit 0 unit)
    (apart : ∀ t ∈ run.tree? disk encoding (nameUnit 0 unit),
      (run.parse disk encoding units).registry.Apart (nameUnit 0 unit).1 t) :
    (run.parse disk encoding (units ++ [unit])).results.map Doclet.place =
      (run.parse disk encoding units).results.map Doclet.place ++
        (run.alone.parse disk encoding [unit]).results.map Doclet.place := by
  obtain ⟨sound, rooted, numbered⟩ := h.parse disk encoding units
  have after := registry_parse_concat h.watchers disk encoding units unit
  have alone : run.alone.watchers = .documenting := h.watchers
  have single := registry_parse_concat alone disk encoding [] unit
  rw [show run.alone.tree? disk encoding = run.tree? disk encoding from rfl] at single
  have begun : (run.alone.parse disk encoding []).registry = .empty :=
    parse_documenting alone disk encoding []
  unfold results
  rw [List.nil_append, List.length_nil, begun] at single
  dsimp only at after single
  rw [after, single, named]
  cases read : run.tree? disk encoding (nameUnit 0 unit) with
  | none => exact (List.append_nil _).symm
  | some t => exact (apart t read).places_walked sound rooted numbered

end Run

/-! ### A unit after a module -/

namespace UnitAfterModule

open ExportedClass (identifier node)
open LiteralOfVariables (declaration)

/-- `var x = w;`, in the module `a`. -/
def moduleUnit : Json.Value :=
  node "Program" [("comments", .arr [node "Block" [("value", .str "* @module a ")]]),
    ("body", .arr [declaration "x" (identifier "w")])]

/-- `function name() {}` -/
def functionUnit (name : String) : Json.Value :=
  node "Program" [("body", .arr [node "FunctionDeclaration" [("id", identifier name),
    ("params", .arr []), ("body", node "BlockStatement" [("body", .arr [])])]])]

def read (file : String) : Except TreeError Tree :=
  Estree.ofValue file <|
    if file = "a.js" then moduleUnit else functionUnit (if file = "x.js" then "x" else "y")

def tree (file : String) : Tree :=
  match read file with
  | .ok t => t
  | .error _ => ⟨"", 0, #[], none, #[]⟩

theorem tree_eq {file : String} {t : Tree} (found : (read file).toOption = some t) :
    tree file = t := by
  unfold tree
  generalize read file = result at found
  cases result with
  | error e => cases found
  | ok other => exact Option.some.inj found

/-- A run whose trees are there before it starts. -/
def run : Run (Option String) := .start ⟨"prepared", fun file _ => read file⟩ .documenting none

def disk : Disk :=
  ⟨.directory (["a.js", "x.js", "y.js"].map fun name => (name, .file name.toUTF8)), "/"⟩

def parse (units : List String) : Run (Option String) := run.parse disk .utf8 units

theorem onlyDocuments : run.OnlyDocuments := ⟨⟨_, _, _, [], rfl⟩, rfl⟩

/-- A function that is called like a variable of the module becomes a member of that. -/
theorem member_of_module : run.OnlyDocuments ∧
    ((tree "a.js").stops.head? = some (.comment 0) ∧
      (Registry.empty.walkTo "a.js" (tree "a.js") [.comment 0]).state = some "module:a") ∧
    (parse ["a.js"]).results.map (fun d => (d.longname, d.scope)) =
      [("module:a", none), ("module:a~x", some .inner)] ∧
    (run.alone.parse disk .utf8 ["x.js"]).results.map Doclet.longname = ["x"] ∧
    (parse ["a.js", "x.js"]).results.map Doclet.longname =
      ["module:a", "module:a~x", "module:a~x.x"] ∧
    (parse ["a.js", "x.js"]).results.map Doclet.place ≠
      (parse ["a.js"]).results.map Doclet.place ++
        (run.alone.parse disk .utf8 ["x.js"]).results.map Doclet.place := by
  refine ⟨onlyDocuments, ⟨?_, ?_⟩, ?_, ?_, ?_, ?_⟩ <;> decide +kernel

theorem vars_module : ((parse ["a.js"]).registry.doclet 0).origin.vars =
    [("x", some "module:a~x")] := by
  decide +kernel

theorem not_hasClass (parent : String) : ¬ (parse ["a.js"]).registry.HasClass parent := by
  rintro ⟨id, registered, isClass⟩
  have sound := (onlyDocuments.parse disk .utf8 ["a.js"]).1
  rw [Registry.idOfLongname?, History.latest?_eq_getLast?] at registered
  have bound := (sound.named parent id (List.mem_of_getLast? registered)).1
  have none : ∀ d ∈ (parse ["a.js"]).registry.doclets.toList, d.isClass = false := by
    decide +kernel
  have member : (parse ["a.js"]).registry.doclet id ∈ (parse ["a.js"]).registry.doclets.toList := by
    change id < (parse ["a.js"]).registry.doclets.size at bound
    unfold Registry.doclet
    rw [Array.getD_eq_getD_getElem?, Array.getElem?_eq_getElem bound]
    exact Array.getElem_mem_toList bound
  exact absurd isClass (by simp [none _ member])

theorem unasked (i : NodeIndex) (found : (tree "y.js").ownedByName (some i) = true) :
    Longname.basename? ((tree "y.js").name (some i)) ≠ some "x" := by
  have stored : i < (tree "y.js").nodes.size := by
    by_contra outside
    have missing : (tree "y.js").node? (some i) = none :=
      Array.getElem?_eq_none (Nat.le_of_not_lt outside)
    unfold Tree.ownedByName at found
    rw [missing] at found
    cases found
  have size : (tree "y.js").nodes.size = 4 := by decide +kernel
  have all : ∀ i : Fin 4, Longname.basename? ((tree "y.js").name (some i)) ≠ some "x" := by
    decide +kernel
  exact all ⟨i, size ▸ stored⟩

theorem apart_y : (parse ["a.js"]).registry.Apart "y.js" (tree "y.js") := by
  intro before stop after split
  refine ⟨fun base leaves => ?_, fun parent _ => not_hasClass parent⟩
  cases stop with
  | comment => exact leaves.elim
  | node i =>
    obtain ⟨event, _, r, _, _, _, asks⟩ := leaves
    have walked : (Registry.empty.walkTo "y.js" (tree "y.js") before).tree =
        (tree "y.js").inUnit 0 := Watchers.tree_passAll _ _ _
    obtain ⟨named, leads, _⟩ := asks
    rw [walked] at named leads
    rw [Tree.name_inUnit] at leads
    have other : "x" ≠ base := fun same => unasked event.node named (same ▸ leads)
    rw [vars_module, Ledger.get?, if_neg other]
    rfl

/-- A function that is called otherwise has the longname that it has on its own. -/
theorem places_function : (parse ["a.js", "y.js"]).results.map Doclet.place =
    (parse ["a.js"]).results.map Doclet.place ++
      (run.alone.parse disk .utf8 ["y.js"]).results.map Doclet.place := by
  have file : Run.nameUnit 0 "y.js" = ("y.js", none) ∧
      Run.nameUnit 1 "y.js" = ("y.js", none) := by decide +kernel
  have source : Run.sourceOf disk .utf8 "y.js" none = .ok "y.js" := by rfl
  refine Run.places_parse onlyDocuments disk .utf8 ["a.js"] "y.js" (file.2.trans file.1.symm) ?_
  rw [file.1]
  intro t found
  unfold Run.tree? at found
  rw [source] at found
  have built : (read "y.js").toOption = some t := found
  exact tree_eq built ▸ apart_y

end UnitAfterModule

end Doclets
