import Mathlib.Data.List.Induction
import Doclets.Proofs.Doclet.Borrows
import Doclets.Proofs.Pipeline.Completion
import Doclets.Proofs.Pipeline.Membership
import Doclets.Proofs.Pipeline.Reading
import Doclets.Proofs.Registry.Requests

/-!
How often a run meets a request to borrow. Every doclet that is made at a stop of a walk has its
requests met once. The one exception is a documented class: where its constructor makes a doclet, the
two are merged, the class stays a result that asks, and the merged doclet asks for the same again.
-/

namespace Doclets

/-- What a class asks for once more at a node: where that is its constructor, and a doclet is made of
it. -/
def Walk.repeated (walk : Walk (Option String)) (file : String) (i : NodeIndex) :
    List (String × Borrow) :=
  if walk.tree.isKind (some i) .methodDefinition ∧ walk.tree.isConstructor (some i) ∧
      walk.made file i ≠ [] then
    walk.registry.classAsks walk.tree (some i)
  else []

/-- A walk that has come to a stop. -/
structure Arrival where
  file : String
  walk : Walk (Option String)
  stop : Stop

namespace Arrival

/-- The comment that is read at the stop: the documentation comment it stands at, or that of the
symbol. -/
def comment (a : Arrival) : String :=
  match a.stop with
  | .comment c => (a.walk.tree.comments[c]?.map Comment.raw).getD ""
  | .node i => ((a.walk.tree.doc? (some i)).map Comment.raw).getD ""

/-- The doclets that are made at the stop. -/
def made (a : Arrival) : List Doclet :=
  match a.stop with
  | .comment c =>
    match a.walk.tree.comments[c]? with
    | some comment =>
      if comment.isDoc then
        (Documenter.ofCommentParts
          ⟨comment.raw, a.file, comment.position.line, comment.position.column, []⟩ a.walk.state
          (Comment.parts comment.raw)).1
      else []
    | none => []
  | .node i => a.walk.made a.file i

/-- What the doclets that are made at the stop ask for. -/
def written (a : Arrival) : List (String × Borrow) := a.made.flatMap Doclet.asks

/-- What a class asks for once more, where the stop is at its constructor. -/
def repeated (a : Arrival) : List (String × Borrow) :=
  match a.stop with
  | .comment _ => []
  | .node i => a.walk.repeated a.file i

end Arrival

namespace Watchers

variable {file : String} {walk : Walk (Option String)} {i : NodeIndex} {event : SymbolFound}
  {followUps : List FollowUp} {r : Registry}

/-- Doclets that are registered bring their requests in, one after the other. -/
theorem asked_register_documenting (doclets : List Doclet) {r : Registry} (h : r.Consistent)
    (s : Option String) : let stored := (documenting.register doclets r s).2.2.1
    stored.asked = r.asked ++ doclets.flatMap Doclet.asks ∧
      ∀ id < r.doclets.size, stored.doclet id = r.doclet id := by
  induction doclets generalizing r s with
  | nil => exact ⟨(List.append_nil _).symm, fun _ _ => rfl⟩
  | cons d rest ih =>
    rw [register_cons]
    have shown : Handler.relay Handler.newDoclet documenting.handlers d s = (.continue, d, s) := rfl
    rw [shown]
    dsimp only
    obtain ⟨asked, kept⟩ := ih (h.addDoclet d) s
    refine ⟨?_, fun id bound => ?_⟩
    · rw [asked, h.asked_addDoclet, List.flatMap_cons, List.append_assoc]
    · rw [kept id (by simpa using Nat.lt_succ_of_lt bound), Registry.doclet_addDoclet_of_lt bound]

theorem prepare_methodDefinition (t : Tree) (node : NodeRef) (code : Symbol) (r : Registry) :
    prepare t node .methodDefinition code r =
      (code, if t.isConstructor node then [.joinClass] else [], r) := rfl

/-- What is done for other symbols than methods merges no class, and asks for nothing. -/
theorem asksAlike_prepare (t : Tree) (node : NodeRef) {kind : NodeKind} (code : Symbol)
    (r : Registry) (other : kind ≠ .methodDefinition) :
    r.AsksAlike (prepare t node kind code r).2.2 ∧
      .joinClass ∉ (prepare t node kind code r).2.1 := by
  have declared : r.AsksAlike (declareName t node kind code r).2.2 ∧
      .joinClass ∉ (declareName t node kind code r).2.1 := by
    unfold declareName
    dsimp only
    split
    · exact ⟨.refl r, by simp⟩
    · split
      · exact ⟨r.asksAlike_declare _ _ _, by simp⟩
      · exact ⟨.refl r, by simp⟩
  unfold prepare
  split
  · exact declared
  · exact declared
  · exact ⟨.refl r, by simp⟩
  · exact absurd rfl other
  · exact ⟨.refl r, by simp⟩

theorem asksAlike_follow_all (t : Tree) (node : NodeRef) (name : String) (id : DocletId)
    {followUps : List FollowUp} (r : Registry) (none : .joinClass ∉ followUps) :
    r.AsksAlike (followUps.foldl (Registry.follow t node name id) r) := by
  induction followUps generalizing r with
  | nil => exact .refl r
  | cons first rest ih =>
    obtain ⟨other, none⟩ := List.ne_and_not_mem_of_not_mem_cons none
    refine Registry.AsksAlike.trans ?_ (ih _ none)
    cases first with
    | trackName scope =>
      unfold Registry.follow
      dsimp only
      split
      · exact r.asksAlike_declare _ _ _
      · exact .refl r
    | joinEnum => exact r.asksAlike_joinEnum t node id
    | joinClass => exact absurd rfl other

/-- The last of the doclets that are stored for a constructor is merged with its class: it asks once
more for what the class asked for before. -/
theorem exists_asked_joinClass (h : r.Sound) {doclets : List Doclet} (filled : doclets ≠ [])
    (s : Option String) (t : Tree) (constructor : NodeRef) :
    let stored := documenting.register doclets r s
    ∃ id, stored.2.1 = some id ∧ (stored.2.2.1.joinClass t constructor id).asked =
      r.asked ++ (doclets.flatMap Doclet.asks ++ r.classAsks t constructor) := by
  intro stored
  obtain ⟨asked, kept⟩ := asked_register_documenting doclets h.toConsistent s
  have retained := documenting.retains_register doclets r s
  have sound := (documenting.sound_register doclets h s).1
  obtain ⟨id, last, _⟩ := (register_documenting doclets r s).2.2.2 _
    (List.getLast?_eq_some_getLast filled)
  obtain ⟨listed, new, _⟩ := documenting.last_register doclets r s id last
  -- The class was stored before, so it is another doclet than the one that is merged with it.
  have other : stored.2.2.1.idOfNode? t (t.parent (t.parent constructor)) ≠ some id := by
    intro same
    unfold Registry.idOfNode? at same
    rw [retained.byNode] at same
    exact absurd (h.lt_of_idOfNode? same) (Nat.not_lt.mpr new)
  refine ⟨id, last, ?_⟩
  rw [sound.asked_joinClass listed t constructor other, asked,
    Registry.classAsks_congr h.toAnchored retained.byNode kept, List.append_assoc]

/-- A stop at a symbol brings in what its doclets ask for, and where a constructor is merged with its
class, what that asks for. -/
theorem asked_passNode (file : String) (i : NodeIndex) (h : walk.registry.Sound) :
    (documenting.passNode file i walk).2.registry.asked =
      walk.registry.asked ++ ((walk.made file i).flatMap Doclet.asks ++ walk.repeated file i) := by
  unfold Walk.repeated
  cases found : symbolAt? walk.tree file i walk.registry with
  | none =>
    rw [passNode_plain found, Walk.made_of_plain found]
    simp
  | some symbol =>
    obtain ⟨event, followUps, r⟩ := symbol
    have asked := (asked_register_documenting (walk.made file i)
      (sound_symbolAt? h found).toConsistent walk.state).1
    obtain ⟨n, code, inTable, _, prepared, shown⟩ := prepared_of_symbolAt? found
    have node : event.node = i := congrArg SymbolFound.node shown
    have kind : walk.tree.isKind (some i) .methodDefinition = true ↔ n.kind = .methodDefinition := by
      simp [Tree.isKind, Tree.kind?, Tree.node?, inTable]
    rw [passNode_documenting found]
    dsimp only
    rw [(Registry.asksAlike_registerNode _ _ _ _ _).asked]
    by_cases method : n.kind = .methodDefinition
    · rw [method, prepare_methodDefinition, Prod.mk.injEq, Prod.mk.injEq] at prepared
      obtain ⟨_, rfl, rfl⟩ := prepared
      by_cases joins : walk.tree.isConstructor (some i) = true ∧ walk.made file i ≠ []
      · obtain ⟨id, last, merged⟩ :=
          exists_asked_joinClass h joins.2 walk.state walk.tree (some i)
        rw [last, if_pos joins.1, if_pos ⟨kind.mpr method, joins⟩, node]
        exact merged
      · have apart : ¬ (walk.tree.isKind (some i) .methodDefinition = true ∧
            walk.tree.isConstructor (some i) = true ∧ walk.made file i ≠ []) :=
          fun all => joins all.2
        rw [if_neg apart, List.append_nil, ← asked]
        by_cases constructor : walk.tree.isConstructor (some i) = true
        · have nothing : walk.made file i = [] := by
            by_contra something
            exact joins ⟨constructor, something⟩
          rw [(register_documenting (walk.made file i) walk.registry walk.state).2.2.1 nothing]
        · rw [if_neg constructor]
          cases (documenting.register (walk.made file i) walk.registry walk.state).2.1 <;> rfl
    · obtain ⟨alike, none⟩ := asksAlike_prepare walk.tree (some i) code walk.registry method
      rw [prepared] at alike none
      rw [if_neg fun all => method (kind.mp all.1), List.append_nil, ← alike.asked, ← asked]
      cases (documenting.register (walk.made file i) r walk.state).2.1 with
      | none => rfl
      | some id => exact (asksAlike_follow_all _ _ _ _ _ none).asked

/-- So does a stop at a documentation comment. -/
theorem asked_passComment (file : String) (c : Nat) (h : walk.registry.Sound) :
    (documenting.passComment file c walk).2.registry.asked =
      walk.registry.asked ++ (⟨file, walk, .comment c⟩ : Arrival).made.flatMap Doclet.asks := by
  unfold passComment Arrival.made
  dsimp only
  cases walk.tree.comments[c]? with
  | none => exact (List.append_nil _).symm
  | some comment =>
    dsimp only
    split
    · let event : CommentFound :=
        ⟨comment.raw, file, comment.position.line, comment.position.column, []⟩
      let parts := Documenter.ofCommentParts event walk.state (Comment.parts comment.raw)
      have shown : Handler.relay (fun h => h.commentFound ⟨walk.registry, walk.tree⟩)
          documenting.handlers event walk.state =
            (.continue, { event with doclets := parts.1 }, parts.2) := rfl
      rw [shown]
      exact (asked_register_documenting parts.1 h.toConsistent parts.2).1
    · exact (List.append_nil _).symm

/-- What is asked for after a stop. -/
theorem asked_pass (file : String) (stop : Stop) (h : walk.registry.Sound) :
    (documenting.pass file walk stop).2.registry.asked = walk.registry.asked ++
      ((⟨file, walk, stop⟩ : Arrival).written ++ (⟨file, walk, stop⟩ : Arrival).repeated) := by
  cases stop with
  | comment c =>
    exact (asked_passComment file c h).trans (congrArg _ (List.append_nil _).symm)
  | node i => exact asked_passNode file i h

end Watchers

/-- The stops of a walk, each with what there is when the walk comes to it. -/
def Walk.arrivals (file : String) : List Stop → Walk (Option String) → List Arrival
  | [], _ => []
  | stop :: rest, walk =>
    ⟨file, walk, stop⟩ :: Walk.arrivals file rest (Watchers.documenting.pass file walk stop).2

theorem Watchers.asked_passAll (file : String) (stops : List Stop) {walk : Walk (Option String)}
    (h : walk.registry.Sound) : (documenting.passAll file stops walk).2.registry.asked =
      walk.registry.asked ++ (walk.arrivals file stops).flatMap fun a => a.written ++ a.repeated := by
  induction stops generalizing walk with
  | nil => exact (List.append_nil _).symm
  | cons stop rest ih =>
    rw [passAll_cons, ih (documenting.sound_pass file stop h), asked_pass file stop h,
      Walk.arrivals, List.flatMap_cons, List.append_assoc]

/-- Each doclet that is made at a stop asks for what the tags of one part of its comment say, or for
nothing, if it stands for a symbol and the part makes a doclet of its own. -/
theorem Arrival.asks_of_made (a : Arrival) {d : Doclet} (made : d ∈ a.made) :
    ∃ part ∈ Comment.parts a.comment, d.asks = (Comment.borrows part).map (d.longname, ·) ∨
      d.asks = [] ∧ ∃ origin, (Doclet.ofComment part origin).name.isSome := by
  obtain ⟨file, walk, stop⟩ := a
  cases stop with
  | comment c =>
    unfold Arrival.made at made
    unfold Arrival.comment
    dsimp only at made ⊢
    cases stored : walk.tree.comments[c]? with
    | none =>
      rw [stored] at made
      cases made
    | some comment =>
      rw [stored] at made
      dsimp only at made
      split at made
      · obtain ⟨part, listed, module, same⟩ := Documenter.exists_ofCommentPart made
        exact ⟨part, listed, Or.inl (by rw [Doclet.asks, Documenter.requests_ofCommentPart same])⟩
      · cases made
  | node i =>
    change d ∈ walk.made file i at made
    unfold Arrival.comment
    cases found : Watchers.symbolAt? walk.tree file i walk.registry with
    | none =>
      rw [Walk.made_of_plain found] at made
      cases made
    | some symbolFound =>
      obtain ⟨event, followUps, r⟩ := symbolFound
      obtain ⟨_, _, _, _, _, shown⟩ := Watchers.prepared_of_symbolAt? found
      rw [Walk.made_of_symbol found] at made
      obtain ⟨part, listed, same⟩ := List.mem_filterMap.mp made
      rw [congrArg SymbolFound.comment shown] at listed
      refine ⟨part, listed, ?_⟩
      rcases Documenter.requests_ofSymbolPart same with asks | ⟨nothing, named⟩
      · exact Or.inl (by rw [Doclet.asks, asks])
      · exact Or.inr ⟨by rw [Doclet.asks, nothing]; rfl, named⟩

/-! ### Units and runs -/

/-- The stops of the walk of the next unit. -/
def Registry.arrivals (r : Registry) (file : String) (t : Tree) : List Arrival :=
  (⟨t.inUnit r.units, r.nextUnit.2, none⟩ : Walk (Option String)).arrivals file t.stops

theorem Registry.Sound.asked_walked {r : Registry} (h : r.Sound) (file : String) (t : Tree) :
    (r.walked file t).asked =
      r.asked ++ (r.arrivals file t).flatMap fun a => a.written ++ a.repeated :=
  Watchers.asked_passAll file t.stops h.nextUnit

namespace Run

variable {run : Run (Option String)} {disk : Disk} {encoding : Encoding} {units : List String}

/-- The stops of the walks of units, which are read one after the other. -/
def arrivals (run : Run (Option String)) (disk : Disk) (encoding : Encoding)
    (units : List String) : List Arrival :=
  units.zipIdx.flatMap fun (unit, position) =>
    match run.tree? disk encoding (nameUnit position unit) with
    | some t => (run.parse disk encoding (units.take position)).registry.arrivals
        (nameUnit position unit).1 t
    | none => []

theorem arrivals_concat (run : Run (Option String)) (disk : Disk) (encoding : Encoding)
    (units : List String) (unit : String) : run.arrivals disk encoding (units ++ [unit]) =
      run.arrivals disk encoding units ++
        match run.tree? disk encoding (nameUnit units.length unit) with
        | some t => (run.parse disk encoding units).registry.arrivals
            (nameUnit units.length unit).1 t
        | none => [] := by
  unfold arrivals
  rw [List.zipIdx_append, List.flatMap_append]
  congr 1
  · apply List.flatMap_congr
    rintro ⟨other, position⟩ listed
    have before := (List.mem_zipIdx listed).2.1
    rw [Nat.zero_add] at before
    dsimp only
    rw [List.take_append_of_le_length (Nat.le_of_lt before)]
  · simp

/-- What is asked for after units were read. -/
theorem OnlyDocuments.asked_parse (h : run.OnlyDocuments) (disk : Disk) (encoding : Encoding)
    (units : List String) : (run.parse disk encoding units).registry.asked = run.registry.asked ++
      (run.arrivals disk encoding units).flatMap fun a => a.written ++ a.repeated := by
  induction units using List.reverseRecOn with
  | nil =>
    rw [parse_documenting h.watchers]
    exact (List.append_nil _).symm
  | append_singleton units unit ih =>
    have sound := (h.parse disk encoding units).1
    rw [registry_parse_concat h.watchers, arrivals_concat, List.flatMap_append]
    cases run.tree? disk encoding (nameUnit units.length unit) with
    | none => rw [List.flatMap_nil, List.append_nil, ih]
    | some t => rw [sound.asked_walked, ih, List.append_assoc]

/-- The doclet of a package asks for nothing. -/
theorem asked_addPackage (watchers : run.watchers = .documenting) (h : run.registry.Consistent) :
    run.addPackage.registry.asked = run.registry.asked := by
  rw [addPackage_eq]
  dsimp only
  rw [watchers, (Watchers.asked_register_documenting run.packageDoclets h run.state).1]
  unfold packageDoclets
  cases run.manifest with
  | none => exact List.append_nil _
  | some manifest => exact List.append_nil _

theorem registry_process (watchers : run.watchers = .documenting) (disk : Disk)
    (encoding : Encoding) (units : List String) : (run.process disk encoding units).registry =
      (run.parse disk encoding units).addPackage.resolveAugments.registry.resolveBorrows := by
  obtain ⟨next, passed, _, same, _⟩ := passUnits_append watchers disk encoding 0 units []
  have goes_on : (run.passAll disk encoding units).1 ≠ .abort := by
    unfold passAll
    rw [relay_documenting watchers rfl]
    dsimp only
    rw [passed]
    dsimp only
    rw [announce_silent (by rw [same, watchers]; rfl) rfl]
    nofun
  rw [process_of_ne_abort goes_on]
  rfl

theorem length_flatMap_asked (arrivals : List Arrival) :
    (arrivals.flatMap fun a => a.written ++ a.repeated).length =
      (arrivals.flatMap Arrival.written).length + (arrivals.flatMap Arrival.repeated).length := by
  induction arrivals with
  | nil => rfl
  | cons a rest ih =>
    simp only [List.flatMap_cons, List.length_append, ih]
    omega

theorem flatMap_asked_eq_written_iff (arrivals : List Arrival) :
    (arrivals.flatMap fun a => a.written ++ a.repeated) = arrivals.flatMap Arrival.written ↔
      ∀ a ∈ arrivals, a.repeated = [] := by
  constructor
  · intro same
    have lengths := congrArg List.length same
    rw [length_flatMap_asked, Nat.add_eq_left] at lengths
    exact List.flatMap_eq_nil_iff.mp (List.length_eq_zero_iff.mp lengths)
  · intro none
    exact List.flatMap_congr fun a listed => by rw [none a listed, List.append_nil]

/-- All that is asked for in a whole run is met: the requests that the doclets bring in which are made
at the stops of its walks, and those that classes bring in once more that are merged with their
constructors. So the requests that were written are met once each exactly if no such class asks for
anything. -/
theorem borrowed_process (h : run.OnlyDocuments) (disk : Disk) (encoding : Encoding)
    (units : List String) :
    let completed := (run.parse disk encoding units).addPackage.resolveAugments.registry
    let arrivals := run.arrivals disk encoding units
    (∃ copies, completed.Borrowed (run.process disk encoding units).registry copies) ∧
      completed.asked = run.registry.asked ++ arrivals.flatMap (fun a => a.written ++ a.repeated) ∧
      (completed.asked = run.registry.asked ++ arrivals.flatMap Arrival.written ↔
        ∀ a ∈ arrivals, a.repeated = []) ∧
      ∀ a ∈ arrivals, ∀ d ∈ a.made, ∃ part ∈ Comment.parts a.comment,
        d.asks = (Comment.borrows part).map (d.longname, ·) ∨
          d.asks = [] ∧ ∃ origin, (Doclet.ofComment part origin).name.isSome := by
  intro completed arrivals
  have parsed := (h.parse disk encoding units).1
  have watchers : (run.parse disk encoding units).watchers = .documenting :=
    (arranged_parse run disk encoding units).watchers.trans h.watchers
  have packaged : (run.parse disk encoding units).addPackage.registry.Sound :=
    lasting_sound.addPackage parsed
  have asked : completed.asked =
      run.registry.asked ++ arrivals.flatMap fun a => a.written ++ a.repeated := by
    rw [show completed.asked = _ from packaged.asked_resolveAugments,
      asked_addPackage watchers parsed.toConsistent, h.asked_parse]
  refine ⟨?_, asked, ?_, fun a _ _ made => a.asks_of_made made⟩
  · have consistent : completed.Consistent := packaged.resolveAugments.toConsistent
    obtain ⟨copies, lent, lends⟩ := consistent.lends_resolveBorrows
    exact ⟨copies, registry_process h.watchers disk encoding units ▸
      consistent.borrowed_of_lends lent lends⟩
  · rw [asked, List.append_cancel_left_eq, flatMap_asked_eq_written_iff]

end Run

/-! ### A class that borrows and has a constructor -/

namespace BorrowingClass

open ExportedClass (identifier method node)

/-- The comment in front of a node. -/
def documented (comment : String) : String × Json.Value :=
  ("leadingComments", .arr [node "Block" [("value", .str comment)]])

/-- `function src() {}` and `class A { constructor() {} }`, which borrows it. -/
def unit : Json.Value :=
  node "Program" [("body", .arr [
    node "FunctionDeclaration" [documented "* Does it. ", ("id", identifier "src"),
      ("params", .arr [])],
    node "ClassDeclaration" [documented "* A.\n * @borrows src as b\n ", ("id", identifier "A"),
      ("body", node "ClassBody" [("body", .arr [method "constructor" "constructor" []])])]])]

/-- A run whose tree is there before it starts. -/
def run : Run (Option String) :=
  .start ⟨"prepared", fun file _ => Estree.ofValue file unit⟩ .documenting none

def disk : Disk := ⟨.directory [("a.js", .file "a".toUTF8)], "/"⟩

theorem onlyDocuments : run.OnlyDocuments := ⟨⟨_, _, _, [], rfl⟩, rfl⟩

theorem borrowed_process_class : run.OnlyDocuments ∧
    ∃ copies, (run.parse disk .utf8 ["a.js"]).addPackage.resolveAugments.registry.Borrowed
      (run.process disk .utf8 ["a.js"]).registry copies :=
  ⟨onlyDocuments, (Run.borrowed_process onlyDocuments disk .utf8 ["a.js"]).1⟩

/-- The class asks once for the one function there is, and gets two documented copies. -/
theorem class_borrows_twice : run.OnlyDocuments ∧
    (run.arrivals disk .utf8 ["a.js"]).flatMap Arrival.written = [("A", ⟨"src", some "b"⟩)] ∧
    (run.process disk .utf8 ["a.js"]).results.map (fun d => (d.longname, d.undocumented)) =
      [("src", false), ("A", true), ("A", true), ("A", false), ("A.b", false), ("A.b", false)] := by
  refine ⟨onlyDocuments, ?_, ?_⟩ <;> decide +kernel

end BorrowingClass

end Doclets
