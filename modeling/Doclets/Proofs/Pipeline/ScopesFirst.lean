import Doclets.Proofs.Pipeline.InnerMembers
import Doclets.Proofs.Pipeline.Visits

/-!
Outer functions come first. A walk passes a function before what is in it, and leaves at least one
doclet registered for it there, if only a stand-in; handlers may make, change and drop doclets as
they like, as long as they leave a symbol the node that it stands for. Nothing is registered for a
node before the walk of its own unit.
-/

namespace Doclets

variable {σ : Type}

/-! ### What is registered for a node -/

namespace Registry

variable {r s : Registry} {t : Tree} {node : NodeRef} {ids : List DocletId} {id : DocletId}

/-- The doclets that were registered for a node, oldest first. -/
def registered (r : Registry) (t : Tree) (node : NodeRef) : List DocletId :=
  r.byNode.all (.node (t.nodeId node))

/-- Results that are stored, the first of which may be a stand-in without a name instead. -/
structure Standing (r : Registry) (ids : List DocletId) : Prop where
  stored : ∀ id ∈ ids, id < r.doclets.size
  first : ∀ id ∈ ids.head?, id ∈ r.results ∨ (r.doclet id).longname = Longname.anonymous
  later : ∀ id ∈ ids.tail, id ∈ r.results

theorem Standing.mono (h : r.Standing ids) (kept : r.Remembers s) : s.Standing ids where
  stored id listed := Nat.lt_of_lt_of_le (h.stored id listed) kept.size_le
  first id listed := by
    have bound := h.stored id (List.mem_of_mem_head? listed)
    refine (h.first id listed).imp (kept.results id) fun anonymous => ?_
    rw [(kept.doclet id bound).longname, anonymous]
  later id listed := kept.results id (h.later id listed)

theorem Standing.concat (h : r.Standing ids) (result : id ∈ r.results)
    (bound : id < r.doclets.size) : r.Standing (ids ++ [id]) where
  stored other listed := by
    rcases List.mem_append.mp listed with before | here
    · exact h.stored other before
    · exact List.mem_singleton.mp here ▸ bound
  first other listed := by
    cases ids with
    | nil => exact Or.inl (Option.some.inj listed ▸ result)
    | cons first rest => exact h.first other listed
  later other listed := by
    cases ids with
    | nil => cases listed
    | cons first rest =>
      rcases List.mem_append.mp listed with before | here
      · exact h.later other before
      · exact List.mem_singleton.mp here ▸ result

/-- A node gets the doclet that is registered for it, and a function that has none and gets none a
stand-in. -/
theorem registered_registerNode (r : Registry) (t : Tree) (node : NodeRef)
    (last : Option DocletId) (code : Symbol) : let s := r.registerNode t node last code
    (∃ id, last = some id ∧ s.registered t node = r.registered t node ++ [id]) ∨
    (s = r ∧ ((t.kind? node).any NodeKind.isFunction = true →
      r.byNode.contains (.node (t.nodeId node)) = true)) ∨
    (r.registered t node = [] ∧ s.registered t node = [r.doclets.size] ∧
      r.doclets.size < s.doclets.size ∧
      (s.doclet r.doclets.size).longname = Longname.anonymous) := by
  unfold registerNode
  dsimp only
  cases last with
  | some id => exact Or.inl ⟨id, rfl, History.all_put_self _ _ _⟩
  | none =>
    dsimp only
    split
    next known =>
      refine Or.inr (Or.inl ⟨rfl, fun function => ?_⟩)
      simpa [function] using known
    next fresh =>
      have unknown : r.registered t node = [] := by
        by_contra some
        exact fresh (by simp [r.contains_of_all_ne_nil some])
      refine Or.inr (Or.inr ⟨unknown, ?_, ?_, ?_⟩)
      · exact (History.all_put_self _ _ _).trans (congrArg (· ++ [r.doclets.size]) unknown)
      · exact Nat.lt_of_lt_of_eq (Nat.lt_succ_self _) (r.doclets_size_insert _).symm
      · exact congrArg Doclet.longname ((r.doclet_insert _ _).trans (if_pos rfl))

theorem registered_registerNode_of_ne {other : NodeRef} (apart : node ≠ other)
    (last : Option DocletId) (code : Symbol) :
    (r.registerNode t node last code).registered t other = r.registered t other :=
  r.all_registerNode_of_ne t node last code fun same =>
    apart (congrArg NodeId.index (ScopeKey.node.inj same))

/-- What is registered for a node is there already, or is the doclet that it gets, or a new one. -/
theorem mem_registered_registerNode {other : NodeRef} {last : Option DocletId} {code : Symbol}
    (listed : id ∈ (r.registerNode t node last code).registered t other) :
    id ∈ r.registered t other ∨ node = other ∧ (last = some id ∨ id = r.doclets.size) := by
  by_cases here : node = other
  · subst here
    rcases r.registered_registerNode t node last code with
      ⟨new, told, added⟩ | ⟨same, _⟩ | ⟨_, standIn, _, _⟩
    · rw [added] at listed
      refine (List.mem_append.mp listed).imp_right fun last => ⟨rfl, Or.inl ?_⟩
      rw [told, List.mem_singleton.mp last]
    · exact Or.inl (same ▸ listed)
    · rw [standIn] at listed
      exact Or.inr ⟨rfl, Or.inr (List.mem_singleton.mp listed)⟩
  · rw [registered_registerNode_of_ne here] at listed
    exact Or.inl listed

theorem Standing.registerNode {other : NodeRef} (h : r.Standing (r.registered t other))
    {last : Option DocletId} (told : ∀ id ∈ last, id ∈ r.results ∧ id < r.doclets.size)
    (code : Symbol) : let s := r.registerNode t node last code
    s.Standing (s.registered t other) := by
  have kept := (r.remembers_registerNode t node last code).1
  dsimp only
  by_cases here : node = other
  · subst here
    rcases r.registered_registerNode t node last code with
      ⟨new, same, added⟩ | ⟨same, _⟩ | ⟨_, standIn, bound, anonymous⟩
    · obtain ⟨result, inside⟩ := told new same
      rw [added]
      exact (h.concat result inside).mono kept
    · rw [same]
      exact h
    · rw [standIn]
      refine ⟨fun id listed => ?_, fun id listed => Or.inr ?_, nofun⟩
      · exact List.mem_singleton.mp listed ▸ bound
      · exact Option.some.inj listed ▸ anonymous
  · rw [registered_registerNode_of_ne here]
    exact h.mono kept

/-- A node keeps what is registered for it, and a function gets something. -/
theorem Rooted.registered_ne_nil (h : r.Rooted) {other : NodeRef} (last : Option DocletId)
    (code : Symbol) (some : r.registered t other ≠ [] ∨
      node = other ∧ (t.kind? node).any NodeKind.isFunction = true) :
    (r.registerNode t node last code).registered t other ≠ [] := by
  by_cases here : node = other
  · subst here
    rcases r.registered_registerNode t node last code with
      ⟨new, _, added⟩ | ⟨same, known⟩ | ⟨_, standIn, _⟩
    · simp [added]
    · rw [same]
      exact some.elim id fun function => h.filled _ (known function.2)
    · simp [standIn]
  · rw [registered_registerNode_of_ne here]
    exact some.resolve_right fun function => here function.1

end Registry

/-! ### One stop -/

/-- A handler that leaves a symbol the node that its doclets are registered for. -/
def Handler.KeepsNode (h : Handler σ) : Prop :=
  ∀ ctx event s, (h.symbolFound ctx event s).2.1.code.node = event.code.node

theorem Handler.relay_keepsNode {handlers : List (Handler σ)}
    (keeps : ∀ h ∈ handlers, h.KeepsNode) (ctx : Context) (event : SymbolFound) (s : σ) :
    (relay (fun h => h.symbolFound ctx) handlers event s).2.1.code.node = event.code.node := by
  induction handlers generalizing event s with
  | nil => rfl
  | cons h rest ih =>
    have first := keeps h List.mem_cons_self ctx event s
    exact (ih (fun other later => keeps other (List.mem_cons_of_mem _ later)) _ _).trans first

namespace Watchers

variable {w : Watchers σ} {walk : Walk σ} {file : String} {i : NodeIndex} {r : Registry}
  {event : SymbolFound} {followUps : List FollowUp}

/-- Where no visitor interferes, a stop at a symbol registers for the node that it stands for, and
nothing or a new result. -/
theorem passNode_keepsNode (visitors : w.visitors = []) (keeps : ∀ h ∈ w.handlers, h.KeepsNode)
    (found : symbolAt? walk.tree file i walk.registry = some (event, followUps, r)) :
    ∃ s last code, walk.registry.Retains s ∧
      (∀ id ∈ last, walk.registry.doclets.size ≤ id ∧ id ∈ s.results ∧ id < s.doclets.size) ∧
      (w.passNode file i walk).2.registry = s.registerNode walk.tree event.code.node last code := by
  have unseen : w.visitSymbol walk.tree file event walk.state = (event, walk.state) := by
    unfold visitSymbol
    rw [visitors]
    rfl
  have same := Handler.relay_keepsNode keeps ⟨r, walk.tree⟩ event walk.state
  unfold passNode
  dsimp only
  rw [found]
  dsimp only
  rw [unseen]
  dsimp only
  generalize Handler.relay (fun h => h.symbolFound ⟨r, walk.tree⟩) w.handlers event walk.state =
    shown at same
  have prepared := retains_symbolAt? found
  have stored := w.retains_register shown.2.1.doclets r shown.2.2
  have told := w.last_register shown.2.1.doclets r shown.2.2
  generalize w.register shown.2.1.doclets r shown.2.2 = done at stored told
  obtain ⟨flow, last, s, left⟩ := done
  dsimp only at stored told ⊢
  rw [same]
  cases last with
  | none => exact ⟨s, none, _, prepared.trans stored, nofun, rfl⟩
  | some id =>
    obtain ⟨result, new, bound⟩ := told id rfl
    have kept := retains_follow_all walk.tree (some shown.2.1.node) shown.2.1.code.name id
      followUps s
    refine ⟨_, some id, _, (prepared.trans stored).trans kept, ?_, rfl⟩
    rintro _ ⟨⟩
    exact ⟨Nat.le_trans prepared.size_le new, kept.results id result,
      Nat.lt_of_lt_of_le bound kept.size_le⟩

end Watchers

/-! ### A whole walk -/

/-- One of these stops is at a symbol that stands for the node. -/
def Tree.StoodFor (t : Tree) (stops : List Stop) (node : NodeRef) : Prop :=
  ∃ j code, .node j ∈ stops ∧ Symbol.ofNode? t (some j) = some code ∧ code.node = node

/-- A walk through `t` that began when there were `size` doclets, and where it has come to: whatever
is registered for a node was made since, at one of the stops that were passed, and a function that
one of these stood for has some. -/
structure Walk.Fills (walk : Walk σ) (t : Tree) (size : Nat) (passed : List Stop) : Prop where
  tree : walk.tree = { t with comments := walk.tree.comments }
  rooted : walk.registry.Rooted
  size_le : size ≤ walk.registry.doclets.size
  standing : ∀ node, walk.registry.Standing (walk.registry.registered t node)
  put : ∀ node, ∀ id ∈ walk.registry.registered t node, size ≤ id ∧ t.StoodFor passed node
  functions : ∀ node, t.StoodFor passed node → (t.kind? node).any NodeKind.isFunction = true →
    walk.registry.registered t node ≠ []

namespace Walk.Fills

variable {w : Watchers σ} {walk next : Walk σ} {t : Tree} {size : Nat} {passed : List Stop}
  {file : String} {stop : Stop}

/-- Before the first stop nothing is registered for any node. -/
theorem start {t : Tree} {r : Registry} (rooted : r.Rooted)
    (fresh : ∀ node, r.registered t node = []) (s : σ) :
    Walk.Fills ⟨t, r, s⟩ t r.doclets.size [] where
  tree := rfl
  rooted := rooted
  size_le := Nat.le_refl _
  standing node := by
    rw [fresh]
    exact ⟨nofun, nofun, nofun⟩
  put node id listed := by
    rw [fresh] at listed
    cases listed
  functions := by
    rintro node ⟨_, _, listed, _⟩
    cases listed

theorem stoodFor_concat {node : NodeRef} (stood : t.StoodFor passed node) (stop : Stop) :
    t.StoodFor (passed ++ [stop]) node := by
  obtain ⟨j, code, listed, rest⟩ := stood
  exact ⟨j, code, List.mem_append_left _ listed, rest⟩

/-- A stop that stands for no node and registers nothing. -/
theorem idle (h : walk.Fills t size passed) (kept : walk.registry.Retains next.registry)
    (tree : next.tree = { t with comments := next.tree.comments })
    (plain : ∀ j, stop = .node j → Symbol.ofNode? t (some j) = none) :
    next.Fills t size (passed ++ [stop]) := by
  have same (node : NodeRef) : next.registry.registered t node =
      walk.registry.registered t node := by
    unfold Registry.registered
    rw [kept.byNode]
  refine ⟨tree, h.rooted.retains kept, Nat.le_trans h.size_le kept.size_le, ?_, ?_, ?_⟩
  · intro node
    rw [same]
    exact (h.standing node).mono kept.toRemembers
  · intro node id listed
    rw [same] at listed
    exact (h.put node id listed).imp_right fun stood => stoodFor_concat stood stop
  · rintro node ⟨j, code, listed, symbol, here⟩ function
    rw [same]
    rcases List.mem_append.mp listed with before | last
    · exact h.functions node ⟨j, code, before, symbol, here⟩ function
    · rw [plain j (List.mem_singleton.mp last).symm] at symbol
      cases symbol

/-- What a stop at a symbol registers, it registers for the node that the symbol stands for. -/
theorem stands (h : walk.Fills t size passed) {i : NodeIndex} {code : Symbol} {r : Registry}
    {last : Option DocletId} {noted : Symbol} (symbol : Symbol.ofNode? t (some i) = some code)
    (kept : walk.registry.Retains r)
    (told : ∀ id ∈ last, size ≤ id ∧ id ∈ r.results ∧ id < r.doclets.size)
    (tree : next.tree = { t with comments := next.tree.comments })
    (done : next.registry = r.registerNode t code.node last noted) :
    next.Fills t size (passed ++ [.node i]) := by
  have same (node : NodeRef) : r.registered t node = walk.registry.registered t node := by
    unfold Registry.registered
    rw [kept.byNode]
  have stood : t.StoodFor (passed ++ [.node i]) code.node :=
    ⟨i, code, List.mem_append_right _ (List.mem_singleton.mpr rfl), symbol, rfl⟩
  have rooted := h.rooted.retains kept
  have size_le := Nat.le_trans h.size_le kept.size_le
  have more := (r.remembers_registerNode t code.node last noted).1.size_le
  refine ⟨tree, ?_, ?_, ?_, ?_, ?_⟩
  · rw [done]
    exact rooted.registerNode t code.node last noted
  · rw [done]
    exact Nat.le_trans size_le more
  · intro node
    have before : r.Standing (r.registered t node) := by
      rw [same]
      exact (h.standing node).mono kept.toRemembers
    rw [done]
    exact before.registerNode (fun id listed => (told id listed).2) noted
  · intro node id listed
    rw [done] at listed
    rcases Registry.mem_registered_registerNode listed with before | ⟨rfl, new⟩
    · rw [same] at before
      exact (h.put node id before).imp_right fun stood => stoodFor_concat stood _
    · refine ⟨?_, stood⟩
      rcases new with new | rfl
      · exact (told id new).1
      · exact size_le
  · rintro node ⟨j, other, listed, symbol', rfl⟩ function
    rw [done]
    apply rooted.registered_ne_nil
    rcases List.mem_append.mp listed with before | here
    · refine Or.inl ?_
      rw [same]
      exact h.functions _ ⟨j, other, before, symbol', rfl⟩ function
    · obtain rfl : j = i := Stop.node.inj (List.mem_singleton.mp here)
      obtain rfl := Option.some.inj (symbol.symm.trans symbol')
      exact Or.inr ⟨rfl, function⟩

theorem ofNode?_eq (h : walk.Fills t size passed) (node : NodeRef) :
    Symbol.ofNode? walk.tree node = Symbol.ofNode? t node := by
  have nodes : walk.tree.nodes = t.nodes := by rw [h.tree]
  exact Tree.ofNode?_of_nodes nodes node

/-- One stop. -/
theorem pass (h : walk.Fills t size passed) (visitors : w.visitors = [])
    (keeps : ∀ h ∈ w.handlers, h.KeepsNode) (file : String) (stop : Stop) :
    (w.pass file walk stop).2.Fills t size (passed ++ [stop]) := by
  have tree : (w.pass file walk stop).2.tree =
      { t with comments := (w.pass file walk stop).2.tree.comments } := by
    rw [(w.tree_pass file walk stop).1, h.tree]
  cases stop with
  | comment c =>
    obtain ⟨_, kept⟩ := w.passComment_retains file c walk
    exact h.idle kept tree nofun
  | node i =>
    cases symbol : Symbol.ofNode? t (some i) with
    | none =>
      have silent := Watchers.symbolAt?_of_plain ((h.ofNode?_eq (some i)).trans symbol) file
        walk.registry
      have kept : walk.registry.Retains (w.pass file walk (.node i)).2.registry := by
        unfold Watchers.pass Watchers.passNode
        dsimp only
        rw [silent]
        exact .refl _
      exact h.idle kept tree fun j same => Stop.node.inj same ▸ symbol
    | some code =>
      have shown := (h.ofNode?_eq (some i)).trans symbol
      obtain ⟨event, followUps, r, found, _⟩ :=
        Watchers.exists_symbolAt? shown file walk.registry
      have node := (Watchers.code_symbolAt? shown found).2
      obtain ⟨s, last, noted, kept, told, done⟩ :=
        Watchers.passNode_keepsNode visitors keeps found
      rw [node, h.tree] at done
      exact h.stands symbol kept
        (fun id listed => (told id listed).imp_left (Nat.le_trans h.size_le)) tree done

/-- All stops that are passed. -/
theorem passAll (h : walk.Fills t size passed) (visitors : w.visitors = [])
    (keeps : ∀ h ∈ w.handlers, h.KeepsNode) {stops : List Stop}
    (reached : w.passAll file stops walk = (.continue, next)) :
    next.Fills t size (passed ++ stops) := by
  induction stops generalizing walk passed with
  | nil =>
    obtain rfl : walk = next := congrArg Prod.snd reached
    rw [List.append_nil]
    exact h
  | cons stop rest ih =>
    have first := h.pass visitors keeps file stop
    rw [Watchers.passAll] at reached
    split at reached
    next walk' passed' =>
      rw [passed'] at first
      rw [List.append_cons]
      exact ih first reached
    next flow _ stopped _ => exact absurd (congrArg Prod.fst reached) stopped

end Walk.Fills

namespace Run

/-- The walk of a tree as the next unit passes these stops and shows the handlers the symbol at a
node, and the registry `r`. -/
structure ShowsSymbol (run : Run σ) (file : String) (t : Tree) (passed : List Stop)
    (i : NodeIndex) (r : Registry) : Prop where
  order : ∃ rest, t.stops = passed ++ .node i :: rest
  reached : ∃ walk event followUps, run.watchers.passAll file passed
      ⟨t.inUnit run.registry.units, run.registry.nextUnit.2, run.state⟩ = (.continue, walk) ∧
    Watchers.symbolAt? walk.tree file i walk.registry = some (event, followUps, r)

variable {run : Run σ} {name file : String} {v : Json.Value} {t : Tree} {passed : List Stop}
  {i : NodeIndex} {r : Registry}

/-- Whenever a symbol is shown, every function around it has at least one doclet, and none but
results and one stand-in. Nothing was registered for the nodes of the unit before its walk, so
whatever is registered for one of them was made since, at a stop that the walk has passed. -/
theorem scopes_first (asked : ∃ provider watchers state operations, run.registry =
      ((operations : List (Operation σ)).foldl perform (start provider watchers state)).registry)
    (visitors : run.watchers.visitors = []) (keeps : ∀ h ∈ run.watchers.handlers, h.KeepsNode)
    (read : Estree.ofValue name v = .ok t) (shown : run.ShowsSymbol file t passed i r) :
    let t := t.inUnit run.registry.units
    (∀ s, t.Encloses s (some i) → (t.kind? (some s)).any NodeKind.isFunction = true →
      r.registered t (some s) ≠ [] ∧ r.Standing (r.registered t (some s))) ∧
    (∀ node, run.registry.registered t node = []) ∧
    ∀ node, ∀ id ∈ r.registered t node,
      run.registry.doclets.size ≤ id ∧ t.StoodFor passed node := by
  intro u
  obtain ⟨provider, watchers, state, operations, asked⟩ := asked
  have numbered : run.registry.Numbered := asked ▸ (lasting_numbered.operations
    ⟨Registry.sound_empty, Registry.numbered_empty⟩ operations).2
  have rooted : run.registry.Rooted := asked ▸ (lasting_rooted.operations
    ⟨Registry.sound_empty, Registry.rooted_empty⟩ operations).2
  have fresh (node : NodeRef) : run.registry.registered u node = [] :=
    numbered u.unit (Nat.le_refl _) node
  obtain ⟨walk, event, followUps, reached, found⟩ := shown.reached
  have begun : Walk.Fills ⟨u, run.registry.nextUnit.2, run.state⟩ u run.registry.doclets.size [] :=
    .start rooted.nextUnit fresh run.state
  have fills := begun.passAll visitors keeps reached
  rw [List.nil_append] at fills
  have kept := Watchers.retains_symbolAt? found
  have same (node : NodeRef) : r.registered u node = walk.registry.registered u node := by
    unfold Registry.registered
    rw [kept.byNode]
  refine ⟨fun s encloses function => ?_, fresh, fun node id listed => ?_⟩
  · have grown := Estree.grown_ofValue read
    have around : t.Around s i := (Tree.encloses_some.mp encloses).1
    obtain ⟨rest, split⟩ := shown.order
    have first := grown.passed_of_around around split
    obtain ⟨kind, known, isFunction⟩ := (Option.any_eq_true _ _).mp function
    have symbol := (t.ofNode?_inUnit run.registry.units (some s)).trans
      (grown.symbol_of_scope known (NodeKind.opensScope_of_isFunction isFunction))
    rw [same]
    exact ⟨fills.functions _ ⟨s, _, first, symbol, rfl⟩ function,
      (fills.standing _).mono kept.toRemembers⟩
  · rw [same] at listed
    exact fills.put node id listed

end Run

/-! ### A function whose doclets are dropped -/

namespace DroppedFunction

open NestedFunctions (tree)

/-- Leaves `g` without a doclet. -/
def dropping : Handler (Option String) where
  symbolFound _ event s :=
    (.continue, if event.code.name = "g" then { event with doclets := [] } else event, s)

def run : Run (Option String) := .start .estree ⟨[Documenter.handler .whole, dropping], []⟩ none

theorem keepsNode : ∀ h ∈ run.watchers.handlers, h.KeepsNode := by
  intro h listed ctx event s
  have either : h = Documenter.handler .whole ∨ h = dropping := by
    simpa [run, Run.start] using listed
  rcases either with rfl | rfl
  · rfl
  · unfold dropping
    dsimp only
    split <;> rfl

/-- The walk of the unit when it comes to `h`. -/
def walk : Walk (Option String) :=
  (run.watchers.passAll "nested.js" (tree.stopsBefore 4)
    ⟨tree, run.registry.nextUnit.2, run.state⟩).2

/-- Where `h` is shown, the function `g` around it has a stand-in. -/
theorem scopes_first_dropped : ∃ r, run.ShowsSymbol "nested.js" tree (tree.stopsBefore 4) 4 r ∧
    (r.ofNode? tree (some 6)).map Doclet.longname = some Longname.anonymous ∧
    r.registered tree (some 6) ≠ [] ∧ r.Standing (r.registered tree (some 6)) := by
  have known : (Watchers.symbolAt? walk.tree "nested.js" 4 walk.registry).map
      (fun found => (found.2.2.ofNode? tree (some 6)).map Doclet.longname) =
        some (some Longname.anonymous) := by
    decide +kernel
  obtain ⟨⟨event, followUps, r⟩, found, standIn⟩ := Option.map_eq_some_iff.mp known
  have goesOn : (run.watchers.passAll "nested.js" (tree.stopsBefore 4)
      ⟨tree, run.registry.nextUnit.2, run.state⟩).1 = .continue := by
    decide +kernel
  have shown : run.ShowsSymbol "nested.js" tree (tree.stopsBefore 4) 4 r :=
    ⟨Tree.exists_stops (by decide +kernel), walk, event, followUps, Prod.ext goesOn rfl, found⟩
  have encloses : tree.Encloses 6 (some 4) :=
    ⟨4, rfl, .tail (.single (show 5 ∈ tree.childrenOf 6 by decide +kernel))
      (show 4 ∈ tree.childrenOf 5 by decide +kernel), .functionDeclaration, rfl, rfl⟩
  have first := (Run.scopes_first ⟨.estree, run.watchers, none, [], rfl⟩ rfl keepsNode
    (show Estree.ofValue "nested.js" NestedFunctions.unit = .ok tree from rfl) shown).1 6 encloses
    rfl
  exact ⟨r, shown, standIn, first⟩

end DroppedFunction

end Doclets
