import Doclets.Proofs.Pipeline.Retention

/-!
The walk of a run that only documents. Nothing ends it early and nothing changes its tree; a stop
makes the doclets of one symbol, and registers the last of them for the node that the symbol stands
for. So the doclet of a node stays what it is until a symbol is passed that stands for the node.
-/

namespace Doclets

open Registry (Retains)

/-- The doclets that are made of the symbol at a node. -/
def Walk.made (walk : Walk (Option String)) (file : String) (i : NodeIndex) : List Doclet :=
  match Watchers.symbolAt? walk.tree file i walk.registry with
  | some (event, _, r) => Documenter.ofSymbol ⟨r, walk.tree⟩ walk.state event
  | none => []

theorem Walk.made_of_symbol {walk : Walk (Option String)} {file : String} {i : NodeIndex}
    {event : SymbolFound} {followUps : List FollowUp} {r : Registry}
    (found : Watchers.symbolAt? walk.tree file i walk.registry = some (event, followUps, r)) :
    walk.made file i = Documenter.ofSymbol ⟨r, walk.tree⟩ walk.state event := by
  unfold made
  rw [found]

theorem Walk.made_of_plain {walk : Walk (Option String)} {file : String} {i : NodeIndex}
    (plain : Watchers.symbolAt? walk.tree file i walk.registry = none) : walk.made file i = [] := by
  unfold made
  rw [plain]

/-- The doclets that were registered for a node of the tree. -/
def Walk.registered (walk : Walk (Option String)) (x : NodeIndex) : List DocletId :=
  walk.registry.byNode.all (.node (walk.tree.nodeId (some x)))

theorem Walk.ofNode?_eq (walk : Walk (Option String)) (x : NodeIndex) :
    walk.registry.ofNode? walk.tree (some x) =
      (walk.registered x).getLast?.map walk.registry.doclet := by
  unfold Registry.ofNode? Registry.idOfNode? Walk.registered
  rw [if_neg (by simp), if_neg (by simp), History.latest?_eq_getLast?]

namespace Watchers

/-- The watchers of a run that only documents. -/
def documenting : Watchers (Option String) := ⟨[Documenter.handler .whole], []⟩

variable {file : String} {walk : Walk (Option String)} {i x : NodeIndex} {event : SymbolFound}
  {followUps : List FollowUp} {r : Registry}

/-! ### One stop -/

theorem register_documenting (doclets : List Doclet) (r : Registry) (s : Option String) :
    let done := documenting.register doclets r s
    done.1 = .continue ∧ done.2.2.2 = s ∧ (doclets = [] → done.2.1 = none) ∧
      ∀ d, doclets.getLast? = some d → ∃ id, done.2.1 = some id ∧
        id < done.2.2.1.doclets.size ∧ done.2.2.1.doclet id = d := by
  induction doclets generalizing r s with
  | nil => exact ⟨rfl, rfl, fun _ => rfl, fun d last => by cases last⟩
  | cons first rest ih =>
    rw [register_cons]
    have shown : Handler.relay Handler.newDoclet documenting.handlers first s =
        (.continue, first, s) := rfl
    rw [shown]
    obtain ⟨flow, state, none, stored⟩ := ih (r.addDoclet first).2 s
    have kept := documenting.retains_register rest (r.addDoclet first).2 s
    refine ⟨by simp [flow], state, by simp, ?_⟩
    intro d last
    cases rest with
    | nil =>
      have same : first = d := by simpa using last
      have bound : r.doclets.size < (r.addDoclet first).2.doclets.size := by simp
      exact ⟨r.doclets.size, rfl, bound, by simp [register, same, Registry.doclet_addDoclet]⟩
    | cons second others =>
      rw [List.getLast?_cons_cons] at last
      obtain ⟨id, told, bound, same⟩ := stored d last
      refine ⟨id, ?_, bound, same⟩
      dsimp only
      rw [told]
      rfl

/-- Every doclet that is registered is stored, as a result. -/
theorem stored_register {doclets : List Doclet} {d : Doclet} (listed : d ∈ doclets) (r : Registry)
    (s : Option String) : let stored := (documenting.register doclets r s).2.2.1
    ∃ id ∈ stored.results, id < stored.doclets.size ∧ (stored.doclet id).SameIdentity d := by
  induction doclets generalizing r s with
  | nil => cases listed
  | cons first rest ih =>
    rw [register_cons]
    have shown : Handler.relay Handler.newDoclet documenting.handlers first s =
        (.continue, first, s) := rfl
    rw [shown]
    dsimp only
    rcases List.mem_cons.mp listed with rfl | later
    · have kept := documenting.retains_register rest (r.addDoclet d).2 s
      have bound : r.doclets.size < (r.addDoclet d).2.doclets.size := by simp
      refine ⟨r.doclets.size, kept.results _ (Registry.mem_results_addDoclet.mpr (Or.inr rfl)),
        Nat.lt_of_lt_of_le bound kept.size_le, ?_⟩
      have same := kept.doclet r.doclets.size bound
      rw [Registry.doclet_addDoclet, if_pos rfl] at same
      exact same
    · exact ih later (r.addDoclet first).2 s

theorem doclets_symbolAt? (found : symbolAt? walk.tree file i walk.registry =
    some (event, followUps, r)) : event.doclets = [] := by
  obtain ⟨_, _, _, _, _, shown⟩ := prepared_of_symbolAt? found
  exact congrArg SymbolFound.doclets shown

/-- A stop at a symbol stores its doclets, does what remains for the last of them, and registers
that. -/
theorem passNode_documenting (found : symbolAt? walk.tree file i walk.registry =
    some (event, followUps, r)) : documenting.passNode file i walk =
      let stored := documenting.register (walk.made file i) r walk.state
      let followed := match stored.2.1 with
        | some id => followUps.foldl
          (Registry.follow walk.tree (some event.node) event.code.name id) stored.2.2.1
        | none => stored.2.2.1
      (.continue, ⟨walk.tree,
        followed.registerNode walk.tree event.code.node stored.2.1 event.code, walk.state⟩) := by
  have fresh := doclets_symbolAt? found
  have made := Walk.made_of_symbol found
  have shown : Handler.relay (fun h => h.symbolFound ⟨r, walk.tree⟩) documenting.handlers event
      walk.state = (.continue, { event with doclets := walk.made file i }, walk.state) := by
    rw [made]
    unfold documenting Handler.relay Handler.relay Documenter.handler
    simp only [fresh, List.nil_append]
    rfl
  obtain ⟨flow, state, _⟩ := register_documenting (walk.made file i) r walk.state
  unfold passNode
  dsimp only
  rw [found]
  have visited : documenting.visitSymbol walk.tree file event walk.state = (event, walk.state) :=
    rfl
  dsimp only
  rw [visited]
  dsimp only
  rw [shown]
  dsimp only
  generalize documenting.register (walk.made file i) r walk.state = done at flow state
  obtain ⟨_, last, stored, _⟩ := done
  cases flow
  cases state
  rfl

theorem passNode_plain (plain : symbolAt? walk.tree file i walk.registry = none) :
    documenting.passNode file i walk = (.continue, walk) := by
  unfold passNode
  dsimp only
  rw [plain]
  rfl

theorem passComment_documenting (file : String) (index : Nat) (walk : Walk (Option String)) :
    (documenting.passComment file index walk).1 = .continue ∧
      (documenting.passComment file index walk).2.tree = walk.tree := by
  unfold passComment
  cases walk.tree.comments[index]? with
  | none => exact ⟨rfl, rfl⟩
  | some comment =>
    dsimp only
    split
    · let event : CommentFound :=
        ⟨comment.raw, file, comment.position.line, comment.position.column, []⟩
      obtain ⟨doclets, s, shown⟩ : ∃ doclets s, Handler.relay
          (fun h => h.commentFound ⟨walk.registry, walk.tree⟩) documenting.handlers event
          walk.state = (.continue, { event with doclets := doclets }, s) := ⟨_, _, rfl⟩
      rw [shown]
      obtain ⟨flow, _⟩ := register_documenting doclets walk.registry s
      dsimp only
      rw [flow, if_pos rfl]
      exact ⟨rfl, rfl⟩
    · exact ⟨rfl, rfl⟩

/-- Nothing ends the walk early, and nothing changes its tree. -/
theorem pass_documenting (file : String) (walk : Walk (Option String)) (stop : Stop) :
    (documenting.pass file walk stop).1 = .continue ∧
      (documenting.pass file walk stop).2.tree = walk.tree := by
  cases stop with
  | comment index => exact passComment_documenting file index walk
  | node i =>
    unfold pass
    dsimp only
    cases found : symbolAt? walk.tree file i walk.registry with
    | none =>
      rw [passNode_plain found]
      exact ⟨rfl, rfl⟩
    | some symbol =>
      obtain ⟨event, followUps, r⟩ := symbol
      rw [passNode_documenting found]
      exact ⟨rfl, rfl⟩

/-! ### Several stops -/

variable {stop : Stop} {stops more : List Stop}

theorem passAll_cons (file : String) (stop : Stop) (stops : List Stop)
    (walk : Walk (Option String)) : documenting.passAll file (stop :: stops) walk =
      documenting.passAll file stops (documenting.pass file walk stop).2 := by
  have goes_on := (pass_documenting file walk stop).1
  rw [passAll]
  generalize documenting.pass file walk stop = passed at goes_on
  obtain ⟨_, next⟩ := passed
  cases goes_on
  rfl

theorem passAll_append (file : String) (stops more : List Stop) (walk : Walk (Option String)) :
    documenting.passAll file (stops ++ more) walk =
      documenting.passAll file more (documenting.passAll file stops walk).2 := by
  induction stops generalizing walk with
  | nil => rfl
  | cons stop rest ih => rw [List.cons_append, passAll_cons, passAll_cons, ih]

theorem flow_passAll (file : String) (stops : List Stop) (walk : Walk (Option String)) :
    (documenting.passAll file stops walk).1 = .continue := by
  induction stops generalizing walk with
  | nil => rfl
  | cons stop rest ih => rw [passAll_cons, ih]

theorem tree_passAll (file : String) (stops : List Stop) (walk : Walk (Option String)) :
    (documenting.passAll file stops walk).2.tree = walk.tree := by
  induction stops generalizing walk with
  | nil => rfl
  | cons stop rest ih => rw [passAll_cons, ih, (pass_documenting file walk stop).2]

/-! ### What stays -/

theorem made_of_unnamed {code : Symbol} (symbol : Symbol.ofNode? walk.tree (some i) = some code)
    (unnamed : code.name = "") : walk.made file i = [] := by
  cases found : symbolAt? walk.tree file i walk.registry with
  | none => exact Walk.made_of_plain found
  | some symbolFound =>
    obtain ⟨event, followUps, r⟩ := symbolFound
    have name : event.code.name = "" := (code_symbolAt? symbol found).1.trans unnamed
    rw [Walk.made_of_symbol found, Documenter.ofSymbol, List.filterMap_eq_nil_iff]
    intro part _
    unfold Documenter.ofSymbolPart
    rw [if_pos (by simp [name])]

/-- A stop that makes no doclet for a node: it stands for another node, or for a symbol without a
name where the node has a doclet already. -/
def Quiet (t : Tree) (x : NodeIndex) (known : Prop) : Stop → Prop
  | .comment _ => True
  | .node i => ∀ code, Symbol.ofNode? t (some i) = some code → code.node = some x →
    code.name = "" ∧ known

theorem remembers_passNode (file : String) (i : NodeIndex) (walk : Walk (Option String)) :
    walk.registry.Remembers (documenting.passNode file i walk).2.registry := by
  obtain ⟨_, r, kept, same | ⟨node, last, code, same⟩⟩ := documenting.exists_passNode file i walk
  · exact same ▸ kept.toRemembers
  · exact same ▸ kept.toRemembers.trans (r.remembers_registerNode walk.tree node last code).1

theorem remembers_passAll (file : String) (stops : List Stop) (walk : Walk (Option String)) :
    walk.registry.Remembers (documenting.passAll file stops walk).2.registry := by
  induction stops generalizing walk with
  | nil => exact .refl _
  | cons stop rest ih =>
    rw [passAll_cons]
    refine Registry.Remembers.trans ?_ (ih _)
    cases stop with
    | comment index => exact (documenting.passComment_retains file index walk).2.toRemembers
    | node i => exact remembers_passNode file i walk

theorem pass_quiet (file : String) (quiet : Quiet walk.tree x (walk.registered x ≠ []) stop) :
    (documenting.pass file walk stop).2.registered x = walk.registered x := by
  unfold Walk.registered at quiet ⊢
  rw [(pass_documenting file walk stop).2]
  cases stop with
  | comment index =>
    obtain ⟨_, kept⟩ := documenting.passComment_retains file index walk
    rw [show (documenting.pass file walk (.comment index)).2.registry.byNode = _ from kept.byNode]
  | node i =>
    unfold pass
    dsimp only
    cases found : symbolAt? walk.tree file i walk.registry with
    | none => rw [passNode_plain found]
    | some symbol =>
      obtain ⟨event, followUps, r⟩ := symbol
      have stored := (retains_symbolAt? found).trans
        (documenting.retains_register (walk.made file i) r walk.state)
      obtain ⟨code, symbol⟩ : ∃ code, Symbol.ofNode? walk.tree (some i) = some code := by
        cases symbol : Symbol.ofNode? walk.tree (some i) with
        | none =>
          rw [symbolAt?_of_plain symbol] at found
          cases found
        | some code => exact ⟨code, rfl⟩
      obtain ⟨name, node⟩ := code_symbolAt? symbol found
      have last := (register_documenting (walk.made file i) r walk.state).2.2.1
      rw [passNode_documenting found]
      dsimp only
      generalize documenting.register (walk.made file i) r walk.state = done at stored last
      by_cases here : code.node = some x
      · obtain ⟨unnamed, known⟩ := quiet code symbol here
        rw [last (made_of_unnamed symbol unnamed)]
        dsimp only
        rw [node, here, Registry.all_registerNode_none, stored.byNode]
        rw [stored.byNode]
        exact known
      · rw [Registry.all_registerNode_of_ne]
        · cases done.2.1 with
          | none => rw [stored.byNode]
          | some id =>
            dsimp only
            rw [(retains_follow_all _ _ _ _ _ _).byNode, stored.byNode]
        · intro same
          have index := congrArg NodeId.index (ScopeKey.node.inj same)
          exact here (node.symm.trans index)

theorem passAll_quiet (file : String)
    (quiet : ∀ stop ∈ stops, Quiet walk.tree x (walk.registered x ≠ []) stop) :
    (documenting.passAll file stops walk).2.registered x = walk.registered x := by
  induction stops generalizing walk with
  | nil => rfl
  | cons stop rest ih =>
    have same := pass_quiet file (quiet stop List.mem_cons_self)
    have tree := (pass_documenting file walk stop).2
    rw [passAll_cons]
    have others : ∀ next ∈ rest, Quiet (documenting.pass file walk stop).2.tree x
        ((documenting.pass file walk stop).2.registered x ≠ []) next := by
      intro next listed
      rw [same, tree]
      exact quiet next (List.mem_cons_of_mem _ listed)
    exact (ih others).trans same

theorem quiet_of_apart {t : Tree} (apart : ∀ j, stop = .node j → ∀ code,
    Symbol.ofNode? t (some j) = some code → code.node ≠ some x) (known : Prop) :
    Quiet t x known stop := by
  cases stop with
  | comment => trivial
  | node j => exact fun code symbol here => absurd here (apart j rfl code symbol)

/-- Stops that stand for other nodes register nothing for a node. -/
theorem registered_passAll_of_apart (file : String) (apart : ∀ j, .node j ∈ stops → ∀ code,
    Symbol.ofNode? walk.tree (some j) = some code → code.node ≠ some x) :
    (documenting.passAll file stops walk).2.registered x = walk.registered x :=
  passAll_quiet file fun _ listed => quiet_of_apart (fun j same => apart j (same ▸ listed)) _

/-- All doclets that are made of a symbol become results. -/
theorem stored_passNode {d : Doclet} (made : d ∈ walk.made file i) :
    let next := (documenting.passNode file i walk).2.registry
    ∃ id ∈ next.results, id < next.doclets.size ∧ (next.doclet id).SameIdentity d := by
  cases found : symbolAt? walk.tree file i walk.registry with
  | none =>
    rw [Walk.made_of_plain found] at made
    cases made
  | some symbolFound =>
    obtain ⟨event, followUps, r⟩ := symbolFound
    obtain ⟨id, listed, bound, same⟩ := stored_register made r walk.state
    rw [passNode_documenting found]
    dsimp only
    generalize documenting.register (walk.made file i) r walk.state = done at listed bound same
    suffices kept : done.2.2.1.Remembers _ from
      ⟨id, kept.results id listed, Nat.lt_of_lt_of_le bound kept.size_le,
        same.trans (kept.doclet id bound)⟩
    refine Registry.Remembers.trans ?_ (Registry.remembers_registerNode _ _ _ _ _).1
    cases done.2.1 with
    | none => exact .refl _
    | some last => exact (retains_follow_all _ _ _ _ _ _).toRemembers

/-- The last doclet that is made of a symbol is the doclet of the node that it stands for. -/
theorem ofNode?_passNode {code : Symbol} {d : Doclet}
    (symbol : Symbol.ofNode? walk.tree (some i) = some code) (here : code.node = some x)
    (last : (walk.made file i).getLast? = some d) : ∃ e,
      (documenting.passNode file i walk).2.registry.ofNode? walk.tree (some x) = some e ∧
        e.SameIdentity d := by
  cases found : symbolAt? walk.tree file i walk.registry with
  | none =>
    rw [Walk.made_of_plain found] at last
    cases last
  | some symbolFound =>
    obtain ⟨event, followUps, r⟩ := symbolFound
    obtain ⟨_, node⟩ := code_symbolAt? symbol found
    obtain ⟨id, told, bound, same⟩ :=
      (register_documenting (walk.made file i) r walk.state).2.2.2 d last
    rw [passNode_documenting found]
    dsimp only
    rw [told]
    dsimp only
    generalize (documenting.register (walk.made file i) r walk.state).2.2.1 = stored at bound same
    have kept := retains_follow_all walk.tree (some event.node) event.code.name id followUps stored
    generalize followUps.foldl (Registry.follow walk.tree (some event.node) event.code.name id)
      stored = followed at kept
    refine ⟨followed.doclet id, ?_, same ▸ kept.doclet id bound⟩
    unfold Registry.ofNode? Registry.idOfNode? Registry.registerNode Registry.register
    dsimp only
    rw [node, here, if_neg (by simp), if_neg (by simp), History.latest?_eq_getLast?,
      History.all_put_self, List.getLast?_concat]
    rfl

end Watchers

end Doclets
