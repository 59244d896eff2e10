import Doclets.Pipeline.Run
import Doclets.Proofs.Registry.Soundness

/-!
Whole runs. Handlers and visitors choose what becomes a doclet, and when a unit ends, but only the
operations of the registry store anything; so whatever a run does, the look-ups agree with the
results afterwards.
-/

namespace Doclets

variable {σ : Type}

open Registry (Sound)

namespace Watchers

variable (w : Watchers σ)

theorem register_cons (d : Doclet) (rest : List Doclet) (r : Registry) (s : σ) :
    let shown := Handler.relay Handler.newDoclet w.handlers d s
    let others := w.register rest (r.addDoclet shown.2.1).2 shown.2.2
    w.register (d :: rest) r s = (shown.1.merge others.1, others.2.1.or (some r.doclets.size),
      others.2.2) := rfl

/-- All doclets that are registered become results, the one that is told of among them. -/
theorem sound_register (doclets : List Doclet) {r : Registry} (h : r.Sound) (s : σ) :
    let done := w.register doclets r s
    done.2.2.1.Sound ∧ r.results.toList <+: done.2.2.1.results.toList ∧
      ∀ id ∈ done.2.1, id ∈ done.2.2.1.results := by
  induction doclets generalizing r s with
  | nil => exact ⟨h, List.prefix_refl _, fun id none => by cases none⟩
  | cons d rest ih =>
    rw [register_cons]
    dsimp only
    generalize Handler.relay Handler.newDoclet w.handlers d s = shown
    obtain ⟨sound, more, listed⟩ := ih (h.addDoclet shown.2.1) shown.2.2
    generalize w.register rest (r.addDoclet shown.2.1).2 shown.2.2 = others at sound more listed
    rw [Registry.results_addDoclet] at more
    refine ⟨sound, (List.prefix_append _ _).trans more, ?_⟩
    intro id last
    rcases Option.or_eq_some_iff.mp last with later | ⟨_, this⟩
    · exact listed id later
    · have present := more.subset (List.mem_append_right _ List.mem_cons_self)
      exact Option.some.inj this ▸ Array.mem_toList_iff.mp present

theorem sound_passComment (file : String) (index : Nat) {walk : Walk σ}
    (h : walk.registry.Sound) : (w.passComment file index walk).2.registry.Sound := by
  unfold passComment
  cases walk.tree.comments[index]? with
  | none => exact h
  | some comment =>
    dsimp only
    split
    · exact (w.sound_register _ h _).1
    · exact h

theorem sound_declareName (t : Tree) (node : NodeRef) (kind : NodeKind) (code : Symbol)
    {r : Registry} (h : r.Sound) : (declareName t node kind code r).2.2.Sound := by
  unfold declareName
  dsimp only
  split
  · exact h
  · split
    · exact h.declare _ _ _
    · exact h

/-- Only a name that a declaration binds is noted before the checkpoint of a symbol. -/
theorem sound_prepare (t : Tree) (node : NodeRef) (kind : NodeKind) (code : Symbol)
    {r : Registry} (h : r.Sound) : (prepare t node kind code r).2.2.Sound := by
  unfold prepare
  split <;> first | exact sound_declareName t node _ code h | exact h

/-- The checkpoint of a symbol is at a node that stands for one, and shows what is prepared for it. -/
theorem prepared_of_symbolAt? {t : Tree} {file : String} {i : NodeIndex} {r s : Registry}
    {event : SymbolFound} {followUps : List FollowUp}
    (found : symbolAt? t file i r = some (event, followUps, s)) :
    ∃ n code, t.nodes[i]? = some n ∧ Symbol.ofNode? t (some i) = some code ∧
      prepare t (some i) n.kind code r = (event.code, followUps, s) ∧
      event = ⟨((t.doc? (some i)).map Comment.raw).getD "", file, n.position.line,
        n.position.column, i, event.code, []⟩ := by
  unfold symbolAt? at found
  split at found
  next n code stored symbol =>
    simp only [Option.some.injEq, Prod.mk.injEq] at found
    obtain ⟨rfl, rfl, rfl⟩ := found
    exact ⟨n, code, stored, symbol, rfl, rfl⟩
  next => cases found

theorem sound_symbolAt? {t : Tree} {file : String} {i : NodeIndex} {r s : Registry}
    {event : SymbolFound} {followUps : List FollowUp} (h : r.Sound)
    (found : symbolAt? t file i r = some (event, followUps, s)) : s.Sound := by
  obtain ⟨n, code, _, _, prepared, _⟩ := prepared_of_symbolAt? found
  have sound := sound_prepare t (some i) n.kind code h
  rw [prepared] at sound
  exact sound

theorem sound_passNode (file : String) (i : NodeIndex) {walk : Walk σ}
    (h : walk.registry.Sound) : (w.passNode file i walk).2.registry.Sound := by
  unfold passNode
  dsimp only
  cases found : symbolAt? walk.tree file i walk.registry with
  | none => exact h
  | some symbol =>
    obtain ⟨event, followUps, r⟩ := symbol
    dsimp only
    generalize w.visitSymbol walk.tree file event walk.state = visited
    generalize Handler.relay (fun h => h.symbolFound ⟨r, walk.tree⟩) w.handlers visited.1
      visited.2 = shown
    obtain ⟨sound, _, listed⟩ := w.sound_register shown.2.1.doclets (sound_symbolAt? h found)
      shown.2.2
    generalize w.register shown.2.1.doclets r shown.2.2 = done at sound listed
    cases last : done.2.1 with
    | none =>
      exact sound.registerNode _ _ _ _ fun id none => by cases none
    | some id =>
      obtain ⟨kept, still⟩ := sound.follow_all (listed id last) walk.tree (some shown.2.1.node)
        shown.2.1.code.name followUps
      apply kept.registerNode
      intro other this
      exact Option.some.inj this ▸ still

theorem sound_pass (file : String) (stop : Stop) {walk : Walk σ} (h : walk.registry.Sound) :
    (w.pass file walk stop).2.registry.Sound := by
  cases stop with
  | comment index => exact w.sound_passComment file index h
  | node i => exact w.sound_passNode file i h

theorem sound_passAll (file : String) (stops : List Stop) {walk : Walk σ}
    (h : walk.registry.Sound) : (w.passAll file stops walk).2.registry.Sound := by
  induction stops generalizing walk with
  | nil => exact h
  | cons stop rest ih =>
    have passed := w.sound_pass file stop h
    unfold passAll
    split
    next walk' this => exact ih (by rw [this] at passed; exact passed)
    next flow walk' _ this => rw [this] at passed; exact passed

end Watchers

/-! ### Runs -/

/-- What a run may be asked to do. -/
inductive Operation (σ : Type) where
  /-- Go on with other watchers, another provider of trees, another state or another manifest. -/
  | arrange (provider : Provider) (watchers : Watchers σ) (state : σ)
    (manifest : Option Json.Value)
  | walk (file : String) (t : Tree)
  | parse (disk : Disk) (encoding : Encoding) (units : List String)
  | process (disk : Disk) (encoding : Encoding) (units : List String)
  | addPackage
  | resolveAugments
  | resolveBorrows
  | complete
  | reset

namespace Run

def perform (run : Run σ) : Operation σ → Run σ
  | .arrange provider watchers state manifest => { run with provider, watchers, state, manifest }
  | .walk file t => (run.walk file t).2
  | .parse disk encoding units => run.parse disk encoding units
  | .process disk encoding units => run.process disk encoding units
  | .addPackage => run.addPackage
  | .resolveAugments => run.resolveAugments
  | .resolveBorrows => run.resolveBorrows
  | .complete => run.complete.2
  | .reset => run.reset

/-- A property of registries that nothing a run is asked to do takes away. -/
structure Lasting (σ : Type) (P : Registry → Prop) : Prop where
  empty : P .empty
  walk : ∀ (run : Run σ) (file : String) (t : Tree), P run.registry →
    P (run.walk file t).2.registry
  register : ∀ (w : Watchers σ) (doclets : List Doclet) (r : Registry) (s : σ), P r →
    P (w.register doclets r s).2.2.1
  resolveAugments : ∀ r : Registry, P r → P r.resolveAugments
  resolveBorrows : ∀ r : Registry, P r → P r.resolveBorrows

theorem registry_relay {ε : Type} (answer : Handler σ → Editor σ ε) (e : ε) (run : Run σ) :
    (run.relay answer e).2.2.registry = run.registry := rfl

namespace Lasting

variable {P : Registry → Prop} {run : Run σ} (lasting : Lasting σ P)

include lasting

theorem readSource (h : P run.registry) (file source : String) :
    P (run.readSource file source).2.registry := by
  unfold Run.readSource
  generalize shown : run.relay Handler.sourceFound ⟨file, source⟩ = answer
  obtain ⟨flow, found, next⟩ := answer
  have same : P next.registry := by
    have kept := registry_relay Handler.sourceFound ⟨file, source⟩ run
    rw [shown] at kept
    exact kept ▸ h
  dsimp only
  split
  · split
    · exact lasting.walk _ _ _ same
    · exact same
  · exact same

theorem readUnit (h : P run.registry) (disk : Disk) (encoding : Encoding) (file : String)
    (own : Option String) : P (run.readUnit disk encoding file own).2.registry := by
  unfold Run.readUnit
  dsimp only
  split
  · exact h
  · split
    · exact h
    · exact lasting.readSource h _ _

theorem passUnit (h : P run.registry) (disk : Disk) (encoding : Encoding) (position : Nat)
    (unit : String) : P (run.passUnit disk encoding position unit).2.registry := by
  unfold Run.passUnit
  generalize nameUnit position unit = named
  obtain ⟨file, own⟩ := named
  dsimp only
  have begun : P (run.announce Handler.fileBegin file).2.registry := h
  split
  next next this => rw [this] at begun; exact begun
  next next this => rw [this] at begun; exact begun
  next next this =>
    rw [this] at begun
    exact lasting.readUnit begun disk encoding file own

theorem passUnits (h : P run.registry) (disk : Disk) (encoding : Encoding) (position : Nat)
    (units : List String) : P (Run.passUnits disk encoding position units run).2.registry := by
  induction units generalizing position run with
  | nil => exact h
  | cons unit rest ih =>
    have passed := lasting.passUnit h disk encoding position unit
    unfold Run.passUnits
    split
    next _ this => rw [this] at passed; exact passed
    next _ _ _ this => rw [this] at passed; exact ih passed _

theorem passAll (h : P run.registry) (disk : Disk) (encoding : Encoding) (units : List String) :
    P (run.passAll disk encoding units).2.registry := by
  unfold Run.passAll
  have begun : P (run.relay Handler.parseBegin units).2.2.registry := h
  split
  next _ _ this => rw [this] at begun; exact begun
  next _ _ _ _ this =>
    rw [this] at begun
    exact lasting.passUnits begun disk encoding 0 _

theorem addPackage (h : P run.registry) : P run.addPackage.registry := by
  unfold Run.addPackage
  split
  · exact h
  next manifest _ =>
    exact lasting.register run.watchers [Doclet.ofManifest manifest run.files.toList] run.registry
      run.state h

theorem process (h : P run.registry) (disk : Disk) (encoding : Encoding) (units : List String) :
    P (run.process disk encoding units).registry := by
  have passed := lasting.passAll h disk encoding units
  unfold Run.process
  split
  next _ this => rw [this] at passed; exact passed
  next _ _ _ this =>
    rw [this] at passed
    exact lasting.resolveBorrows _ (lasting.resolveAugments _ (lasting.addPackage passed))

theorem perform (h : P run.registry) (operation : Operation σ) :
    P (run.perform operation).registry := by
  cases operation with
  | arrange => exact h
  | walk file t => exact lasting.walk run file t h
  | parse disk encoding units => exact lasting.passAll h disk encoding units
  | process disk encoding units => exact lasting.process h disk encoding units
  | addPackage => exact lasting.addPackage h
  | resolveAugments => exact lasting.resolveAugments _ h
  | resolveBorrows => exact lasting.resolveBorrows _ h
  | complete => exact h
  | reset => exact lasting.empty

theorem operations (h : P run.registry) (operations : List (Operation σ)) :
    P (operations.foldl Run.perform run).registry := by
  induction operations generalizing run with
  | nil => exact h
  | cons operation rest ih => exact ih (lasting.perform h operation)

end Lasting

theorem lasting_sound : Lasting σ Sound where
  empty := Registry.sound_empty
  walk run file _ h := run.watchers.sound_passAll file _ h.nextUnit
  register w doclets _ s h := (w.sound_register doclets h s).1
  resolveAugments _ h := h.resolveAugments
  resolveBorrows _ h := h.resolveBorrows

/-- Whatever a run was asked to do, the look-ups of its results agree with the results. -/
theorem consistent_operations (provider : Provider) (watchers : Watchers σ) (state : σ)
    (operations : List (Operation σ)) :
    (operations.foldl perform (start provider watchers state)).registry.Consistent :=
  (lasting_sound.operations Registry.sound_empty operations).toConsistent

end Run

end Doclets
