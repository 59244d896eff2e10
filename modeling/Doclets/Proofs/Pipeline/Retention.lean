import Doclets.Proofs.Pipeline.Soundness
import Doclets.Proofs.Registry.Retention

/-!
What the stops of a walk leave as it is, whoever watches: a stop registers doclets for one node of
the unit at most, and so no unit that is still to be numbered has any.
-/

namespace Doclets

open Registry (Numbered Retains Rooted)

variable {σ : Type}

namespace Watchers

variable (w : Watchers σ)

theorem retains_register (doclets : List Doclet) (r : Registry) (s : σ) :
    r.Retains (w.register doclets r s).2.2.1 := by
  induction doclets generalizing r s with
  | nil => exact .refl r
  | cons d rest ih =>
    rw [register_cons]
    exact (r.retains_addDoclet _).trans (ih _ _)

/-- The last of the doclets that are stored is a new result. -/
theorem last_register (doclets : List Doclet) (r : Registry) (s : σ) :
    let done := w.register doclets r s
    ∀ id ∈ done.2.1, id ∈ done.2.2.1.results ∧ r.doclets.size ≤ id ∧
      id < done.2.2.1.doclets.size := by
  induction doclets generalizing r s with
  | nil => nofun
  | cons d rest ih =>
    rw [register_cons]
    dsimp only
    generalize (Handler.relay Handler.newDoclet w.handlers d s).2 = shown
    obtain ⟨changed, left⟩ := shown
    have others := ih (r.addDoclet changed).2 left
    have kept := w.retains_register rest (r.addDoclet changed).2 left
    have size := r.doclets_size_addDoclet changed
    intro id told
    cases last : (w.register rest (r.addDoclet changed).2 left).2.1 with
    | some other =>
      rw [last, Option.some_or] at told
      obtain ⟨result, new, bound⟩ := others id (last ▸ told)
      rw [size] at new
      exact ⟨result, Nat.le_of_succ_le new, bound⟩
    | none =>
      rw [last, Option.none_or] at told
      obtain rfl := Option.some.inj told
      exact ⟨kept.results _ (Registry.mem_results_addDoclet.mpr (Or.inr rfl)), Nat.le_refl _,
        Nat.lt_of_lt_of_le (size ▸ Nat.lt_succ_self _) kept.size_le⟩

theorem retains_prepare (t : Tree) (node : NodeRef) (kind : NodeKind) (code : Symbol)
    (r : Registry) : r.Retains (prepare t node kind code r).2.2 := by
  have declared : r.Retains (declareName t node kind code r).2.2 := by
    unfold declareName
    dsimp only
    split
    · exact .refl r
    · split
      · exact r.retains_declare _ _ _
      · exact .refl r
  unfold prepare
  split <;> first | exact declared | exact .refl r

/-- What is prepared for a symbol is the symbol itself, but for the scope that declares it. -/
theorem code_prepare (t : Tree) (node : NodeRef) (kind : NodeKind) (code : Symbol) (r : Registry) :
    (prepare t node kind code r).1 =
      { code with funcscope := (prepare t node kind code r).1.funcscope } := by
  have declared : (declareName t node kind code r).1 =
      { code with funcscope := (declareName t node kind code r).1.funcscope } := by
    unfold declareName
    dsimp only
    split
    · split
      · split <;> rfl
      · rfl
    · rfl
  unfold prepare
  split <;> first | exact declared | rfl

/-- The checkpoint of a node that stands for a symbol. -/
theorem symbolAt?_of_symbol {t : Tree} {i : NodeIndex} {n : Node} {code : Symbol}
    (stored : t.nodes[i]? = some n) (symbol : Symbol.ofNode? t (some i) = some code)
    (file : String) (r : Registry) : symbolAt? t file i r =
      let prepared := prepare t (some i) n.kind code r
      some (⟨((t.doc? (some i)).map Comment.raw).getD "", file, n.position.line,
        n.position.column, i, prepared.1, []⟩, prepared.2.1, prepared.2.2) := by
  unfold symbolAt?
  rw [stored, symbol]

theorem exists_symbolAt? {t : Tree} {i : NodeIndex} {code : Symbol}
    (symbol : Symbol.ofNode? t (some i) = some code) (file : String) (r : Registry) :
    ∃ event followUps s, symbolAt? t file i r = some (event, followUps, s) ∧
      event.comment = ((t.doc? (some i)).map Comment.raw).getD "" ∧ event.node = i := by
  obtain ⟨n, stored⟩ : ∃ n, t.nodes[i]? = some n := by
    unfold Symbol.ofNode? at symbol
    split at symbol
    next => cases symbol
    next n stored => exact ⟨n, stored⟩
  exact ⟨_, _, _, symbolAt?_of_symbol stored symbol file r, rfl, rfl⟩

theorem symbolAt?_of_plain {t : Tree} {i : NodeIndex} (plain : Symbol.ofNode? t (some i) = none)
    (file : String) (r : Registry) : symbolAt? t file i r = none := by
  unfold symbolAt?
  rw [plain]
  split
  next same => cases same
  next => rfl

theorem retains_symbolAt? {t : Tree} {file : String} {i : NodeIndex} {r s : Registry}
    {event : SymbolFound} {followUps : List FollowUp}
    (found : symbolAt? t file i r = some (event, followUps, s)) : r.Retains s := by
  obtain ⟨n, code, _, _, prepared, _⟩ := prepared_of_symbolAt? found
  have kept := retains_prepare t (some i) n.kind code r
  rw [prepared] at kept
  exact kept

/-- The checkpoint of a symbol shows its name, and the node that it stands for. -/
theorem code_symbolAt? {t : Tree} {file : String} {i : NodeIndex} {r s : Registry} {code : Symbol}
    {event : SymbolFound} {followUps : List FollowUp}
    (symbol : Symbol.ofNode? t (some i) = some code)
    (found : symbolAt? t file i r = some (event, followUps, s)) :
    event.code.name = code.name ∧ event.code.node = code.node := by
  obtain ⟨n, other, _, stands, prepared, _⟩ := prepared_of_symbolAt? found
  obtain rfl := Option.some.inj (symbol.symm.trans stands)
  have same := code_prepare t (some i) n.kind code r
  rw [prepared] at same
  dsimp only at same
  rw [same]
  exact ⟨rfl, rfl⟩

theorem retains_follow_all (t : Tree) (node : NodeRef) (name : String) (id : DocletId)
    (followUps : List FollowUp) (r : Registry) :
    r.Retains (followUps.foldl (Registry.follow t node name id) r) :=
  Registry.retains_foldl followUps (Registry.retains_follow t node name id) r

/-- A stop at a node registers for one node at most. -/
theorem exists_passNode (file : String) (i : NodeIndex) (walk : Walk σ) :
    (w.passNode file i walk).2.tree = walk.tree ∧
      ∃ r, walk.registry.Retains r ∧ ((w.passNode file i walk).2.registry = r ∨
        ∃ node last code, (w.passNode file i walk).2.registry =
          r.registerNode walk.tree node last code) := by
  unfold passNode
  dsimp only
  cases found : symbolAt? walk.tree file i walk.registry with
  | none => exact ⟨rfl, _, .refl _, Or.inl rfl⟩
  | some symbol =>
    obtain ⟨event, followUps, r⟩ := symbol
    dsimp only
    generalize w.visitSymbol walk.tree file event walk.state = visited
    generalize Handler.relay (fun h => h.symbolFound ⟨r, walk.tree⟩) w.handlers visited.1
      visited.2 = shown
    have stored := (retains_symbolAt? found).trans
      (w.retains_register shown.2.1.doclets r shown.2.2)
    generalize w.register shown.2.1.doclets r shown.2.2 = done at stored
    refine ⟨rfl, _, ?_, Or.inr ⟨_, _, _, rfl⟩⟩
    cases done.2.1 with
    | none => exact stored
    | some id => exact stored.trans (retains_follow_all _ _ _ _ _ _)

/-- A stop at a comment changes no node and registers nothing. -/
theorem passComment_retains (file : String) (index : Nat) (walk : Walk σ) :
    (w.passComment file index walk).2.tree.unit = walk.tree.unit ∧
      walk.registry.Retains (w.passComment file index walk).2.registry := by
  unfold passComment
  cases walk.tree.comments[index]? with
  | none => exact ⟨rfl, .refl _⟩
  | some comment =>
    dsimp only
    split
    · refine ⟨?_, w.retains_register _ _ _⟩
      dsimp only
      split <;> rfl
    · exact ⟨rfl, .refl _⟩

/-! ### Units -/

theorem numbered_pass (file : String) (stop : Stop) {walk : Walk σ}
    (known : walk.tree.unit < walk.registry.units) (h : walk.registry.Numbered) :
    (w.pass file walk stop).2.tree.unit < (w.pass file walk stop).2.registry.units ∧
      (w.pass file walk stop).2.registry.Numbered := by
  cases stop with
  | comment index =>
    obtain ⟨unit, kept⟩ := w.passComment_retains file index walk
    refine ⟨?_, h.retains kept⟩
    rw [show (w.pass file walk (.comment index)).2.tree.unit = _ from unit,
      show (w.pass file walk (.comment index)).2.registry.units = _ from kept.units]
    exact known
  | node i =>
    obtain ⟨tree, r, kept, same⟩ := w.exists_passNode file i walk
    have numbered := h.retains kept
    have below : walk.tree.unit < r.units := kept.units.symm ▸ known
    unfold pass
    dsimp only
    rw [tree]
    rcases same with same | ⟨node, last, code, same⟩
    · rw [same]
      exact ⟨below, numbered⟩
    · rw [same]
      refine ⟨?_, numbered.registerNode below node last code⟩
      rw [(r.remembers_registerNode walk.tree node last code).2]
      exact below

theorem numbered_passAll (file : String) (stops : List Stop) {walk : Walk σ}
    (known : walk.tree.unit < walk.registry.units) (h : walk.registry.Numbered) :
    (w.passAll file stops walk).2.registry.Numbered := by
  induction stops generalizing walk with
  | nil => exact h
  | cons stop rest ih =>
    obtain ⟨below, numbered⟩ := w.numbered_pass file stop known h
    unfold passAll
    split
    next next this =>
      rw [this] at below numbered
      exact ih below numbered
    next flow next _ this =>
      rw [this] at numbered
      exact numbered

/-! ### The scope around all units -/

theorem rooted_pass (file : String) (stop : Stop) {walk : Walk σ} (h : walk.registry.Rooted) :
    (w.pass file walk stop).2.registry.Rooted := by
  cases stop with
  | comment index => exact h.retains (w.passComment_retains file index walk).2
  | node i =>
    obtain ⟨_, r, kept, same | ⟨node, last, code, same⟩⟩ := w.exists_passNode file i walk
    · rw [show (w.pass file walk (.node i)).2.registry = r from same]
      exact h.retains kept
    · rw [show (w.pass file walk (.node i)).2.registry = _ from same]
      exact (h.retains kept).registerNode _ _ _ _

theorem rooted_passAll (file : String) (stops : List Stop) {walk : Walk σ}
    (h : walk.registry.Rooted) : (w.passAll file stops walk).2.registry.Rooted := by
  induction stops generalizing walk with
  | nil => exact h
  | cons stop rest ih =>
    have passed := w.rooted_pass file stop h
    unfold passAll
    split
    next next this =>
      rw [this] at passed
      exact ih passed
    next flow next _ this =>
      rw [this] at passed
      exact passed

end Watchers

namespace Run

/-- Whatever a run was asked to do, its look-ups are sound and its units numbered. -/
theorem lasting_numbered : Lasting σ fun r => r.Sound ∧ r.Numbered where
  empty := ⟨Registry.sound_empty, Registry.numbered_empty⟩
  walk run file t h := ⟨lasting_sound.walk run file t h.1,
    run.watchers.numbered_passAll file _ (Nat.lt_succ_self _) h.2.nextUnit⟩
  register w doclets r s h :=
    ⟨lasting_sound.register w doclets r s h.1, h.2.retains (w.retains_register doclets r s)⟩
  resolveAugments r h :=
    ⟨h.1.resolveAugments, h.2.retains (r.retains_resolveAugments h.1.toConsistent)⟩
  resolveBorrows r h := ⟨h.1.resolveBorrows, h.2.retains r.retains_resolveBorrows⟩

/-- Whatever a run was asked to do, the scope around all units has the first doclet. -/
theorem lasting_rooted : Lasting σ fun r => r.Sound ∧ r.Rooted where
  empty := ⟨Registry.sound_empty, Registry.rooted_empty⟩
  walk run file t h := ⟨lasting_sound.walk run file t h.1,
    run.watchers.rooted_passAll file _ h.2.nextUnit⟩
  register w doclets r s h :=
    ⟨lasting_sound.register w doclets r s h.1, h.2.retains (w.retains_register doclets r s)⟩
  resolveAugments r h :=
    ⟨h.1.resolveAugments, h.2.retains (r.retains_resolveAugments h.1.toConsistent)⟩
  resolveBorrows r h := ⟨h.1.resolveBorrows, h.2.retains r.retains_resolveBorrows⟩

end Run

end Doclets
