import Doclets.Proofs.Pipeline.Soundness
import Doclets.Proofs.Registry.Safety

/-!
Whole runs, with every id checked. A checked run asks for doclets only by ids that it has checked,
and at every checkpoint it asks for all ids that are kept, also by what remains to be done for a
symbol. It never fails, so at no point of a run an id is kept that nothing is stored under. Handlers
and visitors may change a checkpoint, but not what remains to be done behind it: the run keeps that
to itself, so that no id comes back from before a reset.
-/

namespace Doclets

variable {σ : Type}

open Checked (Safely bind_eq inspect inspect_eq_ok_iff)

namespace Watchers

variable (w : Watchers σ) {r : Registry}

/-! ### Checkpoints -/

def registerChecked (w : Watchers σ) (pending : List FollowUp) :
    List Doclet → Registry → σ → Checked (Flow × Option DocletId × Registry × σ)
  | [], r, s => return (.continue, none, r, s)
  | d :: rest, r, s => do
    inspect r pending
    let (flow, d, s) := Handler.relay Handler.newDoclet w.handlers d s
    let (id, r) ← Checked.addDoclet r d
    let (others, last, r, s) ← w.registerChecked pending rest r s
    return (flow.merge others, last.or (some id), r, s)

def passCommentChecked (w : Watchers σ) (file : String) (index : Nat) (walk : Walk σ) :
    Checked (Flow × Walk σ) :=
  match walk.tree.comments[index]? with
  | none => return (.continue, walk)
  | some comment =>
    if comment.isDoc then do
      let event : CommentFound :=
        ⟨comment.raw, file, comment.position.line, comment.position.column, []⟩
      let (flow, event, s) := Handler.relay
        (fun h => h.commentFound ⟨walk.registry, walk.tree⟩) w.handlers event walk.state
      let tree := if event.comment = comment.raw then walk.tree
        else { walk.tree with
          comments := walk.tree.comments.modify index fun c => c.withRaw event.comment }
      let (registered, _, r, s) ← w.registerChecked [] event.doclets walk.registry s
      return (flow.merge registered, ⟨tree, r, s⟩)
    else return (.continue, walk)

def noteNameChecked (t : Tree) (node : NodeRef) (code : Symbol) (r : Registry) :
    Checked (List FollowUp × Registry) :=
  if code.name.isEmpty then .ok ([], r)
  else
    match r.idOfNode? t (t.scope node) with
    | some scope => do return ([.trackName scope], ← Checked.declare r scope code.name none)
    | none => .ok ([], r)

def assignedChecked (t : Tree) (node : NodeRef) (kind : NodeKind) (code : Symbol) (r : Registry) :
    Checked Symbol :=
  if kind = .assignmentExpression then
    match Longname.basename? code.name with
    | some basename =>
      if basename = "this" then .ok code
      else do
        let scope ← Checked.declaringScope r t node basename
        return { code with funcscope := if scope.isEmpty then none else some scope }
    | none => .ok code
  else .ok code

def declareNameChecked (t : Tree) (node : NodeRef) (kind : NodeKind) (code : Symbol)
    (r : Registry) : Checked (Symbol × List FollowUp × Registry) := do
  let (followUps, r) ← noteNameChecked t node code r
  return (← assignedChecked t node kind code r, followUps, r)

def prepareChecked (t : Tree) (node : NodeRef) (kind : NodeKind) (code : Symbol) (r : Registry) :
    Checked (Symbol × List FollowUp × Registry) :=
  match kind with
  | .variableDeclarator | .assignmentExpression => declareNameChecked t node kind code r
  | .property => return (code, [.joinEnum], r)
  | .methodDefinition => return (code, if t.isConstructor node then [.joinClass] else [], r)
  | _ => return (code, [], r)

def symbolAtChecked? (t : Tree) (file : String) (i : NodeIndex) (r : Registry) :
    Checked (Option (SymbolFound × List FollowUp × Registry)) :=
  match t.nodes[i]?, Symbol.ofNode? t (some i) with
  | some n, some code => do
    let comment := ((t.doc? (some i)).map Comment.raw).getD ""
    let (code, followUps, r) ← prepareChecked t (some i) n.kind code r
    return some (⟨comment, file, n.position.line, n.position.column, i, code, []⟩, followUps, r)
  | _, _ => return none

/-- Does what remains to be done for the last doclet of a symbol, and registers that. -/
def settleChecked (t : Tree) (event : SymbolFound) (pending : List FollowUp)
    (last : Option DocletId) (r : Registry) : Checked Registry := do
  let r ← match last with
    | some id => pending.foldlM (Checked.follow t (some event.node) event.code.name id) r
    | none => pure r
  Checked.registerNode r t event.code.node last event.code

/-- What remains to be done for a symbol keeps its ids while visitors and handlers are asked. -/
def passNodeChecked (w : Watchers σ) (file : String) (i : NodeIndex) (walk : Walk σ) :
    Checked (Flow × Walk σ) := do
  let t := walk.tree
  match ← symbolAtChecked? t file i walk.registry with
  | none => return (.continue, { walk with state := w.visitPlain t file i walk.state })
  | some (event, followUps, r) =>
    inspect r followUps
    let (event, s) := w.visitSymbol t file event walk.state
    let (flow, event, s) := Handler.relay (fun h => h.symbolFound ⟨r, t⟩) w.handlers event s
    let (registered, last, r, s) ← w.registerChecked followUps event.doclets r s
    inspect r followUps
    return (flow.merge registered, ⟨t, ← settleChecked t event followUps last r, s⟩)

def passChecked (w : Watchers σ) (file : String) (walk : Walk σ) (stop : Stop) :
    Checked (Flow × Walk σ) := do
  inspect walk.registry []
  match stop with
  | .comment index => w.passCommentChecked file index walk
  | .node i => w.passNodeChecked file i walk

def passAllChecked (w : Watchers σ) (file : String) :
    List Stop → Walk σ → Checked (Flow × Walk σ)
  | [], walk => return (.continue, walk)
  | stop :: rest, walk => do
    match ← w.passChecked file walk stop with
    | (.continue, walk) => w.passAllChecked file rest walk
    | (flow, walk) => return (flow, walk)

/-! ### No checkpoint fails -/

variable {pending : List FollowUp}

theorem register_checked (h : r.Bounded) (supported : r.Supports pending) (doclets : List Doclet)
    (s : σ) :
    let done := w.register doclets r s
    w.registerChecked pending doclets r s = .ok done ∧ done.2.2.1.Bounded ∧
      r.doclets.size ≤ done.2.2.1.doclets.size ∧
      ∀ id ∈ done.2.1, id < done.2.2.1.doclets.size := by
  induction doclets generalizing r s with
  | nil => exact ⟨rfl, h, Nat.le_refl _, fun id none => nomatch none⟩
  | cons d rest ih =>
    rw [register_cons]
    dsimp only
    unfold registerChecked
    rw [bind_eq (inspect_eq_ok_iff.mpr ⟨h, supported⟩)]
    dsimp only
    generalize Handler.relay Handler.newDoclet w.handlers d s = shown
    have stored := Safely.addDoclet h shown.2.1
    obtain ⟨same, bounded, size, last⟩ := ih stored.bounded (supported.grow stored.size) shown.2.2
    generalize w.register rest (r.addDoclet shown.2.1).2 shown.2.2 = others
      at same bounded size last
    refine ⟨?_, bounded, Nat.le_trans stored.size size, fun id told => ?_⟩
    · rw [bind_eq (Checked.addDoclet_eq shown.2.1), bind_eq same]
      rfl
    · rcases Option.or_eq_some_iff.mp told with later | ⟨_, this⟩
      · exact last id later
      · rw [← Option.some.inj this]
        rw [Registry.doclets_size_addDoclet] at size
        exact size

theorem passComment_checked (file : String) (index : Nat) {walk : Walk σ}
    (h : walk.registry.Bounded) :
    w.passCommentChecked file index walk = .ok (w.passComment file index walk) ∧
      (w.passComment file index walk).2.registry.Bounded := by
  unfold passCommentChecked passComment
  cases walk.tree.comments[index]? with
  | none => exact ⟨rfl, h⟩
  | some comment =>
    dsimp only
    split
    · obtain ⟨same, bounded, _⟩ := w.register_checked h walk.registry.supports_nil _ _
      rw [same]
      exact ⟨rfl, bounded⟩
    · exact ⟨rfl, h⟩

theorem noteName_checked (h : r.Bounded) (t : Tree) (node : NodeRef) (kind : NodeKind)
    (code : Symbol) :
    let done := (declareName t node kind code r).2
    noteNameChecked t node code r = .ok done ∧ done.2.Bounded ∧ done.2.Supports done.1 := by
  unfold noteNameChecked declareName
  dsimp only
  split
  · exact ⟨rfl, h, r.supports_nil⟩
  · cases found : r.idOfNode? t (t.scope node) with
    | none => exact ⟨rfl, h, r.supports_nil⟩
    | some scope =>
      have declared := Safely.declare h (h.ofNode found) code.name none
      refine ⟨?_, declared.bounded, fun f waiting id held => ?_⟩
      · dsimp only
        rw [declared.ok]
        rfl
      · rw [List.mem_singleton.mp waiting] at held
        rw [List.mem_singleton.mp held]
        exact Nat.lt_of_lt_of_le (h.ofNode found) declared.size

theorem assigned_checked (t : Tree) (node : NodeRef) (kind : NodeKind) (code : Symbol)
    (h : (declareName t node kind code r).2.2.Bounded) :
    assignedChecked t node kind code (declareName t node kind code r).2.2 =
      .ok (declareName t node kind code r).1 := by
  unfold assignedChecked
  unfold declareName at h ⊢
  dsimp only at h ⊢
  split
  · cases Longname.basename? code.name with
    | none => rfl
    | some basename =>
      dsimp only
      split
      · rfl
      · rw [Checked.declaringScope_eq h]
        rfl
  · rfl

theorem declareName_checked (h : r.Bounded) (t : Tree) (node : NodeRef) (kind : NodeKind)
    (code : Symbol) :
    let done := declareName t node kind code r
    declareNameChecked t node kind code r = .ok done ∧ done.2.2.Bounded ∧
      done.2.2.Supports done.2.1 := by
  obtain ⟨noted, bounded, supported⟩ := noteName_checked h t node kind code
  refine ⟨?_, bounded, supported⟩
  unfold declareNameChecked
  rw [bind_eq noted]
  dsimp only
  rw [bind_eq (assigned_checked t node kind code bounded)]
  rfl

theorem prepare_checked (h : r.Bounded) (t : Tree) (node : NodeRef) (kind : NodeKind)
    (code : Symbol) :
    let done := prepare t node kind code r
    prepareChecked t node kind code r = .ok done ∧ done.2.2.Bounded ∧
      done.2.2.Supports done.2.1 := by
  have joins (followUps : List FollowUp) (free : ∀ f ∈ followUps, f.held = []) :
      r.Supports followUps := fun f waiting id held => by
    rw [free f waiting] at held
    cases held
  cases kind with
  | variableDeclarator => exact declareName_checked h t node .variableDeclarator code
  | assignmentExpression => exact declareName_checked h t node .assignmentExpression code
  | property => exact ⟨rfl, h, joins _ (by simp [prepare, FollowUp.held])⟩
  | methodDefinition =>
    refine ⟨rfl, h, joins _ fun f waiting => ?_⟩
    dsimp only [prepare] at waiting
    split at waiting
    · rw [List.mem_singleton.mp waiting]
      rfl
    · cases waiting
  | _ => exact ⟨rfl, h, r.supports_nil⟩

theorem symbolAt_checked (h : r.Bounded) (t : Tree) (file : String) (i : NodeIndex) :
    symbolAtChecked? t file i r = .ok (symbolAt? t file i r) ∧
      ∀ symbol ∈ symbolAt? t file i r, symbol.2.2.Bounded ∧ symbol.2.2.Supports symbol.2.1 := by
  unfold symbolAtChecked? symbolAt?
  cases t.nodes[i]? with
  | none => exact ⟨rfl, fun _ none => nomatch none⟩
  | some n =>
    cases Symbol.ofNode? t (some i) with
    | none => exact ⟨rfl, fun _ none => nomatch none⟩
    | some code =>
      obtain ⟨same, bounded, supported⟩ := prepare_checked h t (some i) n.kind code
      dsimp only
      rw [same]
      refine ⟨rfl, fun symbol told => ?_⟩
      rw [← Option.some.inj told]
      exact ⟨bounded, supported⟩

/-- The ids that were told remain good while what remains to be done changes the doclets. -/
theorem settle_safely (h : r.Bounded) (supported : r.Supports pending) (t : Tree)
    (event : SymbolFound) (last : Option DocletId) :
    (∀ id ∈ last, id < r.doclets.size) →
      Safely r (settleChecked t event pending last r)
        (Registry.registerNode
          (match last with
            | some id => pending.foldl (Registry.follow t (some event.node) event.code.name id) r
            | none => r)
          t event.code.node last event.code) := by
  intro known
  cases last with
  | none => exact Safely.registerNode h t event.code.node none (fun _ none => nomatch none) _
  | some id =>
    have followed := Safely.foldl h fun f waiting _ sound grown =>
      Safely.follow sound (Nat.lt_of_lt_of_le (known id rfl) grown) t (some event.node)
        event.code.name (supported.grow grown f waiting)
    refine followed.bind (Safely.registerNode followed.bounded t event.code.node (some id) ?_ _)
    exact fun other told => Option.some.inj told ▸ Nat.lt_of_lt_of_le (known id rfl) followed.size

theorem passNode_checked (file : String) (i : NodeIndex) {walk : Walk σ}
    (h : walk.registry.Bounded) :
    w.passNodeChecked file i walk = .ok (w.passNode file i walk) ∧
      (w.passNode file i walk).2.registry.Bounded := by
  unfold passNodeChecked passNode
  obtain ⟨same, ready⟩ := symbolAt_checked h walk.tree file i
  dsimp only
  rw [bind_eq same]
  cases found : symbolAt? walk.tree file i walk.registry with
  | none => exact ⟨rfl, h⟩
  | some symbol =>
    obtain ⟨event, followUps, r⟩ := symbol
    obtain ⟨bounded, supported⟩ : r.Bounded ∧ r.Supports followUps := ready _ found
    dsimp only
    rw [bind_eq (inspect_eq_ok_iff.mpr ⟨bounded, supported⟩)]
    generalize w.visitSymbol walk.tree file event walk.state = visited
    generalize Handler.relay (fun h => h.symbolFound ⟨r, walk.tree⟩) w.handlers visited.1
      visited.2 = shown
    obtain ⟨same, bounded, size, known⟩ :=
      w.register_checked bounded supported shown.2.1.doclets shown.2.2
    rw [bind_eq same]
    generalize w.register shown.2.1.doclets r shown.2.2 = done at bounded size known
    rw [bind_eq (inspect_eq_ok_iff.mpr ⟨bounded, supported.grow size⟩)]
    have settled := settle_safely bounded (supported.grow size) walk.tree shown.2.1 done.2.1 known
    refine ⟨?_, settled.bounded⟩
    rw [bind_eq settled.ok]
    rfl

theorem pass_checked (file : String) (stop : Stop) {walk : Walk σ} (h : walk.registry.Bounded) :
    w.passChecked file walk stop = .ok (w.pass file walk stop) ∧
      (w.pass file walk stop).2.registry.Bounded := by
  unfold passChecked
  rw [bind_eq (inspect_eq_ok_iff.mpr ⟨h, walk.registry.supports_nil⟩)]
  cases stop with
  | comment index => exact w.passComment_checked file index h
  | node i => exact w.passNode_checked file i h

theorem passAll_checked (file : String) (stops : List Stop) {walk : Walk σ}
    (h : walk.registry.Bounded) :
    w.passAllChecked file stops walk = .ok (w.passAll file stops walk) ∧
      (w.passAll file stops walk).2.registry.Bounded := by
  induction stops generalizing walk with
  | nil => exact ⟨rfl, h⟩
  | cons stop rest ih =>
    obtain ⟨same, bounded⟩ := w.pass_checked file stop h
    unfold passAllChecked passAll
    rw [bind_eq same]
    generalize w.pass file walk stop = passed at bounded
    obtain ⟨flow, walk'⟩ := passed
    cases flow with
    | «continue» => exact ih bounded
    | skipUnit => exact ⟨rfl, bounded⟩
    | abort => exact ⟨rfl, bounded⟩

end Watchers

/-! ### Runs -/

namespace Run

def walkChecked (run : Run σ) (file : String) (t : Tree) : Checked (Flow × Run σ) := do
  let (unit, r) := run.registry.nextUnit
  let t := { t with unit := unit }
  let (flow, walk) ← run.watchers.passAllChecked file t.stops ⟨t, r, run.state⟩
  return (flow, { run with
    registry := walk.registry, state := walk.state, files := run.files.push file })

def readSourceChecked (run : Run σ) (file source : String) : Checked (Flow × Run σ) :=
  let (flow, found, run) := run.relay Handler.sourceFound ⟨file, source⟩
  if flow.isContinue then
    match run.provider.build found.file found.source with
    | .ok t => run.walkChecked found.file t
    | .error e => return (.continue, run.report found.file (.notATree found.file e))
  else return (flow, run)

def readUnitChecked (run : Run σ) (disk : Disk) (encoding : Encoding) (file : String)
    (own : Option String) : Checked (Flow × Run σ) :=
  let source : Except UnitError String := match own with
    | some text => .ok ((Text.after? "\uFEFF" text).getD text)
    | none => disk.readText encoding file
  match source with
  | .error e => return (.continue, run.report file e)
  | .ok source =>
    if source.isEmpty then return (.continue, run) else run.readSourceChecked file source

def passUnitChecked (run : Run σ) (disk : Disk) (encoding : Encoding) (position : Nat)
    (unit : String) : Checked (Flow × Run σ) :=
  let (file, own) := nameUnit position unit
  match run.announce Handler.fileBegin file with
  | (.abort, run) => return (.abort, run)
  | (.skipUnit, run) => return (.continue, run)
  | (.continue, run) => do
    let (flow, run) ← run.readUnitChecked disk encoding file own
    let (complete, run) := run.announce Handler.fileComplete file
    return (if flow.merge complete = .abort then .abort else .continue, run)

def passUnitsChecked (disk : Disk) (encoding : Encoding) :
    Nat → List String → Run σ → Checked (Flow × Run σ)
  | _, [], run => return (.continue, run)
  | position, unit :: rest, run => do
    inspect run.registry []
    match ← run.passUnitChecked disk encoding position unit with
    | (.abort, run) => return (.abort, run)
    | (_, run) => passUnitsChecked disk encoding (position + 1) rest run

def passAllChecked (run : Run σ) (disk : Disk) (encoding : Encoding) (units : List String) :
    Checked (Flow × Run σ) :=
  match run.relay Handler.parseBegin units with
  | (.abort, _, run) => return (.abort, run)
  | (_, units, run) => do
    let (flow, run) ← passUnitsChecked disk encoding 0 units run
    let results ← Checked.resultDoclets run.registry
    let (complete, run) := run.announce Handler.parseComplete (run.files.toList, results)
    return (flow.merge complete, run)

def resolveAugmentsChecked (run : Run σ) : Checked (Run σ) := do
  return { run with registry := ← Checked.resolveAugments run.registry }

def resolveBorrowsChecked (run : Run σ) : Checked (Run σ) := do
  return { run with registry := ← Checked.resolveBorrows run.registry }

def addPackageChecked (run : Run σ) : Checked (Run σ) :=
  match run.manifest with
  | none => return run
  | some manifest => do
    let (_, _, r, s) ← run.watchers.registerChecked []
      [Doclet.ofManifest manifest run.files.toList] run.registry run.state
    return { run with registry := r, state := s }

def completeChecked (run : Run σ) : Checked (Flow × Run σ) := do
  return run.announce Handler.processingComplete (← Checked.resultDoclets run.registry)

/-- Completes what units have produced. -/
def finishChecked (run : Run σ) : Checked (Run σ) := do
  let run ← run.addPackageChecked
  let run ← run.resolveAugmentsChecked
  let run ← run.resolveBorrowsChecked
  return (← run.completeChecked).2

def processChecked (run : Run σ) (disk : Disk) (encoding : Encoding) (units : List String) :
    Checked (Run σ) := do
  match ← run.passAllChecked disk encoding units with
  | (.abort, run) => return run
  | (_, run) => run.finishChecked

def performChecked (run : Run σ) (operation : Operation σ) : Checked (Run σ) := do
  inspect run.registry []
  match operation with
  | .arrange provider watchers state manifest =>
    return { run with provider, watchers, state, manifest }
  | .walk file t => return (← run.walkChecked file t).2
  | .parse disk encoding units => return (← run.passAllChecked disk encoding units).2
  | .process disk encoding units => run.processChecked disk encoding units
  | .addPackage => run.addPackageChecked
  | .resolveAugments => run.resolveAugmentsChecked
  | .resolveBorrows => run.resolveBorrowsChecked
  | .complete => return (← run.completeChecked).2
  | .reset => return run.reset

variable {run : Run σ}

theorem walk_checked (h : run.registry.Bounded) (file : String) (t : Tree) :
    run.walkChecked file t = .ok (run.walk file t) ∧ (run.walk file t).2.registry.Bounded := by
  have begun : (⟨{ t with unit := run.registry.nextUnit.1 }, run.registry.nextUnit.2,
      run.state⟩ : Walk σ).registry.Bounded := h.nextUnit
  obtain ⟨same, bounded⟩ := run.watchers.passAll_checked file
    { t with unit := run.registry.nextUnit.1 }.stops begun
  unfold walkChecked
  refine ⟨?_, bounded⟩
  dsimp only at same ⊢
  rw [same]
  rfl

theorem lasting_bounded : Lasting σ Registry.Bounded where
  empty := Registry.bounded_empty
  walk _ file t h := (walk_checked h file t).2
  register w doclets _ s h := (w.register_checked h (Registry.supports_nil _) doclets s).2.1
  resolveAugments _ h := (Safely.resolveAugments h).bounded
  resolveBorrows _ h := (Safely.resolveBorrows h).bounded

variable (h : run.registry.Bounded) (disk : Disk) (encoding : Encoding)

include h

theorem readSource_checked (file source : String) :
    run.readSourceChecked file source = .ok (run.readSource file source) := by
  unfold readSourceChecked readSource
  generalize shown : run.relay Handler.sourceFound ⟨file, source⟩ = answer
  obtain ⟨flow, found, next⟩ := answer
  have kept : next.registry.Bounded := by
    have same := registry_relay Handler.sourceFound ⟨file, source⟩ run
    rw [shown] at same
    exact same ▸ h
  dsimp only
  split
  · cases next.provider.build found.file found.source with
    | ok t => exact (walk_checked kept found.file t).1
    | error e => rfl
  · rfl

theorem readUnit_checked (file : String) (own : Option String) :
    run.readUnitChecked disk encoding file own = .ok (run.readUnit disk encoding file own) := by
  have read (source : String) :
      (if source.isEmpty then return (.continue, run) else run.readSourceChecked file source :
        Checked (Flow × Run σ)) =
      .ok (if source.isEmpty then (.continue, run) else run.readSource file source) := by
    split
    · rfl
    · exact readSource_checked h file source
  unfold readUnitChecked readUnit
  cases own with
  | some text => exact read _
  | none =>
    dsimp only
    cases disk.readText encoding file with
    | error e => rfl
    | ok source => exact read source

theorem passUnit_checked (position : Nat) (unit : String) :
    run.passUnitChecked disk encoding position unit =
      .ok (run.passUnit disk encoding position unit) := by
  unfold passUnitChecked passUnit
  generalize nameUnit position unit = named
  obtain ⟨file, own⟩ := named
  dsimp only
  have begun : (run.announce Handler.fileBegin file).2.registry.Bounded := h
  generalize run.announce Handler.fileBegin file = announced at begun
  obtain ⟨flow, next⟩ := announced
  cases flow with
  | «continue» =>
    dsimp only
    rw [readUnit_checked begun]
    rfl
  | skipUnit => rfl
  | abort => rfl

theorem passUnits_checked (position : Nat) (units : List String) :
    passUnitsChecked disk encoding position units run =
      .ok (passUnits disk encoding position units run) := by
  induction units generalizing position run with
  | nil => rfl
  | cons unit rest ih =>
    have passed := lasting_bounded.passUnit h disk encoding position unit
    unfold passUnitsChecked passUnits
    rw [bind_eq (inspect_eq_ok_iff.mpr ⟨h, run.registry.supports_nil⟩),
      bind_eq (passUnit_checked h disk encoding position unit)]
    generalize run.passUnit disk encoding position unit = done at passed
    obtain ⟨flow, next⟩ := done
    cases flow with
    | abort => rfl
    | «continue» => exact ih passed _
    | skipUnit => exact ih passed _

theorem passAll_checked (units : List String) :
    run.passAllChecked disk encoding units = .ok (run.passAll disk encoding units) := by
  unfold passAllChecked passAll
  have begun : (run.relay Handler.parseBegin units).2.2.registry.Bounded := h
  generalize run.relay Handler.parseBegin units = shown at begun
  obtain ⟨flow, units, next⟩ := shown
  have ended : (do
      let (flow, run) ← passUnitsChecked disk encoding 0 units next
      let results ← Checked.resultDoclets run.registry
      let (complete, run) := run.announce Handler.parseComplete (run.files.toList, results)
      return (flow.merge complete, run) : Checked (Flow × Run σ)) =
      .ok (let (flow, run) := passUnits disk encoding 0 units next
        let (complete, run) := run.announce Handler.parseComplete (run.files.toList, run.results)
        (flow.merge complete, run)) := by
    have passed := lasting_bounded.passUnits begun disk encoding 0 units
    rw [bind_eq (passUnits_checked begun disk encoding 0 units)]
    dsimp only
    rw [bind_eq (Checked.resultDoclets_eq passed)]
    rfl
  cases flow with
  | abort => rfl
  | «continue» => exact ended
  | skipUnit => exact ended

theorem addPackage_checked : run.addPackageChecked = .ok run.addPackage := by
  unfold addPackageChecked addPackage
  cases run.manifest with
  | none => rfl
  | some manifest =>
    dsimp only
    rw [(run.watchers.register_checked h run.registry.supports_nil _ _).1]
    rfl

theorem resolveAugments_checked : run.resolveAugmentsChecked = .ok run.resolveAugments := by
  unfold resolveAugmentsChecked
  rw [(Safely.resolveAugments h).ok]
  rfl

theorem resolveBorrows_checked : run.resolveBorrowsChecked = .ok run.resolveBorrows := by
  unfold resolveBorrowsChecked
  rw [(Safely.resolveBorrows h).ok]
  rfl

theorem complete_checked : run.completeChecked = .ok run.complete := by
  unfold completeChecked
  rw [Checked.resultDoclets_eq h]
  rfl

theorem finish_checked :
    run.finishChecked = .ok run.addPackage.resolveAugments.resolveBorrows.complete.2 := by
  have packaged : run.addPackage.registry.Bounded := lasting_bounded.addPackage h
  have augmented : run.addPackage.resolveAugments.registry.Bounded :=
    (Safely.resolveAugments packaged).bounded
  have borrowed : run.addPackage.resolveAugments.resolveBorrows.registry.Bounded :=
    (Safely.resolveBorrows augmented).bounded
  unfold finishChecked
  rw [bind_eq (addPackage_checked h), bind_eq (resolveAugments_checked packaged),
    bind_eq (resolveBorrows_checked augmented), bind_eq (complete_checked borrowed)]
  rfl

theorem process_checked (units : List String) :
    run.processChecked disk encoding units = .ok (run.process disk encoding units) := by
  have passed := lasting_bounded.passAll h disk encoding units
  unfold processChecked process
  rw [passAll_checked h]
  generalize run.passAll disk encoding units = done at passed
  obtain ⟨flow, next⟩ := done
  cases flow with
  | abort => rfl
  | «continue» => exact finish_checked passed
  | skipUnit => exact finish_checked passed

theorem perform_checked (operation : Operation σ) :
    run.performChecked operation = .ok (run.perform operation) := by
  unfold performChecked
  rw [bind_eq (inspect_eq_ok_iff.mpr ⟨h, run.registry.supports_nil⟩)]
  cases operation with
  | arrange => rfl
  | walk file t =>
    dsimp only
    rw [bind_eq (walk_checked h file t).1]
    rfl
  | parse disk encoding units =>
    dsimp only
    rw [bind_eq (passAll_checked h disk encoding units)]
    rfl
  | process disk encoding units => exact process_checked h disk encoding units
  | addPackage => exact addPackage_checked h
  | resolveAugments => exact resolveAugments_checked h
  | resolveBorrows => exact resolveBorrows_checked h
  | complete =>
    dsimp only
    rw [bind_eq (complete_checked h)]
    rfl
  | reset => rfl

theorem operations_checked (operations : List (Operation σ)) :
    operations.foldlM performChecked run = .ok (operations.foldl perform run) := by
  induction operations generalizing run with
  | nil => rfl
  | cons operation rest ih =>
    rw [List.foldlM_cons, bind_eq (perform_checked h operation)]
    exact ih (lasting_bounded.perform h operation)

omit h

end Run

end Doclets
