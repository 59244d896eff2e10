import Doclets.Proofs.Pipeline.Failures

/-!
Starting anew. A run with the handler that makes doclets and no other keeps nothing from one request
to the next but what it has produced, so that a run that has forgotten that is as good as a new one
with the same manifest. The module of the unit that was read last is the one thing that forgetting
leaves alone; the beginning of the next unit overwrites it before it is read.
-/

namespace Doclets

/-- What the owner of a run asks of it. -/
inductive Request where
  /-- To add the doclet of a package when units are processed from now on. -/
  | setPackage (manifest : Json.Value)
  | parse (disk : Disk) (encoding : Encoding) (units : List String)
  | process (disk : Disk) (encoding : Encoding) (units : List String)
  | resolveAugments
  | resolveBorrows
  | reset

namespace Run

def serve {σ : Type} (run : Run σ) : Request → Run σ
  | .setPackage manifest => { run with manifest := some manifest }
  | .parse disk encoding units => run.parse disk encoding units
  | .process disk encoding units => run.process disk encoding units
  | .resolveAugments => run.resolveAugments
  | .resolveBorrows => run.resolveBorrows
  | .reset => run.reset

variable {run created : Run (Option String)} {disk : Disk} {encoding : Encoding}

/-! ### A module that was left behind -/

/-- Doclets are stored without a look at the module around them. -/
theorem register_module {w : Watchers (Option String)}
    (handlers : w.handlers = [Documenter.handler .whole]) (doclets : List Doclet) (r : Registry)
    (module : Option String) : (w.register doclets r module).2.2.2 = module := by
  induction doclets generalizing r with
  | nil => rfl
  | cons d rest ih =>
    have shown : Handler.relay Handler.newDoclet w.handlers d module = (.continue, d, module) := by
      rw [handlers]
      rfl
    rw [Watchers.register_cons, shown]
    exact ih _

/-- A unit begins outside any module, whatever the units before it have left. -/
theorem passUnit_module (handlers : run.watchers.handlers = [Documenter.handler .whole])
    (module : Option String) (disk : Disk) (encoding : Encoding) (position : Nat) (unit : String) :
    ({ run with state := module } : Run (Option String)).passUnit disk encoding position unit =
      run.passUnit disk encoding position unit := by
  have others : ({ run with state := module } : Run (Option String)).watchers.handlers =
      [Documenter.handler .whole] := handlers
  rw [passUnit_eq handlers, passUnit_eq others]

/-- Units leave no module behind, but where there is no unit the one before stays. -/
theorem passUnits_module (handlers : run.watchers.handlers = [Documenter.handler .whole])
    (module : Option String) (disk : Disk) (encoding : Encoding) (position : Nat)
    (units : List String) :
    let plain := passUnits disk encoding position units run
    passUnits disk encoding position units { run with state := module } =
      (plain.1, { plain.2 with state := if units = [] then module else plain.2.state }) := by
  intro plain
  cases units with
  | nil => rfl
  | cons unit rest =>
    have same : passUnits disk encoding position (unit :: rest) { run with state := module } =
        plain := by
      rw [passUnits_cons, passUnit_module handlers, ← passUnits_cons]
    rw [same, if_neg (List.cons_ne_nil _ _)]

theorem addPackage_module (handlers : run.watchers.handlers = [Documenter.handler .whole])
    (module : Option String) : ({ run with state := module } : Run (Option String)).addPackage =
      { run.addPackage with state := module } := by
  have stored := registry_register handlers run.packageDoclets run.registry module run.state
  have left := register_module handlers run.packageDoclets run.registry module
  rw [addPackage_eq, addPackage_eq,
    show ({ run with state := module } : Run (Option String)).packageDoclets =
      run.packageDoclets from rfl]
  dsimp only
  rw [stored, left]

/-- With handlers that take no interest in the ends of things, units are processed by reading them
one after another and completing what that has produced. -/
theorem process_eq (handlers : run.watchers.handlers = [Documenter.handler .whole]) (disk : Disk)
    (encoding : Encoding) (units : List String) :
    let passed := passUnits disk encoding 0 units run
    run.process disk encoding units =
      if passed.1 = .abort then passed.2
      else passed.2.addPackage.resolveAugments.resolveBorrows := by
  intro passed
  have parsed : run.passAll disk encoding units = passed := passAll_eq handlers disk encoding units
  by_cases ended : passed.1 = .abort
  · rw [if_pos ended, process_of_abort (parsed ▸ ended)]
    exact congrArg Prod.snd parsed
  · have read := arranged_parse run disk encoding units
    have documents :=
      ((arranged_resolve _).trans ((arranged_addPackage _).trans read)).documents handlers
    rw [if_neg ended, process_of_ne_abort (parsed ▸ ended), complete_silent documents]
    exact congrArg (fun p : Flow × Run (Option String) =>
      p.2.addPackage.resolveAugments.resolveBorrows) parsed

/-- What units are processed to does not depend on a module that was left behind. -/
theorem process_module (handlers : run.watchers.handlers = [Documenter.handler .whole])
    (module : Option String) (disk : Disk) (encoding : Encoding) (units : List String) :
    ∃ left, ({ run with state := module } : Run (Option String)).process disk encoding units =
      { run.process disk encoding units with state := left } := by
  have others : ({ run with state := module } : Run (Option String)).watchers.handlers =
      [Documenter.handler .whole] := handlers
  have passed := passUnits_module handlers module disk encoding 0 units
  have read := (arranged_passUnits run disk encoding 0 units).documents handlers
  rw [process_eq others, process_eq handlers, passed]
  refine ⟨if units = [] then module else (passUnits disk encoding 0 units run).2.state, ?_⟩
  dsimp only
  generalize passUnits disk encoding 0 units run = plain at read
  split
  · rfl
  · rw [addPackage_module read]
    generalize plain.2.addPackage = packaged
    rfl

/-! ### Between requests -/

/-- A run between two requests: it is arranged as it was created, and outside any module. -/
structure Rests (created run : Run (Option String)) : Prop where
  provider : run.provider = created.provider
  watchers : run.watchers = created.watchers
  state : run.state = none

theorem Rests.arranged {next : Run (Option String)} (rests : run.Rests next)
    (provider : run.provider = created.provider) (watchers : run.watchers = created.watchers) :
    created.Rests next :=
  ⟨rests.provider.trans provider, rests.watchers.trans watchers, rests.state⟩

theorem Rests.resolved (rests : created.Rests run) :
    created.Rests run.resolveAugments.resolveBorrows := by
  have arranged := arranged_resolve run
  have state : run.resolveAugments.resolveBorrows.state = run.state := rfl
  exact ⟨arranged.provider.trans rests.provider, arranged.watchers.trans rests.watchers,
    state.trans rests.state⟩

theorem rests_passUnits (handlers : run.watchers.handlers = [Documenter.handler .whole])
    (outside : run.state = none) (disk : Disk) (encoding : Encoding) (position : Nat)
    (units : List String) : run.Rests (passUnits disk encoding position units run).2 := by
  induction units generalizing run position with
  | nil => exact ⟨rfl, rfl, outside⟩
  | cons unit rest ih =>
    have arranged := arranged_passUnit run disk encoding position unit
    have left : (run.passUnit disk encoding position unit).2.state = none := by
      rw [passUnit_eq handlers]
    rw [passUnits_cons]
    split
    · exact ⟨arranged.provider, arranged.watchers, left⟩
    · exact (ih (arranged.documents handlers) left (position + 1)).arranged arranged.provider
        arranged.watchers

theorem rests_addPackage (handlers : run.watchers.handlers = [Documenter.handler .whole])
    (outside : run.state = none) : run.Rests run.addPackage := by
  rw [addPackage_eq]
  exact ⟨rfl, rfl, (register_module handlers _ _ _).trans outside⟩

theorem rests_process (handlers : run.watchers.handlers = [Documenter.handler .whole])
    (outside : run.state = none) (disk : Disk) (encoding : Encoding) (units : List String) :
    run.Rests (run.process disk encoding units) := by
  have parsed := rests_passUnits handlers outside disk encoding 0 units
  rw [process_eq handlers]
  generalize passUnits disk encoding 0 units run = plain at parsed
  split
  · exact parsed
  · have documents : plain.2.watchers.handlers = [Documenter.handler .whole] := by
      rw [parsed.watchers, handlers]
    have packaged := rests_addPackage documents parsed.state
    exact packaged.resolved.arranged parsed.provider parsed.watchers

/-- A request leaves a run that rests at rest. -/
theorem Rests.serve (rests : created.Rests run)
    (handlers : created.watchers.handlers = [Documenter.handler .whole]) (request : Request) :
    created.Rests (run.serve request) := by
  have documents : run.watchers.handlers = [Documenter.handler .whole] := by
    rw [rests.watchers]
    exact handlers
  cases request with
  | parse disk encoding units =>
    have parsed := rests_passUnits documents rests.state disk encoding 0 units
    rw [← passAll_eq documents] at parsed
    exact parsed.arranged rests.provider rests.watchers
  | process disk encoding units =>
    exact (rests_process documents rests.state disk encoding units).arranged rests.provider
      rests.watchers
  | setPackage | resolveAugments | resolveBorrows | reset =>
    exact ⟨rests.provider, rests.watchers, rests.state⟩

theorem Rests.serve_all (rests : created.Rests run)
    (handlers : created.watchers.handlers = [Documenter.handler .whole])
    (requests : List Request) : created.Rests (requests.foldl Run.serve run) := by
  induction requests generalizing run with
  | nil => exact rests
  | cons request rest ih => exact ih (rests.serve handlers request)

/-- Once it has forgotten what it produced, a run that rests differs from a new one in its manifest
at most. -/
theorem Rests.reset_eq {provider : Provider} {watchers : Watchers (Option String)}
    (rests : (start provider watchers none).Rests run) :
    run.reset = { start provider watchers none with manifest := run.manifest } := by
  obtain ⟨own, same, outside⟩ := rests
  unfold Run.reset start
  rw [own, same, outside]
  rfl

theorem eq_start_of_documenting {backend : Option String}
    (made : documenting backend = .ok created) :
    ∃ provider, created = start provider ⟨[Documenter.handler .whole], []⟩ none := by
  unfold documenting at made
  split at made
  next => cases made
  next provider _ => exact ⟨provider, (Except.ok.inj made).symm⟩

/-- Whatever a run was asked before, once it has forgotten what it produced it processes units to
the same results, look-ups, registrations, diagnostics and files as a new run with the same
manifest; and so it would if its handler had kept the longname of a module. -/
theorem process_reset {backend : Option String} (made : documenting backend = .ok created)
    (requests : List Request) (disk : Disk) (encoding : Encoding) (units : List String) :
    let used := requests.foldl serve created
    let new := ({ created with manifest := used.manifest } : Run (Option String)).process disk
      encoding units
    used.reset.process disk encoding units = new ∧
      ∀ module : Option String, ∃ left,
        ({ used.reset with state := module } : Run (Option String)).process disk encoding units =
          { new with state := left } := by
  obtain ⟨provider, rfl⟩ := eq_start_of_documenting made
  intro used new
  have rests : (start provider ⟨[Documenter.handler .whole], []⟩ none).Rests used :=
    Rests.serve_all ⟨rfl, rfl, rfl⟩ rfl requests
  have forgotten : used.reset.process disk encoding units = new := by
    rw [rests.reset_eq]
  refine ⟨forgotten, fun module => ?_⟩
  have handlers : used.reset.watchers.handlers = [Documenter.handler .whole] := by
    rw [rests.reset_eq]
    rfl
  obtain ⟨left, same⟩ := process_module handlers module disk encoding units
  exact ⟨left, same.trans (congrArg (fun run => { run with state := left }) forgotten)⟩

end Run

/-! ### A run that was used -/

namespace UsedRun

/-- A unit that declares a module and has a function in it. -/
def unit : String :=
  inlineMark ++ "\x7b\"type\":\"Program\",\"comments\":" ++
    "[\x7b\"type\":\"Block\",\"value\":\"* @module m \"\x7d],\"body\":" ++
    "[\x7b\"type\":\"FunctionDeclaration\",\"id\":" ++
    "\x7b\"type\":\"Identifier\",\"name\":\"f\"\x7d,\"params\":[]\x7d]\x7d"

def disk : Disk := ⟨.directory [], "/"⟩

def created : Run (Option String) := .start .estree ⟨[Documenter.handler .whole], []⟩ none

/-- A unit that fails, one that is read twice, inherited members between, and a package. -/
def requests : List Request :=
  [.parse disk .utf8 ["missing.json", unit], .resolveAugments, .process disk .latin1 [unit],
    .setPackage .null]

/-- What was read before is not read again. -/
theorem process_reset_module : Run.documenting none = .ok created ∧
    (requests.foldl Run.serve created).reset.process disk .utf8 [unit] =
      ({ created with manifest := some .null } : Run (Option String)).process disk .utf8 [unit] :=
  ⟨rfl, (Run.process_reset (show Run.documenting none = .ok created from rfl) requests disk .utf8
    [unit]).1⟩

end UsedRun

end Doclets
