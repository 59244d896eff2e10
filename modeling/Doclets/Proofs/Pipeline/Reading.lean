import Doclets.Proofs.Pipeline.Documenting
import Doclets.Proofs.Tree.Units

/-!
The units of a run that only documents, one after the other. Nothing ends the run early, and a unit
that can be read adds what the walk of its tree adds; every walk begins outside any module.
-/

namespace Doclets

/-! ### Units -/

namespace Registry

open Watchers (documenting)

/-- The walk of the next unit, once it has passed some stops. -/
def walkTo (r : Registry) (file : String) (t : Tree) (stops : List Stop) :
    Walk (Option String) :=
  (documenting.passAll file stops ⟨t.inUnit r.units, r.nextUnit.2, none⟩).2

/-- What there is after the walk of the next unit. -/
def walked (r : Registry) (file : String) (t : Tree) : Registry :=
  (r.walkTo file t t.stops).registry

end Registry

/-! ### Runs -/

namespace Run

/-- The source of a unit. -/
def sourceOf (disk : Disk) (encoding : Encoding) (file : String) (own : Option String) :
    Except UnitError String :=
  match own with
  | some text => .ok ((Text.after? "\uFEFF" text).getD text)
  | none => disk.readText encoding file

theorem readUnit_eq {σ : Type} (run : Run σ) (disk : Disk) (encoding : Encoding) (file : String)
    (own : Option String) : run.readUnit disk encoding file own =
      match sourceOf disk encoding file own with
      | .error e => (.continue, run.report file e)
      | .ok source => if source.isEmpty then (.continue, run) else run.readSource file source :=
  rfl

/-- The tree that a unit is walked as, if it is walked. -/
def tree? {σ : Type} (run : Run σ) (disk : Disk) (encoding : Encoding)
    (unit : String × Option String) : Option Tree :=
  match sourceOf disk encoding unit.1 unit.2 with
  | .error _ => none
  | .ok source => if source.isEmpty then none else (run.provider.build unit.1 source).toOption

variable {run next : Run (Option String)} {disk : Disk} {encoding : Encoding} {position : Nat}
  {unit : String} {units more : List String}

/-- A run that only documents; it may have been asked anything before. -/
structure OnlyDocuments (run : Run (Option String)) : Prop where
  asked : ∃ provider watchers state operations,
    run = (operations : List (Operation (Option String))).foldl perform
      (start provider watchers state)
  watchers : run.watchers = .documenting

/-- A run after a unit, which adds what the walk of its tree adds, outside any module at first. -/
structure Passes (run : Run (Option String)) (disk : Disk) (encoding : Encoding)
    (unit : String × Option String) (next : Run (Option String)) : Prop where
  provider : next.provider = run.provider
  watchers : next.watchers = run.watchers
  registry : next.registry = match run.tree? disk encoding unit with
    | some t => run.registry.walked unit.1 t
    | none => run.registry

/-- Handlers that let a checkpoint pass change nothing. -/
theorem relay_silent {ε : Type} (handlers : run.watchers.handlers = [Documenter.handler .whole])
    {answer : Handler (Option String) → Editor (Option String) ε}
    (silent : answer (Documenter.handler .whole) = .silent) (e : ε) :
    run.relay answer e = (.continue, e, run) := by
  unfold relay
  rw [handlers]
  unfold Handler.relay Handler.relay
  rw [silent]
  rfl

theorem relay_documenting {ε : Type} (watchers : run.watchers = .documenting)
    {answer : Handler (Option String) → Editor (Option String) ε}
    (silent : answer (Documenter.handler .whole) = .silent) (e : ε) :
    run.relay answer e = (.continue, e, run) :=
  relay_silent (by rw [watchers]; rfl) silent e

theorem announce_silent {ε : Type}
    (handlers : run.watchers.handlers = [Documenter.handler .whole])
    {answer : Handler (Option String) → Listener (Option String) ε}
    (silent : answer (Documenter.handler .whole) = .silent) (e : ε) :
    run.announce answer e = (.continue, run) := by
  unfold announce
  rw [handlers]
  unfold Handler.announce Handler.announce
  rw [silent]
  rfl

theorem walk_documenting (watchers : run.watchers = .documenting) (begun : run.state = none)
    (file : String) (t : Tree) : (run.walk file t).1 = .continue ∧
      (run.walk file t).2.provider = run.provider ∧ (run.walk file t).2.watchers = run.watchers ∧
      (run.walk file t).2.registry = run.registry.walked file t := by
  refine ⟨?_, rfl, rfl, ?_⟩
  · unfold Run.walk
    dsimp only
    rw [watchers, Watchers.flow_passAll]
  · unfold Run.walk Registry.walked Registry.walkTo
    dsimp only
    rw [watchers, begun, ← t.stops_inUnit run.registry.units]
    rfl

theorem readUnit_documenting (watchers : run.watchers = .documenting) (begun : run.state = none)
    (disk : Disk) (encoding : Encoding) (file : String) (own : Option String) :
    (run.readUnit disk encoding file own).1 = .continue ∧
      run.Passes disk encoding (file, own) (run.readUnit disk encoding file own).2 := by
  have shown (source : String) : run.relay Handler.sourceFound ⟨file, source⟩ =
      (.continue, ⟨file, source⟩, run) := relay_documenting watchers rfl _
  rw [readUnit_eq]
  cases found : sourceOf disk encoding file own with
  | error e => exact ⟨rfl, rfl, rfl, by unfold tree?; rw [found]; rfl⟩
  | ok source =>
    dsimp only
    split
    next empty => exact ⟨rfl, rfl, rfl, by unfold tree?; rw [found]; dsimp only; rw [if_pos empty]⟩
    next filled =>
      have tree : run.tree? disk encoding (file, own) =
          (run.provider.build file source).toOption := by
        unfold tree?
        rw [found]
        exact if_neg filled
      unfold readSource
      rw [shown]
      dsimp only
      rw [if_pos (show Flow.isContinue .continue = true from rfl)]
      cases built : run.provider.build file source with
      | error e => exact ⟨rfl, rfl, rfl, by rw [tree, built]; rfl⟩
      | ok t =>
        obtain ⟨flow, provider, same, registry⟩ := walk_documenting watchers begun file t
        exact ⟨flow, provider, same, by rw [tree, built]; exact registry⟩

theorem passUnit_documenting (watchers : run.watchers = .documenting) (disk : Disk)
    (encoding : Encoding) (position : Nat) (unit : String) :
    ∃ next, run.passUnit disk encoding position unit = (.continue, next) ∧
      run.Passes disk encoding (nameUnit position unit) next := by
  have begun (file : String) :
      run.announce Handler.fileBegin file = (.continue, { run with state := none }) := by
    unfold announce
    rw [watchers]
    rfl
  unfold passUnit
  generalize nameUnit position unit = named
  obtain ⟨file, own⟩ := named
  dsimp only
  rw [begun]
  dsimp only
  have same : ({ run with state := none } : Run (Option String)).watchers = .documenting := watchers
  obtain ⟨flow, passes⟩ := readUnit_documenting same rfl disk encoding file own
  generalize readUnit _ disk encoding file own = read at flow passes
  have ended : (read.2.announce Handler.fileComplete file).1 = .continue := by
    unfold announce
    rw [passes.watchers, watchers]
    rfl
  refine ⟨(read.2.announce Handler.fileComplete file).2, ?_, passes.provider, passes.watchers, ?_⟩
  · rw [flow, ended]
    rfl
  · exact passes.registry

theorem passUnits_append (watchers : run.watchers = .documenting) (disk : Disk)
    (encoding : Encoding) (position : Nat) (units more : List String) :
    ∃ next, passUnits disk encoding position units run = (.continue, next) ∧
      next.provider = run.provider ∧ next.watchers = run.watchers ∧
      passUnits disk encoding position (units ++ more) run =
        passUnits disk encoding (position + units.length) more next := by
  induction units generalizing run position with
  | nil => exact ⟨run, rfl, rfl, rfl, rfl⟩
  | cons unit rest ih =>
    obtain ⟨next, passed, passes⟩ := passUnit_documenting watchers disk encoding position unit
    obtain ⟨last, done, provider, same, goes_on⟩ :=
      ih (passes.watchers.trans watchers) (position + 1)
    refine ⟨last, ?_, provider.trans passes.provider, same.trans passes.watchers, ?_⟩
    · unfold passUnits
      rw [passed]
      exact done
    · rw [List.cons_append, passUnits, passed]
      dsimp only
      rw [goes_on, List.length_cons, Nat.add_right_comm, Nat.add_assoc]

theorem parse_documenting (watchers : run.watchers = .documenting) (disk : Disk)
    (encoding : Encoding) (units : List String) : (run.parse disk encoding units).registry =
      (passUnits disk encoding 0 units run).2.registry := by
  unfold parse passAll
  rw [relay_documenting watchers rfl]
  rfl

/-- What a run that only documents has after one more unit. -/
theorem registry_parse_concat (watchers : run.watchers = .documenting) (disk : Disk)
    (encoding : Encoding) (units : List String) (unit : String) :
    let named := nameUnit units.length unit
    (run.parse disk encoding (units ++ [unit])).registry =
      match run.tree? disk encoding named with
      | some t => (run.parse disk encoding units).registry.walked named.1 t
      | none => (run.parse disk encoding units).registry := by
  obtain ⟨before, done, provider, same, goes_on⟩ :=
    passUnits_append watchers disk encoding 0 units [unit]
  obtain ⟨next, passed, passes⟩ := passUnit_documenting (same.trans watchers) disk encoding
    (0 + units.length) unit
  have tree : before.tree? disk encoding = run.tree? disk encoding := by
    unfold tree?
    rw [provider]
  have registry := passes.registry
  rw [tree, Nat.zero_add] at registry
  rw [parse_documenting watchers, parse_documenting watchers, goes_on, done, passUnits, passed]
  exact registry

/-- What the unit that is read next finds. -/
theorem OnlyDocuments.parse (h : run.OnlyDocuments) (disk : Disk) (encoding : Encoding)
    (units : List String) : let r := (run.parse disk encoding units).registry
    r.Sound ∧ r.Rooted ∧ r.Numbered := by
  obtain ⟨provider, watchers, state, operations, asked⟩ := h.asked
  have numbered : run.registry.Sound ∧ run.registry.Numbered := by
    rw [asked]
    exact lasting_numbered.operations ⟨Registry.sound_empty, Registry.numbered_empty⟩ operations
  have rooted : run.registry.Sound ∧ run.registry.Rooted := by
    rw [asked]
    exact lasting_rooted.operations ⟨Registry.sound_empty, Registry.rooted_empty⟩ operations
  have parsed := lasting_numbered.passAll numbered disk encoding units
  exact ⟨parsed.1, (lasting_rooted.passAll rooted disk encoding units).2, parsed.2⟩

end Run

end Doclets
