import Doclets.Proofs.Pipeline.Completion
import Doclets.Proofs.Pipeline.Reading

/-!
Units that fail. With the handler that makes doclets and no other, a file that cannot be read, or
whose text gives no tree, leaves a diagnostic at most; so the other files of a run give the same
without it.
-/

namespace Doclets

/-- Why there is no tree of a file, if there is none. -/
def Provider.failure? (provider : Provider) (disk : Disk) (encoding : Encoding) (file : String) :
    Option UnitError :=
  match disk.readText encoding file with
  | .error e => some e
  | .ok text =>
    match provider.build file text with
    | .error e => some (.notATree file e)
    | .ok _ => none

namespace Run

/-- Runs that differ at most in their diagnostics and in the module that a unit has left. -/
structure Alike (a b : Run (Option String)) : Prop where
  provider : b.provider = a.provider
  watchers : b.watchers = a.watchers
  registry : b.registry = a.registry
  files : b.files = a.files
  manifest : b.manifest = a.manifest

namespace Alike

variable {a b c : Run (Option String)}

theorem refl (a : Run (Option String)) : a.Alike a := ⟨rfl, rfl, rfl, rfl, rfl⟩

theorem symm (alike : a.Alike b) : b.Alike a :=
  ⟨alike.provider.symm, alike.watchers.symm, alike.registry.symm, alike.files.symm,
    alike.manifest.symm⟩

theorem trans (first : a.Alike b) (second : b.Alike c) : a.Alike c :=
  ⟨second.provider.trans first.provider, second.watchers.trans first.watchers,
    second.registry.trans first.registry, second.files.trans first.files,
    second.manifest.trans first.manifest⟩

/-- Between units, the rest is told by what runs that are alike have in common. -/
theorem begun_eq (alike : a.Alike b) (state : Option String) : { b with state } =
    { a with state, diagnostics := b.diagnostics } := by
  obtain ⟨provider, watchers, registry, files, manifest⟩ := alike
  cases a
  cases b
  cases provider
  cases watchers
  cases registry
  cases files
  cases manifest
  rfl

end Alike

theorem ArrangedAs.documents {next run : Run (Option String)} (arranged : next.ArrangedAs run)
    (handlers : run.watchers.handlers = [Documenter.handler .whole]) :
    next.watchers.handlers = [Documenter.handler .whole] := by
  rw [arranged.watchers]
  exact handlers

/-! ### Runs that are alike -/

variable {run a b : Run (Option String)} {disk : Disk} {encoding : Encoding} {unit : String}
  {error : UnitError}

/-- What a unit adds does not depend on the diagnostics of the units before. -/
theorem readUnit_diagnostics (run : Run (Option String)) (disk : Disk) (encoding : Encoding)
    (file : String) (own : Option String) (diagnostics : Array Diagnostic) :
    let plain := run.readUnit disk encoding file own
    ∃ added, ({ run with diagnostics } : Run (Option String)).readUnit disk encoding file own =
      (plain.1, { plain.2 with diagnostics := added }) := by
  rw [readUnit_eq, readUnit_eq]
  cases sourceOf disk encoding file own with
  | error e => exact ⟨_, rfl⟩
  | ok source =>
    dsimp only
    split
    · exact ⟨_, rfl⟩
    · have asked : ({ run with diagnostics } : Run (Option String)).relay Handler.sourceFound
          ⟨file, source⟩ =
          let plain := run.relay Handler.sourceFound ⟨file, source⟩
          (plain.1, plain.2.1, { plain.2.2 with diagnostics }) := rfl
      unfold readSource
      rw [asked]
      generalize run.relay Handler.sourceFound ⟨file, source⟩ = answered
      obtain ⟨answer, found, next⟩ := answered
      dsimp only
      split
      · cases next.provider.build found.file found.source <;> exact ⟨_, rfl⟩
      · exact ⟨_, rfl⟩

/-- The ends of a unit leave the module, whatever was before. -/
theorem announce_leaving {ε : Type}
    (handlers : run.watchers.handlers = [Documenter.handler .whole])
    {answer : Handler (Option String) → Listener (Option String) ε}
    (leaves : answer (Documenter.handler .whole) = fun _ _ => (.continue, none)) (e : ε) :
    run.announce answer e = (.continue, { run with state := none }) := by
  unfold announce
  rw [handlers]
  unfold Handler.announce Handler.announce
  rw [leaves]
  rfl

/-- A unit between the checkpoints at its ends. -/
theorem passUnit_eq (handlers : run.watchers.handlers = [Documenter.handler .whole]) (disk : Disk)
    (encoding : Encoding) (position : Nat) (unit : String) :
    let named := nameUnit position unit
    let read := ({ run with state := none } : Run (Option String)).readUnit disk encoding
      named.1 named.2
    run.passUnit disk encoding position unit =
      (if read.1 = .abort then .abort else .continue, { read.2 with state := none }) := by
  have arranged := arranged_readUnit { run with state := none } disk encoding
    (nameUnit position unit).1 (nameUnit position unit).2
  rw [passUnit_of_begun (announce_leaving handlers rfl _)]
  dsimp only
  rw [announce_leaving (arranged.documents handlers) rfl, Flow.merge_continue]

/-- Runs that are alike stay alike. -/
theorem Alike.passUnit (alike : a.Alike b)
    (handlers : a.watchers.handlers = [Documenter.handler .whole]) (disk : Disk)
    (encoding : Encoding) (position : Nat) (unit : String) :
    (b.passUnit disk encoding position unit).1 = (a.passUnit disk encoding position unit).1 ∧
      (a.passUnit disk encoding position unit).2.Alike
        (b.passUnit disk encoding position unit).2 := by
  rw [passUnit_eq handlers, passUnit_eq (alike.watchers ▸ handlers), alike.begun_eq]
  dsimp only
  obtain ⟨added, same⟩ := readUnit_diagnostics { a with state := none } disk encoding
    (nameUnit position unit).1 (nameUnit position unit).2 b.diagnostics
  rw [same]
  exact ⟨rfl, rfl, rfl, rfl, rfl, rfl⟩

/-! ### Units that fail -/

/-- A source of which there is no tree leaves a diagnostic. -/
theorem readSource_of_failure (handlers : run.watchers.handlers = [Documenter.handler .whole])
    {file text : String} {error : TreeError}
    (failed : run.provider.build file text = .error error) :
    run.readSource file text = (.continue, run.report file (.notATree file error)) := by
  unfold readSource
  rw [relay_silent handlers rfl]
  dsimp only
  rw [if_pos (show Flow.isContinue .continue = true from rfl), failed]

theorem readUnit_of_failure (handlers : run.watchers.handlers = [Documenter.handler .whole])
    (failed : run.provider.failure? disk encoding unit = some error) :
    run.readUnit disk encoding unit none = (.continue, { run with
      diagnostics := if disk.readText encoding unit = .ok "" then run.diagnostics
        else run.diagnostics.push ⟨.error, unit, error.message⟩ }) := by
  rw [readUnit_eq, show sourceOf disk encoding unit none = disk.readText encoding unit from rfl]
  unfold Provider.failure? at failed
  cases found : disk.readText encoding unit with
  | error e =>
    rw [found] at failed
    cases failed
    rw [if_neg (by simp)]
    rfl
  | ok text =>
    rw [found] at failed
    dsimp only at failed ⊢
    cases built : run.provider.build unit text with
    | ok t =>
      rw [built] at failed
      cases failed
    | error e =>
      rw [built] at failed
      cases failed
      by_cases empty : text = ""
      · subst empty
        rfl
      · have filled : ¬ text.isEmpty = true := fun h => empty (String.isEmpty_iff.mp h)
        rw [if_neg filled, readSource_of_failure handlers built, if_neg (by simpa using empty)]
        rfl

/-- A file of which there is no tree changes nothing that lasts. It is named by a diagnostic,
unless it is empty. -/
theorem passUnit_of_failure (handlers : run.watchers.handlers = [Documenter.handler .whole])
    (path : Text.after? inlineMark unit = none)
    (failed : run.provider.failure? disk encoding unit = some error) (position : Nat) :
    run.passUnit disk encoding position unit = (.continue, { run with
      state := none
      diagnostics := if disk.readText encoding unit = .ok "" then run.diagnostics
        else run.diagnostics.push ⟨.error, unit, error.message⟩ }) := by
  have named : nameUnit position unit = (unit, none) := by
    unfold nameUnit
    rw [path]
  have begun : ({ run with state := none } : Run (Option String)).watchers.handlers =
      [Documenter.handler .whole] := handlers
  have read := readUnit_of_failure begun failed
  rw [passUnit_eq handlers, named]
  dsimp only
  rw [read]
  rfl

theorem passUnit_position (path : Text.after? inlineMark unit = none) (position other : Nat) :
    run.passUnit disk encoding position unit = run.passUnit disk encoding other unit := by
  unfold passUnit nameUnit
  rw [path]

/-- Runs that are alike stay so when one of them leaves the failing files out. -/
theorem Alike.passUnits_filter (alike : a.Alike b)
    (handlers : a.watchers.handlers = [Documenter.handler .whole]) (disk : Disk)
    (encoding : Encoding) (units : List String)
    (paths : ∀ unit ∈ units, Text.after? inlineMark unit = none) (position other : Nat) :
    let kept := units.filter fun unit => (a.provider.failure? disk encoding unit).isNone
    (passUnits disk encoding other kept b).1 = (passUnits disk encoding position units a).1 ∧
      (passUnits disk encoding position units a).2.Alike
        (passUnits disk encoding other kept b).2 := by
  induction units generalizing a b position other with
  | nil => exact ⟨rfl, alike⟩
  | cons unit rest ih =>
    have path := paths unit List.mem_cons_self
    have others : ∀ unit ∈ rest, Text.after? inlineMark unit = none := fun unit later =>
      paths unit (List.mem_cons_of_mem _ later)
    dsimp only
    cases failure : a.provider.failure? disk encoding unit with
    | some error =>
      have passed := passUnit_of_failure handlers path failure position
      rw [List.filter_cons_of_neg (by simp [failure]), passUnits, passed]
      have left : Alike a { a with
          state := none
          diagnostics := if disk.readText encoding unit = .ok "" then a.diagnostics
            else a.diagnostics.push ⟨.error, unit, error.message⟩ } := ⟨rfl, rfl, rfl, rfl, rfl⟩
      exact ih (left.symm.trans alike) handlers others (position + 1) other
    | none =>
      obtain ⟨flow, same⟩ := alike.passUnit handlers disk encoding position unit
      have arranged := arranged_passUnit a disk encoding position unit
      rw [List.filter_cons_of_pos (by simp [failure]), passUnits_cons, passUnits_cons,
        passUnit_position path other position, flow]
      split
      · exact ⟨flow, same⟩
      · rw [← arranged.provider]
        exact ih same (arranged.documents handlers) others (position + 1) (other + 1)

/-! ### Whole runs -/

/-- What a doclet is stored as does not depend on the module around it. -/
theorem registry_register {w : Watchers (Option String)}
    (handlers : w.handlers = [Documenter.handler .whole]) (doclets : List Doclet) (r : Registry)
    (s other : Option String) :
    (w.register doclets r s).2.2.1 = (w.register doclets r other).2.2.1 := by
  induction doclets generalizing r s other with
  | nil => rfl
  | cons d rest ih =>
    have shown (s : Option String) :
        Handler.relay Handler.newDoclet w.handlers d s = (.continue, d, s) := by
      rw [handlers]
      rfl
    rw [Watchers.register_cons, Watchers.register_cons, shown, shown]
    exact ih (r.addDoclet d).2 s other

theorem Alike.addPackage (alike : a.Alike b)
    (handlers : a.watchers.handlers = [Documenter.handler .whole]) :
    a.addPackage.Alike b.addPackage := by
  obtain ⟨provider, watchers, registry, files, manifest⟩ := alike
  have doclets : b.packageDoclets = a.packageDoclets := by
    unfold packageDoclets
    rw [manifest, files]
  rw [addPackage_eq, addPackage_eq, doclets, watchers, registry]
  exact ⟨provider, rfl, registry_register handlers _ _ _ _, files, manifest⟩

theorem Alike.resolve (alike : a.Alike b) :
    a.resolveAugments.resolveBorrows.Alike b.resolveAugments.resolveBorrows where
  provider := alike.provider
  watchers := alike.watchers
  registry := congrArg (fun r => r.resolveAugments.resolveBorrows) alike.registry
  files := alike.files
  manifest := alike.manifest

theorem complete_silent (handlers : run.watchers.handlers = [Documenter.handler .whole]) :
    run.complete.2 = run := by
  unfold complete
  rw [announce_silent handlers rfl]

theorem passAll_eq (handlers : run.watchers.handlers = [Documenter.handler .whole]) (disk : Disk)
    (encoding : Encoding) (units : List String) :
    run.passAll disk encoding units = passUnits disk encoding 0 units run := by
  have arranged := arranged_passUnits run disk encoding 0 units
  rw [passAll_of_begun (relay_silent handlers rfl units) (by decide)]
  dsimp only
  rw [announce_silent (arranged.documents handlers) rfl, Flow.merge_continue]

variable {units : List String}

/-- A run that has completed one reading of units is like one that has left the failing files
out. -/
theorem alike_process_filter (handlers : run.watchers.handlers = [Documenter.handler .whole])
    (disk : Disk) (encoding : Encoding)
    (paths : ∀ unit ∈ units, Text.after? inlineMark unit = none) :
    let kept := units.filter fun unit => (run.provider.failure? disk encoding unit).isNone
    (run.parse disk encoding units).Alike (run.parse disk encoding kept) ∧
      (run.process disk encoding units).Alike (run.process disk encoding kept) := by
  obtain ⟨flow, parsed⟩ := (Alike.refl run).passUnits_filter handlers disk encoding units paths 0 0
  rw [← passAll_eq handlers, ← passAll_eq handlers] at flow parsed
  refine ⟨parsed, ?_⟩
  by_cases ended : (run.passAll disk encoding units).1 = .abort
  · rw [process_of_abort ended, process_of_abort (flow.trans ended)]
    exact parsed
  · have read := arranged_parse run disk encoding units
    have completed := (parsed.addPackage (read.documents handlers)).resolve
    have documents :=
      ((arranged_resolve _).trans ((arranged_addPackage _).trans read)).documents handlers
    rw [process_of_ne_abort ended, process_of_ne_abort (flow ▸ ended),
      complete_silent documents, complete_silent (completed.watchers ▸ documents)]
    exact completed

/-- A file that cannot be read, or of which there is no tree, changes nothing that lasts, and is
named by a diagnostic unless it is empty. So what is read of files, and what a run completes of
that, is the same without those that fail. -/
theorem failing_units_leave_nothing
    (handlers : run.watchers.handlers = [Documenter.handler .whole]) (disk : Disk)
    (encoding : Encoding) :
    (∀ position unit error, Text.after? inlineMark unit = none →
      run.provider.failure? disk encoding unit = some error →
      run.passUnit disk encoding position unit = (.continue, { run with
        state := none
        diagnostics := if disk.readText encoding unit = .ok "" then run.diagnostics
          else run.diagnostics.push ⟨.error, unit, error.message⟩ })) ∧
    ∀ units, (∀ unit ∈ units, Text.after? inlineMark unit = none) →
      let kept := units.filter fun unit => (run.provider.failure? disk encoding unit).isNone
      (run.parse disk encoding kept).registry = (run.parse disk encoding units).registry ∧
      (run.parse disk encoding kept).files = (run.parse disk encoding units).files ∧
      (run.process disk encoding kept).registry = (run.process disk encoding units).registry ∧
      (run.process disk encoding kept).files = (run.process disk encoding units).files := by
  refine ⟨fun position unit error path failed => passUnit_of_failure handlers path failed position,
    fun units paths => ?_⟩
  obtain ⟨parsed, processed⟩ := alike_process_filter handlers disk encoding paths
  exact ⟨parsed.registry, parsed.files, processed.registry, processed.files⟩

end Run

/-! ### Files that fail -/

namespace FailingFiles

/-- A program with one documentation comment. -/
def program : String :=
  "\x7b\"type\":\"Program\",\"body\":[],\"comments\":" ++
    "[\x7b\"type\":\"Block\",\"value\":\"* @class A \"\x7d]\x7d"

/-- One file that is a program, beside files that stop early, are not valid text, or are empty. -/
def disk : Disk :=
  ⟨.directory [("good.json", .file program.toUTF8), ("early.json", .file "[".toUTF8),
    ("latin.json", .file ⟨#[0xE9]⟩), ("empty.json", .file ⟨#[]⟩)], "/"⟩

def run : Run (Option String) := .start .estree .documenting none

def units : List String :=
  ["latin.json", "early.json", "good.json", "empty.json", "missing.json"]

theorem kept_units :
    (units.filter fun unit => (run.provider.failure? disk .utf8 unit).isNone) =
      ["good.json"] := by
  decide +kernel

/-- The file that is a program gives the same on its own. -/
theorem leave_nothing_files :
    run.passUnit disk .utf8 0 "latin.json" = (.continue, { run with
      state := none
      diagnostics := #[⟨.error, "latin.json", "latin.json is not valid utf8"⟩] }) ∧
    (run.parse disk .utf8 ["good.json"]).registry = (run.parse disk .utf8 units).registry ∧
    (run.parse disk .utf8 ["good.json"]).files = (run.parse disk .utf8 units).files := by
  have handlers : run.watchers.handlers = [Documenter.handler .whole] := rfl
  obtain ⟨alone, all⟩ := Run.failing_units_leave_nothing handlers disk .utf8
  obtain ⟨registry, files, _⟩ := all units (by decide +kernel)
  rw [kept_units] at registry files
  refine ⟨?_, registry, files⟩
  rw [alone 0 "latin.json" (.undecodable "latin.json" .utf8) (by decide +kernel)
    (by decide +kernel), if_neg (by decide +kernel)]
  rfl

/-- An empty file is no program, and is not named by a diagnostic. -/
theorem empty_unnamed : disk.readText .utf8 "empty.json" = .ok "" ∧
    run.provider.failure? disk .utf8 "empty.json" = some (.notATree "empty.json" .invalidJson) ∧
    (run.parse disk .utf8 ["empty.json"]).diagnostics = #[] := by
  decide +kernel

end FailingFiles

end Doclets
