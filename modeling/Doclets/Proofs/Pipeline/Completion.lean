import Doclets.Proofs.Pipeline.Protocol

/-!
What a whole run asks after its units. A handler that wishes to end the run while the units are read
keeps everything else from it. About the doclet of the package the handlers are asked only after
that, and the run is completed whatever they answer.
-/

namespace Doclets

variable {σ : Type} {count : Nat}

namespace Run

/-- The doclets that are added for the package. -/
def packageDoclets (run : Run σ) : List Doclet :=
  (run.manifest.map fun manifest => Doclet.ofManifest manifest run.files.toList).toList

theorem addPackage_eq (run : Run σ) : run.addPackage =
    let stored := run.watchers.register run.packageDoclets run.registry run.state
    { run with registry := stored.2.2.1, state := stored.2.2.2 } := by
  obtain ⟨provider, watchers, state, registry, diagnostics, files, manifest⟩ := run
  cases manifest <;> rfl

variable {run : Run σ} {disk : Disk} {encoding : Encoding} {units : List String}

/-- The doclet of the package is shown in one round. -/
theorem addPackage_recorded (asked : run.watchers.handlers.length = count) (log : List Answer) :
    ∃ rounds : List (Round count),
      rounds.map Round.shown = run.packageDoclets.map Checkpoint.newDoclet ∧
      (run.recorded log).addPackage = run.addPackage.recorded (log ++ Round.answersOf rounds) := by
  subst asked
  obtain ⟨rounds, shown, _, told⟩ :=
    run.watchers.register_recorded run.packageDoclets run.registry run.state log
  refine ⟨rounds, shown, ?_⟩
  rw [addPackage_eq, addPackage_eq]
  exact congrArg (fun stored => ({ run.recorded log with
    registry := stored.2.2.1, state := stored.2.2.2 } : Run (Recorded σ))) told

theorem arranged_addPackage (run : Run σ) : run.addPackage.ArrangedAs run := by
  rw [addPackage_eq]
  exact ⟨rfl, rfl, rfl⟩

theorem arranged_resolve (run : Run σ) : run.resolveAugments.resolveBorrows.ArrangedAs run :=
  ⟨rfl, rfl, rfl⟩

theorem resolve_recorded (run : Run σ) (log : List Answer) :
    (run.recorded log).resolveAugments.resolveBorrows =
      run.resolveAugments.resolveBorrows.recorded log :=
  rfl

theorem complete_recorded (asked : run.watchers.handlers.length = count) (log : List Answer) :
    ∃ round : Round count, round.shown = .processingComplete run.results ∧
      (run.recorded log).complete.2 = run.complete.2.recorded (log ++ round.answers) := by
  obtain ⟨round, shown, _, told⟩ :=
    announce_recorded Handler.hears_processingComplete asked run.results log
  exact ⟨round, shown, congrArg Prod.snd told⟩

/-- What is left of a run that no handler wished to end while the units were read. -/
theorem process_of_ne_abort (goes_on : (run.passAll disk encoding units).1 ≠ .abort) :
    run.process disk encoding units =
      (run.parse disk encoding units).addPackage.resolveAugments.resolveBorrows.complete.2 := by
  unfold process parse
  generalize run.passAll disk encoding units = passed at goes_on
  obtain ⟨flow, next⟩ := passed
  cases flow <;> first | exact absurd rfl goes_on | rfl

/-- A run that a handler wished to end while the units were read is left as it is then. -/
theorem process_of_abort (ended : (run.passAll disk encoding units).1 = .abort) :
    run.process disk encoding units = run.parse disk encoding units := by
  unfold process parse
  generalize run.passAll disk encoding units = passed at ended
  obtain ⟨flow, next⟩ := passed
  cases ended
  rfl

/-- A run is completed, and its members are inherited and borrowed, exactly when no handler wished
to end it while the units were read. The answers about the doclet of the package come later and
prevent nothing. -/
theorem process_completes_unless_ended (run : Run σ) (disk : Disk) (encoding : Encoding)
    (units : List String) :
    let parsed := run.parse disk encoding units
    let processed := run.process disk encoding units
    ∃ read added completed : List (Round run.watchers.handlers.length),
      (run.recorded []).process disk encoding units =
        processed.recorded (Round.answersOf (read ++ added ++ completed)) ∧
      ParseRounds run.watchers run.provider disk encoding
        (parsed.files.toList, parsed.results) units read ∧
      ((∃ answer ∈ Round.answersOf read, answer.flow = .abort) →
        added = [] ∧ completed = [] ∧ processed = parsed) ∧
      ((∀ answer ∈ Round.answersOf read, answer.flow ≠ .abort) →
        added.map Round.shown = parsed.packageDoclets.map Checkpoint.newDoclet ∧
        processed = parsed.addPackage.resolveAugments.resolveBorrows.complete.2 ∧
        completed.map Round.shown = [.processingComplete processed.results]) := by
  obtain ⟨read, passed, ends, told⟩ :=
    passAll_recorded (Eq.refl run.watchers.handlers.length) disk encoding units []
  rw [Round.strongest_eq_abort_iff] at ends
  rw [List.nil_append] at told
  have flow : ((run.recorded []).passAll disk encoding units).1 =
      (run.passAll disk encoding units).1 := by rw [told]
  have parsed : (run.recorded []).parse disk encoding units =
      (run.parse disk encoding units).recorded (Round.answersOf read) := by
    unfold parse
    rw [told]
  by_cases ended : (run.passAll disk encoding units).1 = .abort
  · refine ⟨read, [], [], ?_, passed, fun _ => ⟨rfl, rfl, process_of_abort ended⟩, ?_⟩
    · rw [process_of_abort ended, process_of_abort (flow.trans ended), parsed,
        List.append_nil, List.append_nil]
    · intro goes_on
      obtain ⟨answer, given, abort⟩ := ends.mp ended
      exact absurd abort (goes_on answer given)
  · have goes_on : ((run.recorded []).passAll disk encoding units).1 ≠ .abort := flow ▸ ended
    have arranged := arranged_parse run disk encoding units
    have packaged := (arranged_addPackage (run.parse disk encoding units)).trans arranged
    obtain ⟨added, shown, stored⟩ :=
      addPackage_recorded (arranged.asked rfl) (Round.answersOf read)
    obtain ⟨complete, completed, last⟩ := complete_recorded
      ((arranged_resolve _).trans packaged |>.asked rfl)
      (Round.answersOf read ++ Round.answersOf added)
    refine ⟨read, added, [complete], ?_, passed, fun abort => absurd (ends.mpr abort) ended,
      fun _ => ⟨shown, process_of_ne_abort ended, ?_⟩⟩
    · rw [process_of_ne_abort ended, process_of_ne_abort goes_on, parsed, stored,
        resolve_recorded, last, Round.answersOf_append, Round.answersOf_append,
        Round.answersOf_singleton]
    · rw [process_of_ne_abort ended]
      exact congrArg (fun shown => [shown]) completed

end Run

/-! ### A package that is to be the end -/

namespace AbortedPackage

/-- Wishes to end the run at every new doclet. -/
def handler : Handler Unit where
  newDoclet := fun d s => (.abort, d, s)

/-- A run without units, with the doclet of a package that has no name. -/
def run : Run Unit := { Run.start .estree ⟨[handler], []⟩ () with manifest := some .null }

def disk : Disk := ⟨.directory [], "/"⟩

def package : Doclet := .ofManifest .null []

/-- The run is completed although its handler has answered with the wish to end it. -/
theorem completes_after_abort : ((run.recorded []).process disk .utf8 []).state.answers =
    [⟨0, .parseBegin [], .parseBegin [], .continue⟩,
      ⟨0, .parseComplete ([], []), .parseComplete ([], []), .continue⟩,
      ⟨0, .newDoclet package, .newDoclet package, .abort⟩,
      ⟨0, .processingComplete [package], .processingComplete [package], .continue⟩] := by
  rfl

end AbortedPackage

end Doclets
