import Doclets.Proofs.Pipeline.Reading
import Doclets.Proofs.Pipeline.Visits

/-!
The checkpoints of a run, in rounds. A unit that is begun is read, shown to the handlers, walked
and completed; its beginning, its source and every visit of its walk may end it early. The wish to
end the run is the only one that goes beyond a unit, and it leaves out the units that follow, but
never the end of what was begun.
-/

namespace Doclets

variable {σ ε : Type} {count : Nat}

/-! ### The form of a run -/

/-- The text of a unit, if there is one that is not empty. -/
def Run.textOf (disk : Disk) (encoding : Encoding) (unit : String × Option String) :
    Option String :=
  match sourceOf disk encoding unit.1 unit.2 with
  | .ok text => if text.isEmpty then none else some text
  | .error _ => none

/-- The rounds of a unit between its beginning and its end. -/
inductive SourceRounds (w : Watchers σ) (provider : Provider) (file : String) :
    Option String → List (Round count) → Prop
  | missing : SourceRounds w provider file none []
  /-- The handlers want the source left out. -/
  | refused {text before} (shown : before.shown = .sourceFound ⟨file, text⟩)
    (answered : before.flow ≠ .continue) : SourceRounds w provider file (some text) [before]
  /-- There is no tree of what the handlers left of the source. -/
  | failed {text before found error} (shown : before.shown = .sourceFound ⟨file, text⟩)
    (answered : before.flow = .continue) (left : before.left = .sourceFound found)
    (built : provider.build found.file found.source = .error error) :
    SourceRounds w provider file (some text) [before]
  | walked {text before found t number visits flow}
    (shown : before.shown = .sourceFound ⟨file, text⟩) (answered : before.flow = .continue)
    (left : before.left = .sourceFound found)
    (built : provider.build found.file found.source = .ok t)
    (walked : Walked (w.Shows (t.inUnit number) found.file) t.announced visits flow) :
    SourceRounds w provider file (some text) (before :: Visit.roundsOf visits)

/-- The rounds of a unit, by its file name and the text that is found for it. -/
inductive UnitRounds (w : Watchers σ) (provider : Provider) (file : String)
    (text : Option String) : List (Round count) → Prop
  | refused {begin} (shown : begin.shown = .fileBegin file) (answered : begin.flow ≠ .continue) :
    UnitRounds w provider file text [begin]
  | passed {begin rounds complete} (shown : begin.shown = .fileBegin file)
    (answered : begin.flow = .continue) (read : SourceRounds w provider file text rounds)
    (completed : complete.shown = .fileComplete file) :
    UnitRounds w provider file text (begin :: (rounds ++ [complete]))

/-- The rounds of units from a position on, until a handler wants to end the run. -/
inductive UnitsRounds (w : Watchers σ) (provider : Provider) (disk : Disk) (encoding : Encoding) :
    Nat → List String → List (Round count) → Prop
  | done {position} : UnitsRounds w provider disk encoding position [] []
  | goesOn {position unit units rounds more}
    (passed : UnitRounds w provider (Run.nameUnit position unit).1
      (Run.textOf disk encoding (Run.nameUnit position unit)) rounds)
    (answered : Round.strongest rounds ≠ .abort)
    (rest : UnitsRounds w provider disk encoding (position + 1) units more) :
    UnitsRounds w provider disk encoding position (unit :: units) (rounds ++ more)
  | ends {position unit units rounds}
    (passed : UnitRounds w provider (Run.nameUnit position unit).1
      (Run.textOf disk encoding (Run.nameUnit position unit)) rounds)
    (answered : Round.strongest rounds = .abort) :
    UnitsRounds w provider disk encoding position (unit :: units) rounds

/-- The rounds of a run over units. At its end the handlers are told what is `done`: the files that
were read, and all results. -/
inductive ParseRounds (w : Watchers σ) (provider : Provider) (disk : Disk) (encoding : Encoding)
    (done : List String × List Doclet) : List String → List (Round count) → Prop
  | refused {units begin} (shown : begin.shown = .parseBegin units)
    (answered : begin.flow = .abort) : ParseRounds w provider disk encoding done units [begin]
  | passed {units begin left rounds complete} (shown : begin.shown = .parseBegin units)
    (answered : begin.flow ≠ .abort) (changed : begin.left = .parseBegin left)
    (rest : UnitsRounds w provider disk encoding 0 left rounds)
    (completed : complete.shown = .parseComplete done) :
    ParseRounds w provider disk encoding done units (begin :: (rounds ++ [complete]))

/-! ### Who takes part -/

namespace Run

/-- Both runs have the same provider, watchers and manifest. -/
structure ArrangedAs (next run : Run σ) : Prop where
  provider : next.provider = run.provider
  watchers : next.watchers = run.watchers
  manifest : next.manifest = run.manifest

theorem ArrangedAs.refl (run : Run σ) : run.ArrangedAs run := ⟨rfl, rfl, rfl⟩

theorem ArrangedAs.trans {a b c : Run σ} (first : a.ArrangedAs b) (second : b.ArrangedAs c) :
    a.ArrangedAs c :=
  ⟨first.provider.trans second.provider, first.watchers.trans second.watchers,
    first.manifest.trans second.manifest⟩

theorem ArrangedAs.asked {next run : Run σ} (arranged : next.ArrangedAs run)
    (asked : run.watchers.handlers.length = count) : next.watchers.handlers.length = count := by
  rw [arranged.watchers]
  exact asked

theorem arranged_readUnit (run : Run σ) (disk : Disk) (encoding : Encoding) (file : String)
    (own : Option String) : (run.readUnit disk encoding file own).2.ArrangedAs run := by
  rw [readUnit_eq]
  split
  · exact ⟨rfl, rfl, rfl⟩
  · split
    · exact .refl run
    · unfold readSource
      dsimp only
      split
      · split <;> exact ⟨rfl, rfl, rfl⟩
      · exact ⟨rfl, rfl, rfl⟩

/-- A unit that is not to be read is left at its beginning. -/
theorem passUnit_of_refused {run next : Run σ} {disk : Disk} {encoding : Encoding}
    {position : Nat} {unit : String} {answer : Flow}
    (begun : run.announce Handler.fileBegin (nameUnit position unit).1 = (answer, next))
    (refused : answer ≠ .continue) : run.passUnit disk encoding position unit =
      (if answer = .abort then .abort else .continue, next) := by
  unfold passUnit
  dsimp only
  rw [begun]
  cases answer <;> first | exact absurd rfl refused | rfl

/-- A unit that is to be read is read and completed. -/
theorem passUnit_of_begun {run next : Run σ} {disk : Disk} {encoding : Encoding}
    {position : Nat} {unit : String}
    (begun : run.announce Handler.fileBegin (nameUnit position unit).1 = (.continue, next)) :
    run.passUnit disk encoding position unit =
      let named := nameUnit position unit
      let read := next.readUnit disk encoding named.1 named.2
      let complete := read.2.announce Handler.fileComplete named.1
      (if read.1.merge complete.1 = .abort then .abort else .continue, complete.2) := by
  unfold passUnit
  dsimp only
  rw [begun]

theorem arranged_passUnit (run : Run σ) (disk : Disk) (encoding : Encoding) (position : Nat)
    (unit : String) : (run.passUnit disk encoding position unit).2.ArrangedAs run := by
  let named := nameUnit position unit
  have begun : (run.announce Handler.fileBegin named.1).2.ArrangedAs run := ⟨rfl, rfl, rfl⟩
  cases told : run.announce Handler.fileBegin named.1 with
  | mk answer next =>
  rw [told] at begun
  by_cases goes_on : answer = .continue
  · subst goes_on
    have read := (arranged_readUnit next disk encoding named.1 named.2).trans begun
    rw [passUnit_of_begun told]
    exact ⟨read.provider, read.watchers, read.manifest⟩
  · rw [passUnit_of_refused told goes_on]
    exact begun

theorem passUnits_cons (run : Run σ) (disk : Disk) (encoding : Encoding)
    (position : Nat) (unit : String) (rest : List String) :
    let passed := run.passUnit disk encoding position unit
    passUnits disk encoding position (unit :: rest) run =
      if passed.1 = .abort then passed
      else passUnits disk encoding (position + 1) rest passed.2 := by
  rw [passUnits]
  dsimp only
  generalize run.passUnit disk encoding position unit = passed
  obtain ⟨flow, next⟩ := passed
  cases flow <;> rfl

theorem arranged_passUnits (run : Run σ) (disk : Disk) (encoding : Encoding) (position : Nat)
    (units : List String) : (passUnits disk encoding position units run).2.ArrangedAs run := by
  induction units generalizing run position with
  | nil => exact .refl run
  | cons unit rest ih =>
    have passed := arranged_passUnit run disk encoding position unit
    rw [passUnits_cons]
    split
    · exact passed
    · exact (ih _ _).trans passed

/-- A run that is not ended at its beginning passes its units and ends after them. -/
theorem passAll_of_begun {run next : Run σ} {disk : Disk} {encoding : Encoding}
    {units left : List String} {answer : Flow}
    (begun : run.relay Handler.parseBegin units = (answer, left, next))
    (goes_on : answer ≠ .abort) :
    run.passAll disk encoding units =
      let passed := passUnits disk encoding 0 left next
      let done := (passed.2.files.toList, passed.2.results)
      (passed.1.merge (passed.2.announce Handler.parseComplete done).1,
        (passed.2.announce Handler.parseComplete done).2) := by
  unfold passAll
  rw [begun]
  cases answer <;> first | exact absurd rfl goes_on | rfl

theorem arranged_passAll (run : Run σ) (disk : Disk) (encoding : Encoding) (units : List String) :
    (run.passAll disk encoding units).2.ArrangedAs run := by
  have begun : (run.relay Handler.parseBegin units).2.2.ArrangedAs run := ⟨rfl, rfl, rfl⟩
  cases told : run.relay Handler.parseBegin units with
  | mk answer more =>
  obtain ⟨left, next⟩ := more
  rw [told] at begun
  by_cases refused : answer = .abort
  · subst refused
    unfold passAll
    rw [told]
    exact begun
  · have passed := (arranged_passUnits next disk encoding 0 left).trans begun
    rw [passAll_of_begun told refused]
    exact ⟨passed.provider, passed.watchers, passed.manifest⟩

theorem arranged_parse (run : Run σ) (disk : Disk) (encoding : Encoding) (units : List String) :
    (run.parse disk encoding units).ArrangedAs run :=
  arranged_passAll run disk encoding units

/-! ### Recorded runs -/

variable {run : Run σ}

/-- What is asked about a source is the same when the answers are recorded. -/
theorem readSource_recorded (asked : run.watchers.handlers.length = count) (file text : String)
    (log : List Answer) : let plain := run.readSource file text
    ∃ rounds : List (Round count),
      SourceRounds run.watchers run.provider file (some text) rounds ∧
      Round.strongest rounds = plain.1 ∧ (run.recorded log).readSource file text =
        (plain.1, plain.2.recorded (log ++ Round.answersOf rounds)) := by
  obtain ⟨before, shown, left, flow, told⟩ :=
    relay_recorded Handler.notes_sourceFound asked ⟨file, text⟩ log
  have arranged : (run.relay Handler.sourceFound ⟨file, text⟩).2.2.ArrangedAs run :=
    ⟨rfl, rfl, rfl⟩
  unfold readSource
  rw [told]
  generalize run.relay Handler.sourceFound ⟨file, text⟩ = answered at left flow arranged
  obtain ⟨answer, found, next⟩ := answered
  dsimp only at left flow arranged ⊢
  by_cases goes_on : answer = .continue
  · subst goes_on
    simp only [show Flow.isContinue .continue = true from rfl, if_pos]
    rw [show (next.recorded (log ++ before.answers)).provider = run.provider from
      arranged.provider, arranged.provider]
    cases built : run.provider.build found.file found.source with
    | error error =>
      exact ⟨[before], .failed shown flow left built, (Round.strongest_singleton _).trans flow, by
        rw [Round.answersOf_singleton]; rfl⟩
    | ok t =>
      obtain ⟨visits, walked, done⟩ :=
        walk_recorded (arranged.asked asked) found.file t (log ++ before.answers)
      rw [arranged.watchers] at walked
      refine ⟨before :: Visit.roundsOf visits, .walked shown flow left built walked, ?_, ?_⟩
      · rw [Round.strongest_cons, flow, walked.strongest_eq, Flow.continue_merge]
      · dsimp only
        rw [done, Round.answersOf_cons, List.append_assoc]
  · have stops : answer.isContinue = false := by
      cases answer <;> first | exact absurd rfl goes_on | rfl
    rw [stops, if_neg Bool.false_ne_true, if_neg Bool.false_ne_true]
    exact ⟨[before], .refused shown (flow ▸ goes_on),
      (Round.strongest_singleton _).trans flow, by rw [Round.answersOf_singleton]⟩

theorem readUnit_recorded (asked : run.watchers.handlers.length = count) (disk : Disk)
    (encoding : Encoding) (unit : String × Option String) (log : List Answer) :
    let plain := run.readUnit disk encoding unit.1 unit.2
    ∃ rounds : List (Round count),
      SourceRounds run.watchers run.provider unit.1 (textOf disk encoding unit) rounds ∧
      Round.strongest rounds = plain.1 ∧
      (run.recorded log).readUnit disk encoding unit.1 unit.2 =
        (plain.1, plain.2.recorded (log ++ Round.answersOf rounds)) := by
  rw [readUnit_eq, readUnit_eq]
  unfold textOf
  cases sourceOf disk encoding unit.1 unit.2 with
  | error e => exact ⟨[], .missing, rfl, by rw [Round.answersOf_nil, List.append_nil]; rfl⟩
  | ok text =>
    dsimp only
    by_cases empty : text.isEmpty = true
    · rw [if_pos empty, if_pos empty, if_pos empty]
      exact ⟨[], .missing, rfl, by rw [Round.answersOf_nil, List.append_nil]⟩
    · rw [if_neg empty, if_neg empty, if_neg empty]
      exact readSource_recorded asked unit.1 text log

/-- The checkpoints of a unit are passed in rounds of the form of a unit. Of the answers, only the
wish to end the run goes beyond the unit. -/
theorem passUnit_recorded (asked : run.watchers.handlers.length = count) (disk : Disk)
    (encoding : Encoding) (position : Nat) (unit : String) (log : List Answer) :
    let plain := run.passUnit disk encoding position unit
    let named := nameUnit position unit
    ∃ rounds : List (Round count),
      UnitRounds run.watchers run.provider named.1 (textOf disk encoding named) rounds ∧
      plain.1 = (if Round.strongest rounds = .abort then .abort else .continue) ∧
      (run.recorded log).passUnit disk encoding position unit =
        (plain.1, plain.2.recorded (log ++ Round.answersOf rounds)) := by
  intro plain named
  obtain ⟨begin, shown, flow, told⟩ :=
    announce_recorded Handler.hears_fileBegin asked named.1 log
  have arranged : (run.announce Handler.fileBegin named.1).2.ArrangedAs run := ⟨rfl, rfl, rfl⟩
  cases begun : run.announce Handler.fileBegin named.1 with
  | mk answer next =>
  rw [begun] at flow told arranged
  dsimp only [plain] at flow told arranged ⊢
  by_cases goes_on : answer = .continue
  · subst goes_on
    obtain ⟨rounds, read, strongest, done⟩ :=
      readUnit_recorded (arranged.asked asked) disk encoding named (log ++ begin.answers)
    have kept := (arranged_readUnit next disk encoding named.1 named.2).trans arranged
    rw [arranged.watchers, arranged.provider] at read
    rw [passUnit_of_begun begun, passUnit_of_begun told]
    dsimp only
    rw [done]
    generalize next.readUnit disk encoding named.1 named.2 = passed at strongest kept
    obtain ⟨complete, completed, ended, last⟩ :=
      announce_recorded Handler.hears_fileComplete (kept.asked asked) named.1
        (log ++ begin.answers ++ Round.answersOf rounds)
    refine ⟨begin :: (rounds ++ [complete]), .passed shown flow read completed, ?_, ?_⟩
    · rw [Round.strongest_cons, Round.strongest_append, flow, strongest,
        Round.strongest_singleton, ended, Flow.continue_merge]
    · dsimp only
      rw [last, Round.answersOf_cons, Round.answersOf_append,
        Round.answersOf_singleton]
      simp only [List.append_assoc, named]
  · rw [passUnit_of_refused begun goes_on, passUnit_of_refused told goes_on]
    refine ⟨[begin], .refused shown (flow ▸ goes_on), ?_, by rw [Round.answersOf_singleton]⟩
    rw [Round.strongest_singleton, flow]

theorem passUnits_recorded (asked : run.watchers.handlers.length = count) (disk : Disk)
    (encoding : Encoding) (position : Nat) (units : List String) (log : List Answer) :
    let plain := passUnits disk encoding position units run
    ∃ rounds : List (Round count),
      UnitsRounds run.watchers run.provider disk encoding position units rounds ∧
      plain.1 = (if Round.strongest rounds = .abort then .abort else .continue) ∧
      passUnits disk encoding position units (run.recorded log) =
        (plain.1, plain.2.recorded (log ++ Round.answersOf rounds)) := by
  induction units generalizing run position log with
  | nil => exact ⟨[], .done, rfl, by rw [Round.answersOf_nil, List.append_nil]; rfl⟩
  | cons unit rest ih =>
    obtain ⟨rounds, passed, flow, told⟩ :=
      passUnit_recorded asked disk encoding position unit log
    have arranged := arranged_passUnit run disk encoding position unit
    rw [passUnits_cons, passUnits_cons, told]
    generalize run.passUnit disk encoding position unit = done at flow arranged
    dsimp only
    by_cases ends : Round.strongest rounds = .abort
    · have ended : done.1 = .abort := flow.trans (if_pos ends)
      rw [if_pos ended, if_pos ended]
      exact ⟨rounds, .ends passed ends, flow, rfl⟩
    · have goes_on : done.1 ≠ .abort := by
        rw [flow, if_neg ends]
        decide
      rw [if_neg goes_on, if_neg goes_on]
      obtain ⟨more, others, strongest, last⟩ :=
        ih (arranged.asked asked) (position + 1) (log ++ Round.answersOf rounds)
      rw [arranged.watchers, arranged.provider] at others
      refine ⟨rounds ++ more, .goesOn passed ends others, ?_, ?_⟩
      · rw [strongest, Round.strongest_append]
        simp only [Flow.merge_eq_abort_iff, ends, false_or]
      · rw [last, Round.answersOf_append, List.append_assoc]

/-- The checkpoints of a run over units are passed in rounds of the form of a run; it tells of the
wish to end the run exactly when a handler has answered with it. -/
theorem passAll_recorded (asked : run.watchers.handlers.length = count) (disk : Disk)
    (encoding : Encoding) (units : List String) (log : List Answer) :
    let plain := run.passAll disk encoding units
    ∃ rounds : List (Round count),
      ParseRounds run.watchers run.provider disk encoding
        (plain.2.files.toList, plain.2.results) units rounds ∧
      (plain.1 = .abort ↔ Round.strongest rounds = .abort) ∧
      (run.recorded log).passAll disk encoding units =
        (plain.1, plain.2.recorded (log ++ Round.answersOf rounds)) := by
  obtain ⟨begin, shown, changed, flow, told⟩ :=
    relay_recorded Handler.notes_parseBegin asked units log
  have arranged : (run.relay Handler.parseBegin units).2.2.ArrangedAs run := ⟨rfl, rfl, rfl⟩
  cases begun : run.relay Handler.parseBegin units with
  | mk answer more =>
  obtain ⟨left, next⟩ := more
  rw [begun] at changed flow told arranged
  dsimp only at changed flow told arranged ⊢
  by_cases refused : answer = .abort
  · subst refused
    have ended : run.passAll disk encoding units = (.abort, next) := by
      unfold passAll
      rw [begun]
    have recorded : (run.recorded log).passAll disk encoding units =
        (.abort, next.recorded (log ++ begin.answers)) := by
      unfold passAll
      rw [told]
    rw [ended, recorded]
    refine ⟨[begin], .refused shown flow, ?_, by rw [Round.answersOf_singleton]⟩
    rw [Round.strongest_singleton, flow]
  · obtain ⟨rounds, passed, strongest, recorded⟩ :=
      passUnits_recorded (arranged.asked asked) disk encoding 0 left (log ++ begin.answers)
    have kept := (arranged_passUnits next disk encoding 0 left).trans arranged
    rw [arranged.watchers, arranged.provider] at passed
    rw [passAll_of_begun begun refused, passAll_of_begun told refused]
    dsimp only
    rw [recorded]
    generalize passUnits disk encoding 0 left next = done at strongest kept
    obtain ⟨complete, completed, ended, last⟩ :=
      announce_recorded Handler.hears_parseComplete (kept.asked asked)
        (done.2.files.toList, done.2.results) (log ++ begin.answers ++ Round.answersOf rounds)
    refine ⟨begin :: (rounds ++ [complete]),
      .passed shown (flow ▸ refused) changed passed completed, ?_, ?_⟩
    · have units_end : done.1 = .abort ↔ Round.strongest rounds = .abort := by
        rw [strongest]
        split
        next ends => exact ⟨fun _ => ends, fun _ => rfl⟩
        next goes_on => exact ⟨nofun, fun ends => absurd ends goes_on⟩
      rw [Round.strongest_cons, Round.strongest_append, Round.strongest_singleton]
      simp only [Flow.merge_eq_abort_iff, flow, refused, ended, units_end, false_or]
    · rw [Round.answersOf_cons, Round.answersOf_append, Round.answersOf_singleton,
        ← List.append_assoc, ← List.append_assoc]
      exact congrArg (fun told => (done.1.merge told.1, told.2)) last

/-- One reading of units passes its checkpoints in rounds, each of which asks all handlers in order:
at the beginning, for one unit after the other, and at the end. -/
theorem parse_in_rounds (run : Run σ) (disk : Disk) (encoding : Encoding) (units : List String) :
    let parsed := run.parse disk encoding units
    ∃ rounds : List (Round run.watchers.handlers.length),
      ParseRounds run.watchers run.provider disk encoding
        (parsed.files.toList, parsed.results) units rounds ∧
      (run.recorded []).parse disk encoding units = parsed.recorded (Round.answersOf rounds) := by
  obtain ⟨rounds, passed, _, told⟩ :=
    passAll_recorded (Eq.refl run.watchers.handlers.length) disk encoding units []
  refine ⟨rounds, passed, ?_⟩
  unfold parse
  rw [told, List.nil_append]

end Run

end Doclets
