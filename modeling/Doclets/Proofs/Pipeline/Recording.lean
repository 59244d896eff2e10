import Doclets.Pipeline.Run

/-!
What handlers are asked in a run. A recorded handler does what it did before, and notes every
checkpoint that it is shown with its answer; so a recorded run does what the run does, and its
state tells which checkpoints were passed. A round is one checkpoint, as it goes through all
handlers.
-/

namespace Doclets

/-! ### Strongest requests -/

namespace Flow

/-- The strongest of several requests. -/
def strongest (flows : List Flow) : Flow := flows.foldr merge .continue

@[simp] theorem strongest_nil : strongest [] = .continue := rfl

@[simp] theorem strongest_cons (flow : Flow) (flows : List Flow) :
    strongest (flow :: flows) = flow.merge (strongest flows) := rfl

theorem strongest_append (first second : List Flow) :
    strongest (first ++ second) = (strongest first).merge (strongest second) := by
  induction first with
  | nil => simp
  | cons flow rest ih => rw [List.cons_append, strongest_cons, ih, strongest_cons, merge_assoc]

theorem strongest_eq_abort_iff {flows : List Flow} :
    strongest flows = .abort ↔ .abort ∈ flows := by
  induction flows with
  | nil => simp
  | cons flow rest ih =>
    rw [strongest_cons, merge_eq_abort_iff, ih, List.mem_cons, eq_comm]

end Flow

/-! ### Answers -/

/-- A checkpoint, with what a handler is shown there. -/
inductive Checkpoint where
  | parseBegin (units : List String)
  | fileBegin (file : String)
  | sourceFound (found : SourceFound)
  | commentFound (event : CommentFound)
  | symbolFound (event : SymbolFound)
  | newDoclet (d : Doclet)
  | fileComplete (file : String)
  | parseComplete (done : List String × List Doclet)
  | processingComplete (results : List Doclet)

/-- The doclets that were made at a checkpoint. -/
def Checkpoint.doclets : Checkpoint → List Doclet
  | .commentFound event => event.doclets
  | .symbolFound event => event.doclets
  | _ => []

/-- What one handler answers, called by its place among the handlers. -/
structure Answer where
  handler : Nat
  shown : Checkpoint
  /-- What it made of the checkpoint. -/
  left : Checkpoint
  flow : Flow

/-- Answers of handlers from a place on, one after the other, each about what the one before made
of the checkpoint. -/
def Follows : Nat → Checkpoint → List Answer → Prop
  | _, _, [] => True
  | place, shown, answer :: rest =>
    answer.handler = place ∧ answer.shown = shown ∧ Follows (place + 1) answer.left rest

/-- A checkpoint that is passed: all of `count` handlers are asked about it, in order. -/
structure Round (count : Nat) where
  shown : Checkpoint
  answers : List Answer
  complete : answers.length = count
  follows : Follows 0 shown answers

namespace Round

variable {count : Nat}

/-- What the handlers made of the checkpoint. -/
def left (round : Round count) : Checkpoint :=
  round.answers.foldl (fun _ answer => answer.left) round.shown

/-- The strongest of the answers. -/
def flow (round : Round count) : Flow := Flow.strongest (round.answers.map Answer.flow)

/-- The answers of several rounds. -/
def answersOf (rounds : List (Round count)) : List Answer := rounds.flatMap Round.answers

/-- The strongest of the answers of several rounds. -/
def strongest (rounds : List (Round count)) : Flow := Flow.strongest (rounds.map Round.flow)

@[simp] theorem answersOf_nil : answersOf ([] : List (Round count)) = [] := rfl

@[simp] theorem answersOf_cons (round : Round count) (rounds : List (Round count)) :
    answersOf (round :: rounds) = round.answers ++ answersOf rounds := rfl

theorem answersOf_singleton (round : Round count) : answersOf [round] = round.answers :=
  List.append_nil _

@[simp] theorem answersOf_append (first second : List (Round count)) :
    answersOf (first ++ second) = answersOf first ++ answersOf second :=
  List.flatMap_append

@[simp] theorem strongest_nil : strongest ([] : List (Round count)) = .continue := rfl

@[simp] theorem strongest_cons (round : Round count) (rounds : List (Round count)) :
    strongest (round :: rounds) = round.flow.merge (strongest rounds) := rfl

theorem strongest_singleton (round : Round count) : strongest [round] = round.flow :=
  Flow.merge_continue _

@[simp] theorem strongest_append (first second : List (Round count)) :
    strongest (first ++ second) = (strongest first).merge (strongest second) := by
  unfold strongest
  rw [List.map_append, Flow.strongest_append]

/-- The strongest answer of several rounds is the wish to end the run where one handler has it. -/
theorem strongest_eq_abort_iff {rounds : List (Round count)} :
    strongest rounds = .abort ↔ ∃ answer ∈ answersOf rounds, answer.flow = .abort := by
  induction rounds with
  | nil => simp
  | cons round rest ih =>
    have here : round.flow = .abort ↔ ∃ answer ∈ round.answers, answer.flow = .abort :=
      Flow.strongest_eq_abort_iff.trans List.mem_map
    rw [strongest_cons, Flow.merge_eq_abort_iff, here, ih, answersOf_cons]
    simp only [List.mem_append, or_and_right, exists_or]

end Round

/-! ### Recorded handlers -/

/-- The state of handlers, beside the answers that were recorded. -/
structure Recorded (σ : Type) where
  state : σ
  answers : List Answer

variable {σ ε : Type}

/-- A listener, as an editor that changes nothing. -/
def Listener.editor (answer : Listener σ ε) : Editor σ ε := fun e s =>
  let (flow, s) := answer e s
  (flow, e, s)

def Editor.recorded (place : Nat) (checkpoint : ε → Checkpoint) (answer : Editor σ ε) :
    Editor (Recorded σ) ε := fun e s =>
  let (flow, left, state) := answer e s.state
  (flow, left, ⟨state, s.answers ++ [⟨place, checkpoint e, checkpoint left, flow⟩]⟩)

def Listener.recorded (place : Nat) (checkpoint : ε → Checkpoint) (answer : Listener σ ε) :
    Listener (Recorded σ) ε := fun e s =>
  let (flow, state) := answer e s.state
  (flow, ⟨state, s.answers ++ [⟨place, checkpoint e, checkpoint e, flow⟩]⟩)

namespace Handler

/-- The handler at a place among others, with its answers recorded. -/
def recorded (place : Nat) (h : Handler σ) : Handler (Recorded σ) where
  parseBegin := h.parseBegin.recorded place .parseBegin
  fileBegin := h.fileBegin.recorded place .fileBegin
  sourceFound := h.sourceFound.recorded place .sourceFound
  commentFound := fun ctx => (h.commentFound ctx).recorded place .commentFound
  symbolFound := fun ctx => (h.symbolFound ctx).recorded place .symbolFound
  newDoclet := h.newDoclet.recorded place .newDoclet
  fileComplete := h.fileComplete.recorded place .fileComplete
  parseComplete := h.parseComplete.recorded place .parseComplete
  processingComplete := h.processingComplete.recorded place .processingComplete

/-- Several handlers, from a place on. -/
def recordedFrom (place : Nat) (handlers : List (Handler σ)) : List (Handler (Recorded σ)) :=
  (handlers.zipIdx place).map fun h => h.1.recorded h.2

/-- A recorded handler is asked by `noting` where the handler is asked by `answer`. -/
def Notes (answer : Handler σ → Editor σ ε) (noting : Handler (Recorded σ) → Editor (Recorded σ) ε)
    (checkpoint : ε → Checkpoint) : Prop :=
  ∀ place h, noting (recorded place h) = (answer h).recorded place checkpoint

/-- A recorded handler is told by `noting` where the handler is told by `answer`. -/
def Hears (answer : Handler σ → Listener σ ε)
    (noting : Handler (Recorded σ) → Listener (Recorded σ) ε) (checkpoint : ε → Checkpoint) :
    Prop :=
  ∀ place h, noting (recorded place h) = (answer h).recorded place checkpoint

theorem notes_parseBegin : Notes (@parseBegin σ) parseBegin .parseBegin := fun _ _ => rfl

theorem hears_fileBegin : Hears (@fileBegin σ) fileBegin .fileBegin := fun _ _ => rfl

theorem notes_sourceFound : Notes (@sourceFound σ) sourceFound .sourceFound := fun _ _ => rfl

theorem notes_commentFound (ctx : Context) : Notes (fun h : Handler σ => h.commentFound ctx)
    (fun h => h.commentFound ctx) .commentFound := fun _ _ => rfl

theorem notes_symbolFound (ctx : Context) : Notes (fun h : Handler σ => h.symbolFound ctx)
    (fun h => h.symbolFound ctx) .symbolFound := fun _ _ => rfl

theorem notes_newDoclet : Notes (@newDoclet σ) newDoclet .newDoclet := fun _ _ => rfl

theorem hears_fileComplete : Hears (@fileComplete σ) fileComplete .fileComplete := fun _ _ => rfl

theorem hears_parseComplete : Hears (@parseComplete σ) parseComplete .parseComplete :=
  fun _ _ => rfl

theorem hears_processingComplete :
    Hears (@processingComplete σ) processingComplete .processingComplete :=
  fun _ _ => rfl

variable {answer : Handler σ → Editor σ ε} {noting : Handler (Recorded σ) → Editor (Recorded σ) ε}
  {checkpoint : ε → Checkpoint}

/-- Recorded handlers make of a checkpoint what they made of it before, and note what each of them
is shown and answers. -/
theorem relay_recordedFrom (notes : Notes answer noting checkpoint)
    (handlers : List (Handler σ)) (place : Nat) (e : ε) (s : σ) (log : List Answer) :
    let plain := relay answer handlers e s
    ∃ answers : List Answer, answers.length = handlers.length ∧
      Follows place (checkpoint e) answers ∧
      answers.foldl (fun _ answer => answer.left) (checkpoint e) = checkpoint plain.2.1 ∧
      Flow.strongest (answers.map Answer.flow) = plain.1 ∧
      relay noting (recordedFrom place handlers) e ⟨s, log⟩ =
        (plain.1, plain.2.1, ⟨plain.2.2, log ++ answers⟩) := by
  induction handlers generalizing place e s log with
  | nil => exact ⟨[], rfl, trivial, rfl, rfl, by rw [List.append_nil]; rfl⟩
  | cons h rest ih =>
    let first := answer h e s
    let noted : Answer := ⟨place, checkpoint e, checkpoint first.2.1, first.1⟩
    obtain ⟨answers, length, follows, left, flow, told⟩ :=
      ih (place + 1) first.2.1 first.2.2 (log ++ [noted])
    have asked : noting (recorded place h) e ⟨s, log⟩ =
        (first.1, first.2.1, ⟨first.2.2, log ++ [noted]⟩) := by
      rw [notes]
      rfl
    refine ⟨noted :: answers, by simp [length], ⟨rfl, rfl, follows⟩, left, ?_, ?_⟩
    · rw [List.map_cons, Flow.strongest_cons, flow]
      rfl
    · unfold recordedFrom at told ⊢
      rw [List.zipIdx_cons, List.map_cons, relay]
      dsimp only
      rw [asked]
      dsimp only
      rw [told, List.append_assoc]
      rfl

theorem Hears.editor {answer : Handler σ → Listener σ ε}
    {noting : Handler (Recorded σ) → Listener (Recorded σ) ε}
    (hears : Hears answer noting checkpoint) :
    Notes (fun h => (answer h).editor) (fun h => (noting h).editor) checkpoint := fun place h => by
  dsimp only
  rw [hears]
  rfl

theorem relay_editor (answer : Handler σ → Listener σ ε) (handlers : List (Handler σ)) (e : ε)
    (s : σ) : relay (fun h => (answer h).editor) handlers e s =
      ((announce answer e handlers s).1, e, (announce answer e handlers s).2) := by
  induction handlers generalizing s with
  | nil => rfl
  | cons h rest ih =>
    unfold relay announce
    dsimp only [Listener.editor]
    rw [ih]

end Handler

/-! ### Recorded watchers -/

def Visitor.recorded (v : Visitor σ) : Visitor (Recorded σ) where
  node t i file s := { s with state := v.node t i file s.state }
  symbol t file event s :=
    let (event, state) := v.symbol t file event s.state
    (event, { s with state := state })

namespace Watchers

/-- The watchers of a run, with the answers of the handlers recorded. -/
def recorded (w : Watchers σ) : Watchers (Recorded σ) :=
  ⟨Handler.recordedFrom 0 w.handlers, w.visitors.map Visitor.recorded⟩

variable {noting : Handler (Recorded σ) → Editor (Recorded σ) ε} {checkpoint : ε → Checkpoint}

/-- Recorded handlers pass a checkpoint in one round. -/
theorem relay_recorded (w : Watchers σ) {answer : Handler σ → Editor σ ε}
    (notes : Handler.Notes answer noting checkpoint) (e : ε) (s : σ) (log : List Answer) :
    let plain := Handler.relay answer w.handlers e s
    ∃ round : Round w.handlers.length, round.shown = checkpoint e ∧
      round.left = checkpoint plain.2.1 ∧ round.flow = plain.1 ∧
      Handler.relay noting w.recorded.handlers e ⟨s, log⟩ =
        (plain.1, plain.2.1, ⟨plain.2.2, log ++ round.answers⟩) := by
  obtain ⟨answers, length, follows, left, flow, told⟩ :=
    Handler.relay_recordedFrom notes w.handlers 0 e s log
  exact ⟨⟨checkpoint e, answers, length, follows⟩, rfl, left, flow, told⟩

/-- Recorded handlers are told of a checkpoint in one round. -/
theorem announce_recorded (w : Watchers σ) {answer : Handler σ → Listener σ ε}
    {noting : Handler (Recorded σ) → Listener (Recorded σ) ε}
    (hears : Handler.Hears answer noting checkpoint) (e : ε) (s : σ) (log : List Answer) :
    let plain := Handler.announce answer e w.handlers s
    ∃ round : Round w.handlers.length, round.shown = checkpoint e ∧ round.flow = plain.1 ∧
      Handler.announce noting e w.recorded.handlers ⟨s, log⟩ =
        (plain.1, ⟨plain.2, log ++ round.answers⟩) := by
  obtain ⟨round, shown, _, flow, told⟩ := w.relay_recorded hears.editor e s log
  rw [Handler.relay_editor] at flow
  rw [Handler.relay_editor, Handler.relay_editor] at told
  have states := congrArg (fun answered => (answered.1, answered.2.2)) told
  exact ⟨round, shown, flow, states⟩

/-- Visitors see what they saw before. -/
theorem visitPlain_recorded (w : Watchers σ) (t : Tree) (file : String) (i : NodeIndex) (s : σ)
    (log : List Answer) : w.recorded.visitPlain t file i ⟨s, log⟩ =
      ⟨w.visitPlain t file i s, log⟩ := by
  unfold visitPlain recorded
  dsimp only
  induction w.visitors generalizing s with
  | nil => rfl
  | cons v rest ih => exact ih (v.node t i file s)

theorem visitSymbol_recorded (w : Watchers σ) (t : Tree) (file : String) (event : SymbolFound)
    (s : σ) (log : List Answer) : w.recorded.visitSymbol t file event ⟨s, log⟩ =
      ((w.visitSymbol t file event s).1, ⟨(w.visitSymbol t file event s).2, log⟩) := by
  unfold visitSymbol recorded
  dsimp only
  induction w.visitors generalizing event s with
  | nil => rfl
  | cons v rest ih => exact ih (v.symbol t file event s).1 (v.symbol t file event s).2

end Watchers

/-! ### Recorded runs -/

namespace Run

/-- A run that records the answers of its handlers from now on, behind those recorded so far. -/
def recorded (run : Run σ) (log : List Answer) : Run (Recorded σ) where
  provider := run.provider
  watchers := run.watchers.recorded
  state := ⟨run.state, log⟩
  registry := run.registry
  diagnostics := run.diagnostics
  files := run.files
  manifest := run.manifest

variable {checkpoint : ε → Checkpoint} {run : Run σ} {count : Nat}

/-- A checkpoint of a recorded run that handlers may change is passed in one round. -/
theorem relay_recorded {answer : Handler σ → Editor σ ε}
    {noting : Handler (Recorded σ) → Editor (Recorded σ) ε}
    (notes : Handler.Notes answer noting checkpoint)
    (asked : run.watchers.handlers.length = count) (e : ε) (log : List Answer) :
    let plain := run.relay answer e
    ∃ round : Round count, round.shown = checkpoint e ∧ round.left = checkpoint plain.2.1 ∧
      round.flow = plain.1 ∧ (run.recorded log).relay noting e =
        (plain.1, plain.2.1, plain.2.2.recorded (log ++ round.answers)) := by
  subst asked
  obtain ⟨round, shown, left, flow, told⟩ := run.watchers.relay_recorded notes e run.state log
  refine ⟨round, shown, left, flow, ?_⟩
  unfold relay
  rw [show Handler.relay noting (run.recorded log).watchers.handlers e (run.recorded log).state =
    _ from told]
  rfl

/-- A checkpoint of a recorded run that handlers are told of is passed in one round. -/
theorem announce_recorded {answer : Handler σ → Listener σ ε}
    {noting : Handler (Recorded σ) → Listener (Recorded σ) ε}
    (hears : Handler.Hears answer noting checkpoint)
    (asked : run.watchers.handlers.length = count) (e : ε) (log : List Answer) :
    let plain := run.announce answer e
    ∃ round : Round count, round.shown = checkpoint e ∧ round.flow = plain.1 ∧
      (run.recorded log).announce noting e =
        (plain.1, plain.2.recorded (log ++ round.answers)) := by
  subst asked
  obtain ⟨round, shown, flow, told⟩ := run.watchers.announce_recorded hears e run.state log
  refine ⟨round, shown, flow, ?_⟩
  unfold announce
  rw [show Handler.announce noting e (run.recorded log).watchers.handlers
    (run.recorded log).state = _ from told]
  rfl

end Run

end Doclets
