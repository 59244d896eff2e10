import Doclets.Proofs.Pipeline.Recording
import Doclets.Proofs.Pipeline.Retention
import Doclets.Proofs.Tree.Announcing
import Doclets.Proofs.Tree.Units

/-!
What the handlers are asked during a walk. The walk visits what is announced in its tree, one stop
after the other, and ends after the first visit that is answered with more than the wish to go on.
At a visit the handlers are shown the comment or the symbol, and then every doclet that they made
there.
-/

namespace Doclets

variable {σ : Type} {count : Nat}

/-- A stop at which the handlers are asked, and are shown the doclets that they made there. -/
structure Visit (count : Nat) where
  first : Round count
  doclets : List (Round count)
  shown : doclets.map Round.shown = first.left.doclets.map Checkpoint.newDoclet

namespace Visit

def rounds (visit : Visit count) : List (Round count) := visit.first :: visit.doclets

/-- The strongest answer, those about the doclets included. -/
def flow (visit : Visit count) : Flow := Round.strongest visit.rounds

/-- The rounds of several visits. -/
def roundsOf (visits : List (Visit count)) : List (Round count) := visits.flatMap Visit.rounds

end Visit

/-- What the handlers are shown at a stop of a walk, before any of them has changed it. Handlers
may have changed comments that were passed before, and visitors change what is shown of a symbol. -/
def Watchers.Shows (w : Watchers σ) (t : Tree) (file : String) : Stop → Checkpoint → Prop
  | .comment c, shown => ∃ comment, t.comments[c]? = some comment ∧
      shown = .commentFound
        ⟨comment.raw, file, comment.position.line, comment.position.column, []⟩
  | .node i, shown => ∃ comments r found prepared s,
      symbolAt? { t with comments } file i r = some (found, prepared) ∧
        shown = .symbolFound (w.visitSymbol { t with comments } file found s).1

/-- The visits of a walk, and the strongest answer with which it ends. -/
inductive Walked (shows : Stop → Checkpoint → Prop) :
    List Stop → List (Visit count) → Flow → Prop
  | done : Walked shows [] [] .continue
  | goesOn {stop stops visit visits flow} (shown : shows stop visit.first.shown)
    (answered : visit.flow = .continue) (rest : Walked shows stops visits flow) :
    Walked shows (stop :: stops) (visit :: visits) flow
  | ends {stop stops visit} (shown : shows stop visit.first.shown)
    (answered : visit.flow ≠ .continue) : Walked shows (stop :: stops) [visit] visit.flow

namespace Walked

variable {shows : Stop → Checkpoint → Prop} {stops : List Stop} {visits : List (Visit count)}
  {flow : Flow}

theorem strongest_eq (walked : Walked shows stops visits flow) :
    Round.strongest (Visit.roundsOf visits) = flow := by
  induction walked with
  | done => rfl
  | @goesOn stop stops visit visits flow shown answered rest ih =>
    have split : Visit.roundsOf (visit :: visits) = visit.rounds ++ Visit.roundsOf visits := rfl
    rw [split, Round.strongest_append, ih, show Round.strongest visit.rounds = _ from answered,
      Flow.continue_merge]
  | ends shown answered => simp [Visit.roundsOf, Visit.flow]

/-- A walk that is not ended early visits everything. -/
theorem forall₂_of_continue (walked : Walked shows stops visits flow) (all : flow = .continue) :
    List.Forall₂ (fun stop visit => shows stop visit.first.shown) stops visits := by
  induction walked with
  | done => exact .nil
  | goesOn shown answered rest ih => exact .cons shown (ih all)
  | ends shown answered => exact absurd all answered

end Walked

/-! ### One stop -/

/-- A walk whose handlers' answers are recorded, behind those recorded so far. -/
def Walk.recorded (walk : Walk σ) (log : List Answer) : Walk (Recorded σ) :=
  ⟨walk.tree, walk.registry, ⟨walk.state, log⟩⟩

namespace Watchers

variable {w : Watchers σ} {walk : Walk σ} {t : Tree} {file : String} {stop : Stop}
  {stops : List Stop} {log : List Answer}

/-- Every new doclet is shown in one round. -/
theorem register_recorded (w : Watchers σ) (doclets : List Doclet) (r : Registry) (s : σ)
    (log : List Answer) : let plain := w.register doclets r s
    ∃ rounds : List (Round w.handlers.length),
      rounds.map Round.shown = doclets.map Checkpoint.newDoclet ∧
      Round.strongest rounds = plain.1 ∧ w.recorded.register doclets r ⟨s, log⟩ =
        (plain.1, plain.2.1, plain.2.2.1, ⟨plain.2.2.2, log ++ Round.answersOf rounds⟩) := by
  induction doclets generalizing r s log with
  | nil => exact ⟨[], rfl, rfl, by rw [Round.answersOf_nil, List.append_nil]; rfl⟩
  | cons d rest ih =>
    obtain ⟨round, shown, _, flow, told⟩ :=
      w.relay_recorded Handler.notes_newDoclet d s log
    rw [register_cons, register_cons, told]
    dsimp only
    generalize Handler.relay Handler.newDoclet w.handlers d s = asked at flow
    obtain ⟨rounds, others, strongest, done⟩ :=
      ih (r.addDoclet asked.2.1).2 asked.2.2 (log ++ round.answers)
    refine ⟨round :: rounds, ?_, ?_, ?_⟩
    · rw [List.map_cons, List.map_cons, shown, others]
    · rw [Round.strongest_cons, flow, strongest]
    · rw [done, Round.answersOf_cons, List.append_assoc]

theorem symbolAt?_eq_none_iff {i : NodeIndex} {r : Registry} :
    symbolAt? t file i r = none ↔ t.isSymbolAt i = false := by
  have node : t.node? (some i) = t.nodes[i]? := rfl
  unfold symbolAt? Symbol.ofNode? Tree.isSymbolAt Tree.kind?
  rw [node]
  cases t.nodes[i]? with
  | none => simp
  | some n =>
    cases symbol : n.kind.isSymbol with
    | false => simp [symbol]
    | true =>
      simp only [if_pos, Option.map_some, Option.any_some, symbol]
      split
      next => simp
      next missing =>
        exfalso
        split at missing <;> exact missing _ _ rfl rfl

/-- A stop at which nothing is announced is passed without a question. -/
theorem pass_silent (file : String) (silent : walk.tree.announces stop = false)
    (log : List Answer) : ∃ s, w.pass file walk stop = (.continue, { walk with state := s }) ∧
      w.recorded.pass file (walk.recorded log) stop =
        (.continue, Walk.recorded { walk with state := s } log) := by
  cases stop with
  | comment c =>
    have passes {τ : Type} (w : Watchers τ) (other : Walk τ) (same : other.tree = walk.tree) :
        w.passComment file c other = (.continue, other) := by
      unfold passComment
      rw [same]
      cases found : walk.tree.comments[c]? with
      | none => rfl
      | some comment =>
        have plain : comment.isDoc = false := by
          simpa [Tree.announces, Tree.isDocAt, found] using silent
        dsimp only
        rw [plain, if_neg Bool.false_ne_true]
    exact ⟨walk.state, passes w walk rfl, passes w.recorded (walk.recorded log) rfl⟩
  | node i =>
    have plain : symbolAt? walk.tree file i walk.registry = none :=
      symbolAt?_eq_none_iff.mpr silent
    have asked : (walk.recorded log).tree = walk.tree ∧
        (walk.recorded log).registry = walk.registry := ⟨rfl, rfl⟩
    refine ⟨w.visitPlain walk.tree file i walk.state, ?_, ?_⟩
    · unfold pass passNode
      dsimp only
      rw [plain]
    · unfold pass passNode
      dsimp only
      rw [asked.1, asked.2, plain]
      dsimp only
      rw [show (walk.recorded log).state = ⟨walk.state, log⟩ from rfl, visitPlain_recorded]
      rfl

/-- A stop at a documentation comment is a visit. -/
theorem passComment_recorded {c : Nat} {comment : Comment}
    (found : walk.tree.comments[c]? = some comment) (doc : comment.isDoc = true) (file : String)
    (log : List Answer) : let plain := w.passComment file c walk
    ∃ visit : Visit w.handlers.length, visit.first.shown = .commentFound
        ⟨comment.raw, file, comment.position.line, comment.position.column, []⟩ ∧
      visit.flow = plain.1 ∧ w.recorded.passComment file c (walk.recorded log) =
        (plain.1, plain.2.recorded (log ++ Round.answersOf visit.rounds)) := by
  let event : CommentFound :=
    ⟨comment.raw, file, comment.position.line, comment.position.column, []⟩
  obtain ⟨round, shown, left, flow, told⟩ :=
    w.relay_recorded (Handler.notes_commentFound ⟨walk.registry, walk.tree⟩) event walk.state log
  unfold passComment
  rw [show (walk.recorded log).tree.comments[c]? = some comment from found, found]
  dsimp only [Walk.recorded]
  rw [if_pos doc, if_pos doc, told]
  dsimp only
  generalize Handler.relay (fun h => h.commentFound ⟨walk.registry, walk.tree⟩) w.handlers event
    walk.state = asked at left flow
  obtain ⟨rounds, others, strongest, done⟩ :=
    w.register_recorded asked.2.1.doclets walk.registry asked.2.2 (log ++ round.answers)
  refine ⟨⟨round, rounds, by rw [others, left]; rfl⟩, shown, ?_, ?_⟩
  · change round.flow.merge (Round.strongest rounds) = _
    rw [flow, strongest]
  · rw [done, List.append_assoc]
    rfl

/-- A stop at a symbol is a visit. -/
theorem passNode_recorded {i : NodeIndex} {found : SymbolFound}
    {prepared : List FollowUp × Registry}
    (symbol : symbolAt? walk.tree file i walk.registry = some (found, prepared))
    (log : List Answer) : let plain := w.passNode file i walk
    ∃ visit : Visit w.handlers.length, visit.first.shown = .symbolFound
        (w.visitSymbol walk.tree file found walk.state).1 ∧
      visit.flow = plain.1 ∧ w.recorded.passNode file i (walk.recorded log) =
        (plain.1, plain.2.recorded (log ++ Round.answersOf visit.rounds)) := by
  obtain ⟨followUps, r⟩ := prepared
  unfold passNode
  dsimp only [Walk.recorded]
  rw [symbol]
  dsimp only
  rw [visitSymbol_recorded]
  dsimp only
  generalize w.visitSymbol walk.tree file found walk.state = visited
  obtain ⟨round, shown, left, flow, told⟩ :=
    w.relay_recorded (Handler.notes_symbolFound ⟨r, walk.tree⟩) visited.1 visited.2 log
  rw [told]
  dsimp only
  generalize Handler.relay (fun h => h.symbolFound ⟨r, walk.tree⟩) w.handlers visited.1
    visited.2 = asked at left flow
  obtain ⟨rounds, others, strongest, done⟩ :=
    w.register_recorded asked.2.1.doclets r asked.2.2 (log ++ round.answers)
  refine ⟨⟨round, rounds, by rw [others, left]; rfl⟩, shown, ?_, ?_⟩
  · change round.flow.merge (Round.strongest rounds) = _
    rw [flow, strongest]
  · rw [done, List.append_assoc]
    rfl

/-- Of the tree, a stop at a comment may change that comment, and nothing else is changed. -/
theorem tree_pass (w : Watchers σ) (file : String) (walk : Walk σ) (stop : Stop) :
    let next := (w.pass file walk stop).2.tree
    next = { walk.tree with comments := next.comments } ∧
      ∀ c, stop ≠ .comment c → next.comments[c]? = walk.tree.comments[c]? := by
  cases stop with
  | comment c =>
    unfold pass passComment
    dsimp only
    split
    · exact ⟨rfl, fun _ _ => rfl⟩
    · split
      · dsimp only
        split
        · exact ⟨rfl, fun _ _ => rfl⟩
        · refine ⟨rfl, fun d other => ?_⟩
          rw [Array.getElem?_modify, if_neg (fun same => other (congrArg Stop.comment same))]
      · exact ⟨rfl, fun _ _ => rfl⟩
  | node i =>
    unfold pass passNode
    dsimp only
    split <;> exact ⟨rfl, fun _ _ => rfl⟩

end Watchers

/-! ### Walks -/

/-- The walk goes through `t`, and of the comments that are still to come none was changed. -/
structure Walk.Reads (walk : Walk σ) (t : Tree) (stops : List Stop) : Prop where
  tree : walk.tree = { t with comments := walk.tree.comments }
  ahead : ∀ c, .comment c ∈ stops → walk.tree.comments[c]? = t.comments[c]?

variable {w : Watchers σ} {walk : Walk σ} {t : Tree} {file : String} {stop : Stop}
  {stops : List Stop} {log : List Answer}

namespace Walk.Reads

theorem start (t : Tree) (r : Registry) (s : σ) (stops : List Stop) :
    Walk.Reads ⟨t, r, s⟩ t stops := ⟨rfl, fun _ _ => rfl⟩

theorem announces_eq (reads : walk.Reads t (stop :: stops)) :
    walk.tree.announces stop = t.announces stop := by
  cases stop with
  | comment c =>
    unfold Tree.announces Tree.isDocAt
    dsimp only
    rw [reads.ahead c List.mem_cons_self]
  | node i =>
    rw [reads.tree]
    rfl

/-- A documentation comment does not come again, so what is still to come is as it was. -/
theorem pass (reads : walk.Reads t (stop :: stops)) (w : Watchers σ) (file : String)
    (fresh : t.announces stop = true → ∀ c, stop = .comment c → stop ∉ stops) :
    (w.pass file walk stop).2.Reads t stops := by
  cases announced : t.announces stop with
  | false =>
    obtain ⟨s, silent, _⟩ :=
      w.pass_silent file (reads.announces_eq.trans announced) []
    rw [silent]
    exact ⟨reads.tree, fun c later => reads.ahead c (List.mem_cons_of_mem _ later)⟩
  | true =>
    obtain ⟨same, kept⟩ := w.tree_pass file walk stop
    refine ⟨?_, fun c later => ?_⟩
    · rw [same, reads.tree]
    · have other : stop ≠ .comment c := fun here =>
        fresh announced c here (here ▸ later)
      rw [kept c other]
      exact reads.ahead c (List.mem_cons_of_mem _ later)

end Walk.Reads

namespace Watchers

/-- A stop at which something is announced is a visit. -/
theorem pass_visits (w : Watchers σ) (file : String) (reads : walk.Reads t (stop :: stops))
    (announced : t.announces stop = true) (log : List Answer) :
    let plain := w.pass file walk stop
    ∃ visit : Visit w.handlers.length, w.Shows t file stop visit.first.shown ∧
      visit.flow = plain.1 ∧ w.recorded.pass file (walk.recorded log) stop =
        (plain.1, plain.2.recorded (log ++ Round.answersOf visit.rounds)) := by
  cases stop with
  | comment c =>
    obtain ⟨comment, found, doc⟩ := Option.any_eq_true _ _ |>.mp announced
    have here := (reads.ahead c List.mem_cons_self).trans found
    obtain ⟨visit, shown, flow, told⟩ := w.passComment_recorded here doc file log
    exact ⟨visit, ⟨comment, found, shown⟩, flow, told⟩
  | node i =>
    cases symbol : symbolAt? walk.tree file i walk.registry with
    | none =>
      have silent := symbolAt?_eq_none_iff.mp symbol
      have asked := reads.announces_eq.trans announced
      exact absurd asked (by rw [Tree.announces, silent]; exact Bool.false_ne_true)
    | some described =>
      obtain ⟨found, prepared⟩ := described
      obtain ⟨visit, shown, flow, told⟩ := w.passNode_recorded symbol log
      rw [reads.tree] at symbol shown
      exact ⟨visit, ⟨_, _, _, _, _, symbol, shown⟩, flow, told⟩

/-- A recorded walk does what the walk does, and visits what is announced at its stops until a
visit is answered with more than the wish to go on. -/
theorem passAll_recorded (w : Watchers σ) (file : String) (reads : walk.Reads t stops)
    (once : ∀ c, (stops.filter t.announces).count (.comment c) ≤ 1) (log : List Answer) :
    let plain := w.passAll file stops walk
    ∃ visits : List (Visit w.handlers.length),
      Walked (w.Shows t file) (stops.filter t.announces) visits plain.1 ∧
      w.recorded.passAll file stops (walk.recorded log) =
        (plain.1, plain.2.recorded (log ++ Round.answersOf (Visit.roundsOf visits))) := by
  induction stops generalizing walk log with
  | nil =>
    refine ⟨[], .done, ?_⟩
    rw [show Visit.roundsOf [] = [] from rfl, Round.answersOf_nil, List.append_nil]
    rfl
  | cons stop rest ih =>
    have fresh (announced : t.announces stop = true) (c : Nat) (here : stop = .comment c) :
        stop ∉ rest := by
      intro again
      have twice := once c
      rw [List.filter_cons_of_pos announced, here, List.count_cons_self] at twice
      have listed : Stop.comment c ∈ rest.filter t.announces :=
        List.mem_filter.mpr ⟨here ▸ again, here ▸ announced⟩
      have more := List.count_pos_iff.mpr listed
      omega
    have later : ∀ c, (rest.filter t.announces).count (.comment c) ≤ 1 := fun c =>
      Nat.le_trans (((List.sublist_cons_self stop rest).filter _).count_le _) (once c)
    have next := reads.pass w file fresh
    cases announced : t.announces stop with
    | false =>
      obtain ⟨s, silent, told⟩ := w.pass_silent file (reads.announces_eq.trans announced) log
      rw [silent] at next
      obtain ⟨visits, walked, done⟩ := ih next later log
      rw [List.filter_cons_of_neg (by simp [announced]), passAll, passAll, silent, told]
      exact ⟨visits, walked, done⟩
    | true =>
      obtain ⟨visit, shown, flow, told⟩ := w.pass_visits file reads announced log
      rw [List.filter_cons_of_pos announced, passAll, passAll, told]
      generalize w.pass file walk stop = passed at flow next
      obtain ⟨answered, after⟩ := passed
      by_cases goes_on : answered = .continue
      · subst goes_on
        obtain ⟨visits, walked, done⟩ :=
          ih next later (log ++ Round.answersOf visit.rounds)
        refine ⟨visit :: visits, .goesOn shown flow walked, ?_⟩
        dsimp only
        rw [done, List.append_assoc, ← Round.answersOf_append]
        rfl
      · refine ⟨[visit], ?_, ?_⟩
        · have ended : Walked (w.Shows t file) (stop :: rest.filter t.announces) [visit]
              visit.flow := .ends shown (by rw [flow]; exact goes_on)
          cases answered <;> first | exact absurd rfl goes_on | exact flow ▸ ended
        · rw [show Visit.roundsOf [visit] = visit.rounds from List.append_nil _]
          cases answered <;> first | exact absurd rfl goes_on | rfl

end Watchers

/-! ### Units -/

theorem Tree.announced_inUnit (t : Tree) (u : Nat) : (t.inUnit u).announced = t.announced := by
  rw [← filter_stops, stops_inUnit, ← filter_stops]
  rfl

/-- A recorded run walks a tree in visits of what is announced in it. -/
theorem Run.walk_recorded {run : Run σ} (asked : run.watchers.handlers.length = count)
    (file : String) (t : Tree) (log : List Answer) : let plain := run.walk file t
    ∃ visits : List (Visit count),
      Walked (run.watchers.Shows (t.inUnit run.registry.units) file) t.announced visits plain.1 ∧
      (run.recorded log).walk file t =
        (plain.1, plain.2.recorded (log ++ Round.answersOf (Visit.roundsOf visits))) := by
  subst asked
  let u := t.inUnit run.registry.units
  have once (c : Nat) : (u.stops.filter u.announces).count (.comment c) ≤ 1 := by
    rw [u.filter_stops, u.count_announced]
    split <;> omega
  obtain ⟨visits, walked, told⟩ := run.watchers.passAll_recorded file
    (Walk.Reads.start u run.registry.nextUnit.2 run.state u.stops) once log
  rw [u.filter_stops, t.announced_inUnit] at walked
  refine ⟨visits, walked, ?_⟩
  unfold walk
  exact congrArg (fun done => (done.1, ({ run.recorded log with
    registry := done.2.registry, state := done.2.state, files := run.files.push file } :
      Run (Recorded σ)))) told

end Doclets
