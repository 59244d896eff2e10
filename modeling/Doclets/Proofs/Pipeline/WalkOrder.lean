import Doclets.Proofs.Pipeline.Membership
import Doclets.Proofs.Pipeline.Visits

/-!
The order of a walk whose handlers only ask to go on. It visits everything that is announced in
its tree: the documentation comments in front of no node, and then the nodes in pre-order, each
after the documentation comments in front of it that were not visited before. Handlers may change
comments on the way; only the one that is being passed is changed, and it is not passed again.
-/

namespace Doclets

variable {σ ε : Type}

/-- A handler that asks for nothing but to go on while a unit is walked. -/
structure Handler.GoesOn (h : Handler σ) : Prop where
  commentFound : ∀ ctx event s, (h.commentFound ctx event s).1 = .continue
  symbolFound : ∀ ctx event s, (h.symbolFound ctx event s).1 = .continue
  newDoclet : ∀ d s, (h.newDoclet d s).1 = .continue

theorem Handler.relay_goesOn {answer : Handler σ → Editor σ ε} {handlers : List (Handler σ)}
    (goesOn : ∀ h ∈ handlers, ∀ e s, (answer h e s).1 = .continue) (e : ε) (s : σ) :
    (relay answer handlers e s).1 = .continue := by
  induction handlers generalizing e s with
  | nil => rfl
  | cons h rest ih =>
    have first := goesOn h List.mem_cons_self e s
    have others := ih (fun other later => goesOn other (List.mem_cons_of_mem _ later))
      (answer h e s).2.1 (answer h e s).2.2
    exact Flow.merge_eq_continue_iff.mpr ⟨first, others⟩

namespace Watchers

variable {w : Watchers σ}

theorem register_goesOn (goesOn : ∀ h ∈ w.handlers, h.GoesOn) (doclets : List Doclet)
    (r : Registry) (s : σ) : (w.register doclets r s).1 = .continue := by
  induction doclets generalizing r s with
  | nil => rfl
  | cons d rest ih =>
    rw [register_cons]
    have shown := Handler.relay_goesOn (fun h listed => (goesOn h listed).newDoclet) d s
    exact Flow.merge_eq_continue_iff.mpr ⟨shown, ih _ _⟩

theorem pass_goesOn (goesOn : ∀ h ∈ w.handlers, h.GoesOn) (file : String) (walk : Walk σ)
    (stop : Stop) : (w.pass file walk stop).1 = .continue := by
  cases stop with
  | comment c =>
    unfold pass passComment
    dsimp only
    split
    · rfl
    · split
      · exact Flow.merge_eq_continue_iff.mpr
          ⟨Handler.relay_goesOn (fun h listed => (goesOn h listed).commentFound _) _ _,
            register_goesOn goesOn _ _ _⟩
      · rfl
  | node i =>
    unfold pass passNode
    dsimp only
    split
    · rfl
    · exact Flow.merge_eq_continue_iff.mpr
        ⟨Handler.relay_goesOn (fun h listed => (goesOn h listed).symbolFound _) _ _,
          register_goesOn goesOn _ _ _⟩

theorem passAll_goesOn (goesOn : ∀ h ∈ w.handlers, h.GoesOn) (file : String) (stops : List Stop)
    (walk : Walk σ) : (w.passAll file stops walk).1 = .continue := by
  induction stops generalizing walk with
  | nil => rfl
  | cons stop rest ih =>
    have passed := pass_goesOn goesOn file walk stop
    rw [passAll]
    generalize w.pass file walk stop = done at passed
    obtain ⟨flow, next⟩ := done
    cases passed
    exact ih next

end Watchers

/-- A walk whose handlers only ask to go on visits all that is announced in its tree, in order;
and every documentation comment is announced once, and no other comment. -/
theorem Run.walk_in_order (run : Run σ) (goesOn : ∀ h ∈ run.watchers.handlers, h.GoesOn)
    (file : String) (t : Tree) :
    (∃ visits : List (Visit run.watchers.handlers.length),
      (run.recorded []).walk file t =
        (.continue, (run.walk file t).2.recorded (Round.answersOf (Visit.roundsOf visits))) ∧
      List.Forall₂ (fun stop visit =>
        run.watchers.Shows (t.inUnit run.registry.units) file stop visit.first.shown)
        t.announced visits) ∧
    ∀ c, t.announced.count (.comment c) = if t.isDocAt c then 1 else 0 := by
  obtain ⟨visits, walked, told⟩ := walk_recorded (Eq.refl run.watchers.handlers.length) file t []
  have flow : (run.walk file t).1 = .continue := Watchers.passAll_goesOn goesOn file _ _
  refine ⟨⟨visits, ?_, walked.forall₂_of_continue flow⟩, t.count_announced⟩
  rw [told, flow, List.nil_append]

/-! ### Comments in front of several nodes -/

namespace SharedComment

open ExportedClass (identifier node)

def comment (type value : String) (start : Nat) : Json.Value :=
  node type [("value", .str value), ("range", .arr [.int start, .int (start + 5)])]

/-- `var x = w;`, where the declaration and the declarator share a comment; the declaration lists
it twice, beside one that is no documentation. One more comment is in front of no node. -/
def unit : Json.Value :=
  node "Program" [("comments", .arr [comment "Block" "* loose " 0]),
    ("body", .arr [node "VariableDeclaration" [("kind", .str "var"),
      ("leadingComments", .arr [comment "Block" "* shared " 10, comment "Line" " plain" 20,
        comment "Block" "* shared " 10]),
      ("declarations", .arr [node "VariableDeclarator" [("id", identifier "x"),
        ("init", identifier "w"), ("leadingComments", .arr [comment "Block" "* shared " 10])]])]])]

def tree : Tree :=
  match Estree.ofValue "a.js" unit with
  | .ok t => t
  | .error _ => ⟨"", 0, #[], none, #[]⟩

/-- Puts the same text in the place of every comment. -/
def rewriting : Handler (Option String) where
  commentFound := fun _ event s => (.continue, { event with comment := "/** @name y */" }, s)

def run : Run (Option String) := .start .estree ⟨[rewriting, Documenter.handler .whole], []⟩ none

theorem goesOn : ∀ h ∈ run.watchers.handlers, h.GoesOn := by
  intro h listed
  have cases : h = rewriting ∨ h = Documenter.handler .whole := by
    simpa [run, Run.start] using listed
  rcases cases with rfl | rfl <;> exact ⟨fun _ _ _ => rfl, fun _ _ _ => rfl, fun _ _ => rfl⟩

theorem announced_tree : tree.announced = [.comment 0, .comment 1, .node 2] := by
  decide +kernel

/-- The shared comment is visited once, in front of the declaration. -/
theorem walk_in_order_shared : (∀ h ∈ run.watchers.handlers, h.GoesOn) ∧
    (∃ visits : List (Visit 2), (run.recorded []).walk "a.js" tree =
        (.continue, (run.walk "a.js" tree).2.recorded
          (Round.answersOf (Visit.roundsOf visits))) ∧
      List.Forall₂ (fun stop visit =>
        run.watchers.Shows (tree.inUnit 0) "a.js" stop visit.first.shown)
        [.comment 0, .comment 1, .node 2] visits) ∧
    tree.announced.count (.comment 1) = 1 := by
  obtain ⟨⟨visits, told, shown⟩, once⟩ := Run.walk_in_order run goesOn "a.js" tree
  refine ⟨goesOn, ⟨visits, told, ?_⟩, ?_⟩
  · rw [announced_tree] at shown
    exact shown
  · rw [once, if_pos (by decide +kernel)]

end SharedComment

end Doclets
