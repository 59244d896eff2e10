/-!
What a handler asks the pipeline to do next. Of several requests the strongest counts.
-/

namespace Doclets

inductive Flow where
  | continue
  /-- Leave the rest of the unit out. -/
  | skipUnit
  /-- End the run. -/
  | abort
  deriving DecidableEq

namespace Flow

def strength : Flow → Nat
  | .continue => 0
  | .skipUnit => 1
  | .abort => 2

/-- The stronger of two requests. -/
def merge (a b : Flow) : Flow := if a.strength ≤ b.strength then b else a

def isContinue (f : Flow) : Bool := f = .continue

def name : Flow → String
  | .continue => "Continue"
  | .skipUnit => "SkipUnit"
  | .abort => "Abort"

theorem merge_assoc (a b c : Flow) : merge (merge a b) c = merge a (merge b c) := by
  cases a <;> cases b <;> cases c <;> rfl

theorem merge_comm (a b : Flow) : merge a b = merge b a := by cases a <;> cases b <;> rfl

@[simp] theorem continue_merge (a : Flow) : merge .continue a = a := by cases a <;> rfl

@[simp] theorem merge_continue (a : Flow) : merge a .continue = a := by cases a <;> rfl

theorem merge_eq_continue_iff {a b : Flow} :
    merge a b = .continue ↔ a = .continue ∧ b = .continue := by
  cases a <;> cases b <;> decide

theorem merge_eq_abort_iff {a b : Flow} : merge a b = .abort ↔ a = .abort ∨ b = .abort := by
  cases a <;> cases b <;> decide

end Flow

end Doclets
