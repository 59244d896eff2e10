import Doclets.Proofs.Registry.BorrowedCopies
import Doclets.Proofs.Registry.Soundness

/-!
How requests to borrow become pending. A doclet that becomes a result brings its requests in, and
nothing else does. A class that is merged with its constructor keeps its own requests, and the merged
doclet brings them in once more.
-/

namespace Doclets

namespace Registry

/-- Two registries in which the same is asked for. -/
structure AsksAlike (r s : Registry) : Prop where
  pending : s.index.borrowed = r.index.borrowed
  doclet : ∀ id, (s.doclet id).asks = (r.doclet id).asks

variable {r s t : Registry} {id : DocletId} {d : Doclet}

theorem AsksAlike.refl (r : Registry) : r.AsksAlike r := ⟨rfl, fun _ => rfl⟩

theorem AsksAlike.trans (first : r.AsksAlike s) (second : s.AsksAlike t) : r.AsksAlike t where
  pending := second.pending.trans first.pending
  doclet id := (second.doclet id).trans (first.doclet id)

theorem AsksAlike.asked (h : r.AsksAlike s) : s.asked = r.asked := by
  unfold Registry.asked requests
  rw [h.pending]
  exact congrArg (List.flatMap · _) (funext h.doclet)

theorem asksAlike_modify (r : Registry) (id : DocletId) {f : Doclet → Doclet}
    (keeps : ∀ d, (f d).asks = d.asks) : r.AsksAlike (r.modify id f) where
  pending := rfl
  doclet other := by
    rw [doclet_modify]
    split
    · exact keeps _
    · rfl

theorem asksAlike_setUndocumented (r : Registry) (id : DocletId) (hidden : Bool) :
    r.AsksAlike (r.setUndocumented id hidden) where
  pending := rfl
  doclet := (r.asksAlike_modify id (f := fun d => { d with undocumented := hidden })
    fun _ => rfl).doclet

theorem asksAlike_declare (r : Registry) (scope : DocletId) (name : String)
    (longname : Option String) : r.AsksAlike (r.declare scope name longname) :=
  r.asksAlike_modify scope fun _ => rfl

theorem asksAlike_registerNode (r : Registry) (t : Tree) (node : NodeRef) (last : Option DocletId)
    (code : Symbol) : r.AsksAlike (r.registerNode t node last code) := by
  unfold registerNode
  dsimp only
  cases last with
  | some id => exact ⟨rfl, fun _ => rfl⟩
  | none =>
    dsimp only
    split
    · exact .refl r
    · refine ⟨rfl, fun id => ?_⟩
      -- A placeholder asks for nothing, and neither does what is not stored.
      rw [show ∀ s : Registry, ∀ key new, (s.register key new).doclet id = s.doclet id from
        fun _ _ _ => rfl, doclet_insert]
      split
      next new =>
        subst new
        simp [doclet, Doclet.placeholder, Doclet.empty, Doclet.asks]
      next => rfl

theorem asksAlike_joinEnumOf (member : DocletId) (r : Registry) (owner : DocletId) :
    r.AsksAlike (joinEnumOf member r owner) := by
  unfold joinEnumOf
  split
  · dsimp only
    refine ((r.asksAlike_modify member ?_).trans (asksAlike_setUndocumented _ member false)).trans
      (asksAlike_modify _ owner ?_)
    · exact fun _ => rfl
    · exact fun _ => rfl
  · exact .refl r

theorem asksAlike_joinEnum (r : Registry) (t : Tree) (property : NodeRef) (member : DocletId) :
    r.AsksAlike (r.joinEnum t property member) := by
  unfold joinEnum
  generalize r.propertyOwners t property = owners
  induction owners generalizing r with
  | nil => exact .refl r
  | cons owner rest ih => exact (asksAlike_joinEnumOf member r owner).trans (ih _)

/-! ### New requests -/

/-- A doclet that becomes a result brings its requests in. -/
theorem Consistent.asked_addDoclet (h : r.Consistent) (d : Doclet) :
    (r.addDoclet d).2.asked = r.asked ++ d.asks := by
  have old : r.index.borrowed.flatMap (fun id => ((r.addDoclet d).2.doclet id).asks) = r.asked :=
    List.flatMap_congr fun id member => by rw [doclet_addDoclet_of_lt (h.pending_lt id member)]
  unfold asked requests
  rw [index_addDoclet, Index.borrowed_add, List.flatMap_append, old]
  congr 1
  by_cases requests : d.hasBorrows = true
  · rw [if_pos requests, List.flatMap_singleton, doclet_addDoclet_self]
  · have nothing : d.borrowed.getD [] = [] := by simpa [Doclet.hasBorrows] using requests
    rw [if_neg requests, Doclet.asks, nothing]
    rfl

theorem Anchored.lt_of_idOfNode? (h : r.Anchored) {t : Tree} {node : NodeRef}
    (found : r.idOfNode? t node = some id) : id < r.doclets.size := by
  rw [idOfNode?, History.latest?_eq_getLast?] at found
  exact h.stored _ id (List.mem_of_getLast? found)

/-- The requests of the class around a constructor, if that is documented. -/
def classAsks (r : Registry) (t : Tree) (constructor : NodeRef) : List (String × Borrow) :=
  match r.idOfNode? t (t.parent (t.parent constructor)) with
  | some owner => if (r.doclet owner).undocumented then [] else (r.doclet owner).asks
  | none => []

/-- A merged class brings the requests of the class in once more. -/
theorem Sound.asked_joinClass (h : r.Sound) (listed : id ∈ r.results) (t : Tree) (method : NodeRef)
    (other : r.idOfNode? t (t.parent (t.parent method)) ≠ some id) :
    (r.joinClass t method id).asked = r.asked ++ r.classAsks t method := by
  unfold Registry.joinClass classAsks
  cases found : r.idOfNode? t (t.parent (t.parent method)) with
  | none => simp
  | some owner =>
    have apart : owner ≠ id := fun same => other (found.trans (congrArg some same))
    dsimp only
    by_cases hidden : (r.doclet owner).undocumented = true
    · simp [hidden]
    · have documented := h.documented owner (h.lt_of_idOfNode? found) (by simpa using hidden)
      have superseded : ((r.setUndocumented owner true).setUndocumented id true).Consistent :=
        (h.toConsistent.setUndocumented documented true).setUndocumented listed true
      have alike := (r.asksAlike_setUndocumented owner true).trans
        (asksAlike_setUndocumented _ id true)
      rw [if_neg (by simp [apart, hidden]), if_neg hidden, superseded.asked_addDoclet, alike.asked]
      rfl

/-- The class around a constructor asks for the same as long as nothing else is registered for it and
the old doclets stay as they are. -/
theorem classAsks_congr (h : r.Anchored) (byNode : s.byNode = r.byNode)
    (kept : ∀ id < r.doclets.size, s.doclet id = r.doclet id) (t : Tree) (constructor : NodeRef) :
    s.classAsks t constructor = r.classAsks t constructor := by
  have same : s.idOfNode? t (t.parent (t.parent constructor)) =
      r.idOfNode? t (t.parent (t.parent constructor)) := by
    unfold idOfNode?
    rw [byNode]
  unfold classAsks
  rw [same]
  cases found : r.idOfNode? t (t.parent (t.parent constructor)) with
  | none => rfl
  | some owner =>
    dsimp only
    rw [kept owner (h.lt_of_idOfNode? found)]

/-- Members that are passed on ask for nothing. -/
theorem Consistent.asked_resolveAugments (h : r.Consistent) : r.resolveAugments.asked = r.asked := by
  have kept : PassInvariant fun s => s.Consistent ∧ s.asked = r.asked := by
    refine ⟨And.left, fun {s relation receiver parent member} both _ => ?_⟩
    have passed := passedOn_passOn relation (s.doclet receiver).longname s member
    refine ⟨passed.consistent both.1, Eq.trans ?_ both.2⟩
    generalize passOn relation (s.doclet receiver).longname s member = next at passed
    cases passed with
    | withheld => rfl
    | kept =>
      refine (s.asksAlike_modify _ fun d => ?_).asked
      have later := d.succeeds_inPlaceOf relation (s.doclet member).longname
      rw [Doclet.asks, Doclet.asks, later.borrowed, later.filedAlike.longname]
    | copied =>
      rw [both.1.asked_addDoclet]
      cases relation <;> exact List.append_nil _
  exact (kept.resolveAugments ⟨h, rfl⟩).1.2

end Registry

end Doclets
