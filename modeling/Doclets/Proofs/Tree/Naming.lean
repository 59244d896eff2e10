import Doclets.Proofs.Tree.Shape
import Doclets.Tree.Name
import Mathlib.Data.List.Perm.Subperm

/-!
Which names have an end. The name of a node is made from the names of nodes below it, but a method
asks for the name of its class, which lies around it; so the questions may come back to where they
started. In a tree that was read they do so only at a method that the two nodes around it are named
after.
-/

open Relation (ReflTransGen TransGen reflTransGen_iff_eq_or_transGen)

namespace Doclets

/-- The parts of a node that its name is made from. -/
def Payload.named : Payload → List NodeRef
  | .member object name _ => [object, name]
  | .function id .. | .class id .. | .variableDeclarator id _ => [id]
  | .assignment _ left _ | .assignmentPattern left _ => [left]
  | .property key .. | .classProperty key .. => [key]
  | .methodDefinition key _ kind _ _ => if kind = .constructor then [] else [key]
  | .restElement child | .expressionStatement child | .export child => [child]
  | .none | .identifier _ | .literal _ | .variableDeclaration .. | .other _ => []

theorem Payload.mem_refs_of_named {payload : Payload} {r : NodeRef} (named : r ∈ payload.named) :
    r ∈ payload.refs := by
  cases payload <;> simp only [Payload.named, Payload.refs] at named ⊢
  case methodDefinition =>
    split at named <;> simp_all
  all_goals simp_all

theorem Payload.eq_none_of_classBody {payload : Payload} (listed : .classBody ∈ payload.kinds) :
    payload = .none := by
  cases payload <;> simp [Payload.kinds] at listed ⊢

namespace Tree

variable {t : Tree} {r s m : NodeRef} {fuel : Nat}

/-! ### Questions -/

/-- The name of `r` is made from that of `s`, a part of it. -/
def Names (t : Tree) (r s : NodeRef) : Prop :=
  ∃ payload, t.payload? r = some payload ∧ s ∈ payload.named

def DefinesMethod (t : Tree) (r : NodeRef) : Prop :=
  ∃ key value kind isStatic computed,
    t.payload? r = some (.methodDefinition key value kind isStatic computed)

/-- The name of `r` takes the name of `s`: that of a part, or for a method that of its class. -/
inductive Asks (t : Tree) (r : NodeRef) : NodeRef → Prop where
  | part {s : NodeRef} (names : t.Names r s) : Asks t r s
  | owner (method : t.DefinesMethod r) : Asks t r (t.methodOwner r)

/-- The name of a node can be found in some number of steps. -/
def NameEnds (t : Tree) (r : NodeRef) : Prop := ∃ fuel, (t.nameWithin fuel r).isSome

/-- What the name of a node takes does not lead around in a circle. -/
def Founded (t : Tree) (r : NodeRef) : Prop :=
  ∀ s, ReflTransGen t.Asks r s → ¬ TransGen t.Asks s s

theorem forall_asks_iff {n : Node} (found : t.node? r = some n) {P : NodeRef → Prop} :
    (∀ s, t.Asks r s → P s) ↔
      (∀ s ∈ n.payload.named, P s) ∧ (t.DefinesMethod r → P (t.methodOwner r)) := by
  have known : t.payload? r = some n.payload := by rw [payload?, found, Option.map_some]
  constructor
  · intro all
    exact ⟨fun s named => all s (.part ⟨_, known, named⟩), fun method => all _ (.owner method)⟩
  · rintro ⟨parts, owner⟩ s asks
    cases asks with
    | part names =>
      obtain ⟨payload, also, named⟩ := names
      cases known.symm.trans also
      exact parts s named
    | owner method => exact owner method

/-- One step: a name is found once all that it takes have been. -/
theorem isSome_nameWithin (t : Tree) (fuel : Nat) (r : NodeRef) :
    (t.nameWithin (fuel + 1) r).isSome ↔ ∀ s, t.Asks r s → (t.nameWithin fuel s).isSome := by
  rw [nameWithin]
  cases found : t.node? r with
  | none =>
    have known : t.payload? r = none := by rw [payload?, found, Option.map_none]
    refine ⟨fun _ s asks => ?_, fun _ => rfl⟩
    cases asks with
    | part names => simp [Names, known] at names
    | owner method => simp [DefinesMethod, known] at method
  | some n =>
    have method : t.DefinesMethod r ↔ ∃ key value kind isStatic computed,
        n.payload = .methodDefinition key value kind isStatic computed := by
      rw [DefinesMethod, payload?, found]
      simp only [Option.map_some, Option.some.injEq]
    rw [forall_asks_iff found, method]
    dsimp only
    cases n.payload with
    | member object name computed =>
      simp only [Payload.named, List.forall_mem_cons]
      cases t.nameWithin fuel object <;> cases t.nameWithin fuel name <;>
        simp [apply_ite Option.isSome]
    | methodDefinition key value kind isStatic computed =>
      simp only [Payload.named]
      by_cases constructor : kind = .constructor <;>
        cases t.nameWithin fuel (t.methodOwner r) <;> simp [constructor]
    | _ => simp [Payload.named]

/-- More steps find the same name. -/
theorem nameWithin_mono {text : String} {more : Nat} (enough : fuel ≤ more)
    (found : t.nameWithin fuel r = some text) : t.nameWithin more r = some text := by
  induction fuel generalizing r text more with
  | zero => cases found
  | succ fuel ih =>
    obtain ⟨more, rfl⟩ : ∃ less, more = less + 1 := ⟨more - 1, by omega⟩
    have below {s : NodeRef} {name : String} (known : t.nameWithin fuel s = some name) :
        t.nameWithin more s = some name := ih (Nat.le_of_succ_le_succ enough) known
    rw [nameWithin] at found ⊢
    cases node : t.node? r with
    | none =>
      rw [node] at found
      exact found
    | some n =>
      rw [node] at found
      dsimp only at found ⊢
      cases payload : n.payload <;> rw [payload] at found <;> dsimp only at found ⊢
      case member object name computed =>
        split at found
        next first second => rwa [below first, below second]
        next => cases found
      case methodDefinition key value kind isStatic computed =>
        split at found
        next => cases found
        next owner =>
          rw [below owner]
          dsimp only
          by_cases constructor : kind = .constructor
          · simpa only [if_pos constructor] using found
          · rw [if_neg constructor] at found ⊢
            obtain ⟨name, known, rfl⟩ := Option.map_eq_some_iff.mp found
            rw [below known, Option.map_some]
      all_goals first | exact found | exact below found

/-! ### Circles -/

/-- Whatever a name takes is found in fewer steps. -/
theorem exists_less_of_asks (asks : t.Asks r s) (found : (t.nameWithin fuel r).isSome) :
    ∃ less < fuel, (t.nameWithin less s).isSome := by
  cases fuel with
  | zero => cases found
  | succ fuel => exact ⟨fuel, Nat.lt_succ_self _, (t.isSome_nameWithin fuel r).mp found s asks⟩

theorem exists_less_of_transGen (asks : TransGen t.Asks r s)
    (found : (t.nameWithin fuel r).isSome) : ∃ less < fuel, (t.nameWithin less s).isSome := by
  induction asks with
  | single asks => exact exists_less_of_asks asks found
  | tail _ asks ih =>
    obtain ⟨fewer, few, found⟩ := ih
    obtain ⟨less, bound, found⟩ := exists_less_of_asks asks found
    exact ⟨less, Nat.lt_trans bound few, found⟩

theorem NameEnds.of_reached (ends : t.NameEnds r) (reached : ReflTransGen t.Asks r s) :
    t.NameEnds s := by
  obtain ⟨fuel, found⟩ := ends
  rcases reflTransGen_iff_eq_or_transGen.mp reached with rfl | asks
  · exact ⟨fuel, found⟩
  · obtain ⟨less, _, found⟩ := exists_less_of_transGen asks found
    exact ⟨less, found⟩

theorem not_nameEnds_of_circle (circle : TransGen t.Asks s s) : ¬ t.NameEnds s := by
  rintro ⟨fuel, found⟩
  induction fuel using Nat.strongRecOn with
  | ind fuel ih =>
    obtain ⟨less, bound, found⟩ := exists_less_of_transGen circle found
    exact ih less bound found

theorem NameEnds.founded (ends : t.NameEnds r) : t.Founded r :=
  fun _ reached circle => not_nameEnds_of_circle circle (ends.of_reached reached)

theorem exists_index_of_node? {n : Node} (found : t.node? r = some n) :
    ∃ i < t.nodes.size, r = some i := by
  obtain ⟨i, rfl, stored⟩ := Option.bind_eq_some_iff.mp found
  exact ⟨i, (Array.getElem?_eq_some_iff.mp stored).1, rfl⟩

theorem exists_index_of_nameWithin (missing : t.nameWithin (fuel + 1) r = none) :
    ∃ i < t.nodes.size, r = some i := by
  rw [nameWithin] at missing
  split at missing
  next => cases missing
  next found => exact exists_index_of_node? found

/-- A name that is not found in time takes a long chain of names of nodes in the table. -/
theorem exists_chain_of_nameWithin (missing : t.nameWithin (fuel + 1) r = none) :
    ∃ rest : List NodeRef, rest.length = fuel ∧ List.IsChain t.Asks (r :: rest) ∧
      ∀ s ∈ r :: rest, ∃ i < t.nodes.size, s = some i := by
  have here := exists_index_of_nameWithin missing
  induction fuel generalizing r with
  | zero => exact ⟨[], rfl, .singleton r, by simpa using here⟩
  | succ fuel ih =>
    have unanswered : ¬ ∀ s, t.Asks r s → (t.nameWithin (fuel + 1) s).isSome := by
      rw [← isSome_nameWithin, missing]
      exact nofun
    simp only [not_forall, Option.not_isSome_iff_eq_none] at unanswered
    obtain ⟨s, asks, missing⟩ := unanswered
    obtain ⟨rest, length, chain, inside⟩ := ih missing (exists_index_of_nameWithin missing)
    refine ⟨s :: rest, congrArg (· + 1) length, .cons_cons asks chain, ?_⟩
    exact List.forall_mem_cons.mpr ⟨here, inside⟩

/-- A name that does not lead around in a circle is found in as many steps as there are nodes. -/
theorem Founded.isSome_nameWithin (founded : t.Founded r) :
    (t.nameWithin (t.nodes.size + 1) r).isSome := by
  rw [Option.isSome_iff_ne_none]
  intro missing
  obtain ⟨rest, length, chain, inside⟩ := exists_chain_of_nameWithin missing
  have ordered : (r :: rest).Pairwise (TransGen t.Asks) :=
    List.isChain_iff_pairwise.mp (chain.imp fun _ _ => .single)
  have reached : ∀ s ∈ r :: rest, ReflTransGen t.Asks r s := by
    intro s listed
    rcases List.mem_cons.mp listed with rfl | behind
    · exact .refl
    · exact ((List.pairwise_cons.mp ordered).1 s behind).to_reflTransGen
  have distinct : (r :: rest).Nodup := by
    refine ordered.imp_of_mem ?_
    rintro a b listed _ asks rfl
    exact founded a (reached a listed) asks
  have among : (r :: rest) ⊆ (List.range t.nodes.size).map some := by
    intro s listed
    obtain ⟨i, bound, rfl⟩ := inside s listed
    exact List.mem_map.mpr ⟨i, List.mem_range.mpr bound, rfl⟩
  have few := (distinct.subperm among).length_le
  simp only [List.length_cons, List.length_map, List.length_range, length] at few
  exact Nat.not_succ_le_self _ few

/-- A name can be found unless what it takes leads around in a circle. -/
theorem nameEnds_iff_founded : t.NameEnds r ↔ t.Founded r :=
  ⟨NameEnds.founded, fun founded => ⟨_, founded.isSome_nameWithin⟩⟩

/-- The name that is found in any number of steps is the name of the node. -/
theorem name_of_nameWithin {text : String} (found : t.nameWithin fuel r = some text) :
    t.name r = text := by
  have ends : t.NameEnds r := ⟨fuel, by rw [found]; rfl⟩
  obtain ⟨name, enough⟩ := Option.isSome_iff_exists.mp ends.founded.isSome_nameWithin
  have wide := nameWithin_mono (Nat.le_max_left fuel (t.nodes.size + 1)) found
  have same := nameWithin_mono (Nat.le_max_right fuel (t.nodes.size + 1)) enough
  cases wide.symm.trans same
  rw [Tree.name, nameWithin_mono (Nat.le_succ _) enough, Option.getD_some]

/-! ### Methods that lead back -/

/-- A method that its parent is named after, where the node around that is named after the parent. -/
structure LeadsBack (t : Tree) (m : NodeRef) : Prop where
  method : t.DefinesMethod m
  parent : t.Names (t.parent m) m
  outer : t.Names (t.parent (t.parent m)) (t.parent m)

/-- The methods whose names the parts of `r` take lie outside of the node `q`. -/
def Outside (t : Tree) (q : NodeIndex) (r : NodeRef) : Prop :=
  ∀ m, ReflTransGen t.Names r m → t.DefinesMethod m → ∀ p, t.parent m = some p → q < p

theorem founded_of_asks (all : ∀ s, t.Asks r s → t.Founded s) : t.Founded r := by
  intro s reached circle
  rcases ReflTransGen.cases_head reached with rfl | ⟨next, asks, reached⟩
  · obtain ⟨next, asks, back⟩ := TransGen.head'_iff.mp circle
    exact all next asks r back circle
  · exact all next asks s reached circle

theorem founded_none (t : Tree) : t.Founded none := by
  refine founded_of_asks fun s asks => ?_
  cases asks with
  | part names =>
    obtain ⟨_, known, _⟩ := names
    cases known
  | owner method =>
    obtain ⟨_, _, _, _, _, known⟩ := method
    cases known

/-- Whose name a method takes: that of the node two levels up, or, if that is a class expression,
of what it names or of the node around it. -/
theorem methodOwner_cases {o : NodeIndex} (owner : t.methodOwner m = some o) :
    ∃ p g : NodeIndex, t.parent m = some p ∧ t.parent (some p) = some g ∧
      (o = g ∨ t.Names (some g) (some o) ∨ t.parent (some g) = some o) := by
  unfold methodOwner at owner
  dsimp only at owner
  cases around : t.parent m with
  | none =>
    rw [around] at owner
    cases owner
  | some p =>
    cases outer : t.parent (some p) with
    | none =>
      rw [around, outer] at owner
      cases owner
    | some g =>
      rw [around, outer] at owner
      refine ⟨p, g, rfl, outer, ?_⟩
      split at owner
      next n found =>
        have above : t.parent (some g) = n.parent := by rw [Tree.parent, found, Option.bind_some]
        split at owner
        next =>
          split at owner
          next id superClass body shape =>
            split at owner
            next =>
              refine Or.inr (Or.inl ⟨_, by rw [payload?, found, Option.map_some, shape], ?_⟩)
              rw [owner]
              exact List.mem_singleton_self _
            next => exact Or.inr (Or.inr (above.trans owner))
          next => exact Or.inr (Or.inr (above.trans owner))
        next => exact Or.inl (Option.some.inj owner).symm
      next => cases owner

namespace Attached

variable {root : NodeIndex} (h : t.Attached root)

include h

theorem lt_of_parent {i p : NodeIndex} (around : t.parent (some i) = some p) : i < p :=
  h.below p i (h.parent_iff.mp around)

theorem parent_of_names {i : NodeIndex} (names : t.Names r (some i)) :
    t.parent (some i) = r := by
  obtain ⟨payload, known, named⟩ := names
  cases r with
  | none => cases known
  | some p =>
    have listed := (h.shaped p payload known).2 i (Payload.mem_refs_of_named named)
    exact h.parent_iff.mpr listed

theorem leadsBack {i p : NodeIndex} (method : t.DefinesMethod (some i))
    (inner : t.Names (some p) (some i)) (outer : t.Names r (some p)) : t.LeadsBack (some i) := by
  have around := h.parent_of_names inner
  refine ⟨method, around ▸ inner, ?_⟩
  rw [around, h.parent_of_names outer]
  exact outer

/-- What a method takes the name of lies around it, or is what the class around it is named
after. -/
theorem beyond_of_methodOwner {p o : NodeIndex} (around : t.parent m = some p)
    (owner : t.methodOwner m = some o) :
    (∀ q : NodeIndex, t.parent (some o) = some q → p < q) ∧
      (p < o ∨ ∃ g, t.Names g (some o)) := by
  obtain ⟨p', g, also, above, cases⟩ := methodOwner_cases owner
  cases around.symm.trans also
  have first := h.lt_of_parent above
  rcases cases with rfl | named | beyond
  · exact ⟨fun q outer => Nat.lt_trans first (h.lt_of_parent outer), Or.inl first⟩
  · refine ⟨fun q outer => ?_, Or.inr ⟨_, named⟩⟩
    cases outer.symm.trans (h.parent_of_names named)
    exact first
  · have second := Nat.lt_trans first (h.lt_of_parent beyond)
    exact ⟨fun q outer => Nat.lt_trans second (h.lt_of_parent outer), Or.inl second⟩

/-- The methods that a method comes to through its class lie further out, as long as none leads
back. -/
theorem outside_methodOwner {p : NodeIndex} (around : t.parent m = some p)
    (straight : ∀ m', ReflTransGen t.Names (t.methodOwner m) m' → ¬ t.LeadsBack m') :
    t.Outside p (t.methodOwner m) := by
  intro m' reached method q outside
  have refuses := straight m' reached
  obtain ⟨k, rfl⟩ : ∃ k, m' = some k := by
    cases m' with
    | none => cases outside
    | some k => exact ⟨k, rfl⟩
  rcases ReflTransGen.cases_tail reached with owner | ⟨u, reached, inner⟩
  · exact (h.beyond_of_methodOwner around owner.symm).1 q outside
  · obtain rfl : u = some q := (h.parent_of_names inner).symm.trans outside
    -- The method is a part of its parent, so the parent must not be a part itself.
    rcases ReflTransGen.cases_tail reached with owner | ⟨_, _, outer⟩
    · rcases (h.beyond_of_methodOwner around owner.symm).2 with beyond | ⟨_, outer⟩
      · exact beyond
      · exact absurd (h.leadsBack method inner outer) refuses
    · exact absurd (h.leadsBack method inner outer) refuses

/-- Names lead down, to smaller indices, until they come to a method, and the next method they come
to lies further out. -/
theorem founded_of_outside (straight : ∀ m, ReflTransGen t.Asks r m → ¬ t.LeadsBack m) :
    ∀ (q : NodeIndex) (s : NodeRef), ReflTransGen t.Asks r s → t.Outside q s → t.Founded s := by
  refine t.forall_of_behind fun q outer s reached outside => ?_
  cases s with
  | none => exact t.founded_none
  | some i =>
    induction i using Nat.strongRecOn with
    | ind i inner =>
      refine founded_of_asks fun s asks => ?_
      have next := reached.tail asks
      cases asks with
      | part names =>
        cases s with
        | none => exact t.founded_none
        | some j =>
          have around := h.parent_of_names names
          exact inner j (h.lt_of_parent around) next fun m below => outside m (.head names below)
      | owner method =>
        cases owner : t.methodOwner (some i) with
        | none => exact t.founded_none
        | some o =>
          obtain ⟨p, _, around, _⟩ := methodOwner_cases owner
          have inside := lt_size_of_child (h.parent_iff.mp around)
          rw [← owner]
          refine outer p inside (outside (some i) .refl method p around) _ next ?_
          exact h.outside_methodOwner around fun m below =>
            straight m (next.trans (below.lift id fun _ _ names => Asks.part names))

theorem founded (straight : ∀ m, ReflTransGen t.Asks r m → ¬ t.LeadsBack m) : t.Founded r := by
  refine h.founded_of_outside straight 0 r .refl ?_
  intro m _ _ p around
  cases m with
  | none => cases around
  | some i => exact Nat.zero_lt_of_lt (h.lt_of_parent around)

theorem methodOwner_of_leadsBack (back : t.LeadsBack m) :
    t.methodOwner m = t.parent (t.parent m) ∨ t.methodOwner m = t.parent m := by
  obtain ⟨payload, known, named⟩ := back.outer
  obtain ⟨g, outer⟩ : ∃ g, t.parent (t.parent m) = some g := by
    cases outer : t.parent (t.parent m) with
    | none =>
      rw [outer] at known
      cases known
    | some g => exact ⟨g, rfl⟩
  rw [outer] at known
  obtain ⟨n, stored, rfl, listed⟩ := h.stored_of_payload known
  unfold methodOwner
  dsimp only
  rw [outer, stored]
  dsimp only
  split_ifs with expression
  · right
    obtain ⟨id, superClass, body, shape⟩ := class_of_kinds listed (by rw [expression]; rfl)
    rw [shape] at named ⊢
    dsimp only
    have same : t.parent m = id := List.mem_singleton.mp named
    have named : id.isSome := by
      rw [← same]
      cases around : t.parent m with
      | none =>
        rw [around] at outer
        cases outer
      | some p => rfl
    rw [if_pos named, same]
  · exact Or.inl rfl

theorem circle_of_leadsBack (back : t.LeadsBack m) : TransGen t.Asks m m := by
  have asks := Asks.owner back.method
  rcases h.methodOwner_of_leadsBack back with outer | inner
  · rw [outer] at asks
    exact .head asks (.head (.part back.outer) (.single (.part back.parent)))
  · rw [inner] at asks
    exact .head asks (.single (.part back.parent))

theorem nameEnds_iff_straight :
    t.NameEnds r ↔ ∀ m, ReflTransGen t.Asks r m → ¬ t.LeadsBack m := by
  constructor
  · intro ends m reached back
    exact ends.founded m reached (h.circle_of_leadsBack back)
  · exact fun straight => nameEnds_iff_founded.mpr (h.founded straight)

end Attached

theorem LeadsBack.exists_index (back : t.LeadsBack m) : ∃ i < t.nodes.size, m = some i := by
  obtain ⟨_, _, _, _, _, known⟩ := back.method
  obtain ⟨n, found, _⟩ := Option.map_eq_some_iff.mp known
  exact exists_index_of_node? found

theorem nameEnds_iff_of_read {file : String} {v : Json.Value} (read : Estree.ofValue file v = .ok t)
    (r : NodeRef) : t.NameEnds r ↔ ∀ m, ReflTransGen t.Asks r m → ¬ t.LeadsBack m := by
  rcases Nat.eq_zero_or_pos t.nodes.size with empty | filled
  · -- In an empty table nothing is asked.
    refine iff_of_true ⟨1, Option.isSome_iff_ne_none.mpr fun missing => ?_⟩ fun m _ back => ?_
    · obtain ⟨i, bound, _⟩ := exists_index_of_nameWithin missing
      omega
    · obtain ⟨i, bound, _⟩ := back.exists_index
      omega
  · obtain ⟨root, attached⟩ := Estree.exists_attached_ofValue read filled
    exact attached.nameEnds_iff_straight

/-- Where methods stand in the bodies of classes, every name has an end. -/
theorem nameEnds_of_bodies {file : String} {v : Json.Value} (read : Estree.ofValue file v = .ok t)
    (bodies : ∀ m, t.DefinesMethod m → t.kind? (t.parent m) = some .classBody) (r : NodeRef) :
    t.NameEnds r := by
  rw [nameEnds_iff_of_read read]
  intro m _ back
  have kind := bodies m back.method
  obtain ⟨payload, known, named⟩ := back.parent
  cases around : t.parent m with
  | none =>
    rw [around] at known
    cases known
  | some p =>
    rw [around] at known kind
    obtain ⟨n, stored, rfl, listed⟩ := (Estree.grown_ofValue read).stored_of_payload known
    have body : n.kind = .classBody := by simpa [kind?, stored] using kind
    have empty := Payload.eq_none_of_classBody (body ▸ listed)
    rw [empty] at named
    cases named

/-- A name has an end exactly when nothing that it takes, takes itself, and the text found is then
the name of the node; in a tree that was read it has one exactly when it comes to no method that
leads back. -/
theorem nameEnds_iff (t : Tree) (r : NodeRef) : (t.NameEnds r ↔ t.Founded r) ∧
    (∀ fuel text, t.nameWithin fuel r = some text → t.name r = text) ∧
    ∀ file v, Estree.ofValue file v = .ok t →
      (t.NameEnds r ↔ ∀ m, ReflTransGen t.Asks r m → ¬ t.LeadsBack m) :=
  ⟨nameEnds_iff_founded, fun _ _ found => name_of_nameWithin found,
    fun _ _ read => nameEnds_iff_of_read read r⟩

/-- The method of `cartUnit`, which is named after its class, comes to no method that leads back. -/
theorem nameEnds_cartUnit : (Estree.treeOf "cart.js" Estree.cartUnit).name (some 4) = "Cart#add" ∧
    ∀ m, ReflTransGen (Estree.treeOf "cart.js" Estree.cartUnit).Asks (some 4) m →
      ¬ (Estree.treeOf "cart.js" Estree.cartUnit).LeadsBack m := by
  obtain ⟨_, named, straight⟩ := nameEnds_iff (Estree.treeOf "cart.js" Estree.cartUnit) (some 4)
  have found : (Estree.treeOf "cart.js" Estree.cartUnit).nameWithin 6 (some 4) = some "Cart#add" := by
    decide +kernel
  have read : Estree.ofValue "cart.js" Estree.cartUnit =
    .ok (Estree.treeOf "cart.js" Estree.cartUnit) := rfl
  exact ⟨named 6 _ found, (straight _ _ read).mp ⟨6, by rw [found]; rfl⟩⟩

/-- An assignment to a method, as no source has it. -/
def assignedMethod : Json.Value :=
  .obj [("type", .str "Program"), ("body", .arr [.obj [("type", .str "ExpressionStatement"),
    ("expression", .obj [("type", .str "AssignmentExpression"),
      ("left", .obj [("type", .str "MethodDefinition"), ("kind", .str "method")])])]])]

theorem endless_assignedMethod : ¬ ∀ (file : String) (v : Json.Value) (t : Tree),
    Estree.ofValue file v = .ok t → ∀ i < t.nodes.size, t.NameEnds (some i) := by
  intro claim
  have read : Estree.ofValue "m.js" assignedMethod = .ok (Estree.treeOf "m.js" assignedMethod) := rfl
  have back : (Estree.treeOf "m.js" assignedMethod).LeadsBack (some 0) :=
    ⟨⟨none, none, .method, false, false, rfl⟩, ⟨.assignment "=" (some 0) none, rfl, .head _⟩,
      ⟨.expressionStatement (some 1), rfl, .head _⟩⟩
  have ends := claim "m.js" assignedMethod _ read 0 (by decide +kernel)
  exact (nameEnds_iff_of_read read _).mp ends (some 0) .refl back

end Tree

end Doclets
