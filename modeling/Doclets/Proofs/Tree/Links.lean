import Doclets.Tree

/-!
What linking finds. Every node that can be reached from the root is put on the stack once, when it
gets its link, and its children get theirs when it is taken off again; so in the end the linked
nodes are closed under children, and every link but the root's comes from a linked parent.
-/

namespace Doclets.Tree

/-- The link found for a node. -/
def Links.link? (found : Links) (i : NodeIndex) : Option Link := found[i]?.join

/-- The nodes that have no link yet. -/
def Links.waiting (found : Links) : Nat := found.countP Option.isNone

/-- What linking some children adds to the links and the stack. -/
structure LinksChildren (link : Link) (children : List NodeIndex)
    (before after : Links × List NodeIndex) : Prop where
  size : after.1.size = before.1.size
  kept : ∀ i old, before.1.link? i = some old → after.1.link? i = some old
  new : ∀ i l, after.1.link? i = some l → before.1.link? i = some l ∨
    before.1.link? i = none ∧ i ∈ children ∧ l = link
  linked : ∀ i ∈ children, i < before.1.size → (after.1.link? i).isSome
  stack : ∀ i, i ∈ after.2 ↔
    i ∈ before.2 ∨ before.1.link? i = none ∧ (after.1.link? i).isSome
  waiting : after.1.waiting + after.2.length = before.1.waiting + before.2.length

variable {link : Link} {children : List NodeIndex} {before after last : Links × List NodeIndex}

theorem link?_set {links : Links} {i : NodeIndex} (bound : i < links.size) (link : Link)
    (j : NodeIndex) : Links.link? (links.set! i (some link)) j =
      if i = j then some link else links.link? j := by
  unfold Links.link?
  rw [Array.set!_eq_setIfInBounds, Array.getElem?_setIfInBounds]
  split
  next => rfl
  next => rfl

theorem waiting_set {links : Links} {i : NodeIndex} (free : links[i]? = some none) (link : Link) :
    Links.waiting (links.set! i (some link)) + 1 = links.waiting := by
  obtain ⟨bound, free⟩ := Array.getElem?_eq_some_iff.mp free
  have here : 0 < links.countP Option.isNone := by
    rw [Array.countP_pos_iff]
    exact ⟨links[i], Array.getElem_mem bound, by rw [free]; rfl⟩
  unfold Links.waiting
  rw [Array.set!_eq_setIfInBounds, Array.setIfInBounds, dif_pos bound, Array.countP_set bound, free]
  simp only [Option.isNone_none, Option.isNone_some, if_true, Bool.false_eq_true, if_false]
  omega

theorem LinksChildren.refl (link : Link) (found : Links × List NodeIndex) :
    LinksChildren link [] found found where
  size := rfl
  kept _ _ same := same
  new _ _ same := Or.inl same
  linked _ listed := by cases listed
  stack i := by
    constructor
    · exact Or.inl
    · rintro (old | ⟨absent, present⟩)
      · exact old
      · rw [absent] at present
        cases present
  waiting := rfl

theorem linksChildren_linkChild (link : Link) (found : Links × List NodeIndex) (i : NodeIndex) :
    LinksChildren link [i] found (linkChild link found i) := by
  obtain ⟨links, stack⟩ := found
  unfold linkChild
  dsimp only
  split
  next free =>
    have bound : i < links.size := (Array.getElem?_eq_some_iff.mp free).1
    have none : links.link? i = none := by
      rw [Links.link?, free]
      rfl
    have set := link?_set bound link
    refine ⟨by simp, ?_, ?_, ?_, ?_, ?_⟩
    · intro j old found
      rw [set, if_neg]
      · exact found
      · rintro rfl
        rw [none] at found
        cases found
    · intro j l found
      rw [set] at found
      split at found
      next same => exact Or.inr ⟨same ▸ none, by simp [same], (Option.some.inj found).symm⟩
      next => exact Or.inl found
    · intro j listed _
      rw [List.mem_singleton.mp listed, set, if_pos rfl]
      rfl
    · intro j
      rw [set, List.mem_cons]
      by_cases same : i = j
      · subst same
        simp [none]
      · rw [if_neg same]
        have stays := (LinksChildren.refl link (links, stack)).stack j
        exact (or_iff_right (Ne.symm same)).trans stays
    · have count := waiting_set free link
      simp only [List.length_cons]
      omega
  next taken =>
    refine { LinksChildren.refl link (links, stack) with new := ?_, linked := ?_ }
    · exact fun _ _ same => Or.inl same
    · intro j listed bound
      rw [List.mem_singleton.mp listed] at bound ⊢
      have entry : links[i]? = some links[i] := Array.getElem?_eq_getElem bound
      cases value : links[i] with
      | none => exact absurd (value ▸ entry) taken
      | some old =>
        rw [Links.link?, entry, value]
        rfl

theorem LinksChildren.trans {more : List NodeIndex}
    (first : LinksChildren link children before after)
    (second : LinksChildren link more after last) :
    LinksChildren link (children ++ more) before last where
  size := second.size.trans first.size
  kept i old found := second.kept i old (first.kept i old found)
  new i l found := by
    rcases second.new i l found with old | ⟨absent, listed, same⟩
    · rcases first.new i l old with old | ⟨absent, listed, same⟩
      · exact Or.inl old
      · exact Or.inr ⟨absent, List.mem_append_left _ listed, same⟩
    · refine Or.inr ⟨?_, List.mem_append_right _ listed, same⟩
      rw [Option.eq_none_iff_forall_ne_some]
      intro old found
      rw [first.kept i old found] at absent
      cases absent
  linked i listed bound := by
    rcases List.mem_append.mp listed with early | late
    · obtain ⟨old, found⟩ := Option.isSome_iff_exists.mp (first.linked i early bound)
      rw [second.kept i old found]
      rfl
    · exact second.linked i late (first.size ▸ bound)
  stack i := by
    have keep (absent : before.1.link? i = none) (present : (after.1.link? i).isSome) :
        (last.1.link? i).isSome := by
      obtain ⟨old, found⟩ := Option.isSome_iff_exists.mp present
      rw [second.kept i old found]
      rfl
    rw [second.stack, first.stack]
    constructor
    · rintro ((old | ⟨absent, present⟩) | ⟨absent, present⟩)
      · exact Or.inl old
      · exact Or.inr ⟨absent, keep absent present⟩
      · refine Or.inr ⟨?_, present⟩
        rw [Option.eq_none_iff_forall_ne_some]
        intro old found
        rw [first.kept i old found] at absent
        cases absent
    · rintro (old | ⟨absent, present⟩)
      · exact Or.inl (Or.inl old)
      · by_cases early : (after.1.link? i).isSome
        · exact Or.inl (Or.inr ⟨absent, early⟩)
        · exact Or.inr ⟨by simpa using early, present⟩
  waiting := second.waiting.trans first.waiting

theorem linksChildren_foldl (link : Link) (children : List NodeIndex)
    (found : Links × List NodeIndex) :
    LinksChildren link children found (children.foldl (linkChild link) found) := by
  induction children generalizing found with
  | nil => exact .refl link found
  | cons child rest ih => exact (linksChildren_linkChild link found child).trans (ih _)

/-! ### The whole table -/

/-- The parents that were found lead from a node up to the root. -/
inductive Links.Leads (found : Links) (root : NodeIndex) : NodeIndex → Prop
  | top : Leads found root root
  | up {i p : NodeIndex} {link : Link} (linked : found.link? i = some link)
    (above : link.parent = some p) (rest : Leads found root p) : Leads found root i

theorem Links.Leads.mono {found more : Links} {root i : NodeIndex} (h : found.Leads root i)
    (kept : ∀ i link, found.link? i = some link → more.link? i = some link) :
    more.Leads root i := by
  induction h with
  | top => exact .top
  | up linked above _ ih => exact .up (kept _ _ linked) above ih

/-- How far linking has come: the nodes on the stack are linked, but not their children. -/
structure Linking (t : Tree) (root : NodeIndex) (found : Links) (stack : List NodeIndex) : Prop where
  size : found.size = t.nodes.size
  begun : found.link? root = some ⟨none, none⟩
  justified : ∀ i link, found.link? i = some link → i ≠ root →
    ∃ p above, found.link? p = some above ∧ i ∈ t.childrenOf p ∧
      link = ⟨some p, t.scopeBelow p above.scope⟩
  leads : ∀ i, (found.link? i).isSome → found.Leads root i
  stacked : ∀ i ∈ stack, (found.link? i).isSome
  closed : ∀ i link, found.link? i = some link → i ∉ stack →
    ∀ child ∈ t.childrenOf i, child < t.nodes.size → (found.link? child).isSome

theorem Linking.step {t : Tree} {root i : NodeIndex} {found : Links} {stack : List NodeIndex}
    {above : Link} (h : Linking t root found (i :: stack)) (link : found.link? i = some above)
    (linked : LinksChildren ⟨some i, t.scopeBelow i above.scope⟩ (t.childrenOf i) (found, stack)
      after) : Linking t root after.1 after.2 where
  size := linked.size.trans h.size
  begun := linked.kept _ _ h.begun
  justified j l present other := by
    rcases linked.new j l present with old | ⟨_, listed, same⟩
    · obtain ⟨p, upper, there, child, same⟩ := h.justified j l old other
      exact ⟨p, upper, linked.kept _ _ there, child, same⟩
    · exact ⟨i, above, linked.kept _ _ link, listed, same⟩
  leads j present := by
    obtain ⟨l, there⟩ := Option.isSome_iff_exists.mp present
    rcases linked.new j l there with old | ⟨_, _, rfl⟩
    · exact (h.leads j (Option.isSome_of_eq_some old)).mono linked.kept
    · have upward := (h.leads i (Option.isSome_of_eq_some link)).mono linked.kept
      exact .up there rfl upward
  stacked j member := by
    rcases (linked.stack j).mp member with old | ⟨_, present⟩
    · obtain ⟨l, there⟩ := Option.isSome_iff_exists.mp (h.stacked j (List.mem_cons_of_mem _ old))
      rw [linked.kept _ _ there]
      rfl
    · exact present
  closed j l present off child listed bound := by
    have absent := mt (linked.stack j).mpr off
    rw [not_or, not_and] at absent
    rcases linked.new j l present with old | ⟨free, _, _⟩
    · by_cases this : j = i
      · exact linked.linked child (this ▸ listed) (h.size ▸ bound)
      · have settled := h.closed j l old (by simp [this, absent.1]) child listed bound
        obtain ⟨own, there⟩ := Option.isSome_iff_exists.mp settled
        rw [linked.kept _ _ there]
        rfl
    · exact absurd (by rw [present]; rfl) (absent.2 free)

theorem Linking.linkFrom {t : Tree} {root : NodeIndex} {found : Links} {stack : List NodeIndex}
    (fuel : Nat) (h : Linking t root found stack)
    (enough : found.waiting + stack.length ≤ fuel) :
    Linking t root (t.linkFrom fuel found stack) [] := by
  induction fuel generalizing found stack with
  | zero =>
    have empty : stack = [] := List.eq_nil_of_length_eq_zero (by omega)
    subst empty
    exact h
  | succ fuel ih =>
    cases stack with
    | nil => exact h
    | cons i stack =>
      obtain ⟨above, link⟩ := Option.isSome_iff_exists.mp (h.stacked i List.mem_cons_self)
      have entry : found[i]? = some (some above) := Option.join_eq_some_iff.mp link
      have linked := linksChildren_foldl ⟨some i, t.scopeBelow i above.scope⟩ (t.childrenOf i)
        (found, stack)
      unfold Tree.linkFrom
      rw [entry]
      dsimp only
      apply ih (h.step link linked)
      have count := linked.waiting
      simp only [List.length_cons] at enough count
      omega

/-- The links before linking begins: only the root has one, to nothing. -/
def startLinks (t : Tree) (root : NodeIndex) : Links :=
  (Array.replicate t.nodes.size none).set! root (some ⟨none, none⟩)

/-- A node with the link that was found for it. -/
def Links.give (found : Links) (i : NodeIndex) (n : Node) : Node :=
  match found.link? i with
  | some link => { n with parent := link.parent, scope := link.scope }
  | none => n

section

variable {t : Tree} {root : NodeIndex} (bound : root < t.nodes.size)

include bound

theorem link?_startLinks (i : NodeIndex) :
    (t.startLinks root).link? i = if root = i then some ⟨none, none⟩ else none := by
  have size : root < (Array.replicate t.nodes.size (none : Option Link)).size := by
    simpa using bound
  have unlinked : Links.link? (Array.replicate t.nodes.size (none : Option Link)) i = none := by
    rw [Links.link?, Array.getElem?_replicate]
    split <;> rfl
  rw [startLinks, link?_set size, unlinked]

theorem waiting_startLinks : (t.startLinks root).waiting + 1 = t.nodes.size := by
  have free : (Array.replicate t.nodes.size (none : Option Link))[root]? = some none := by
    simp [bound]
  rw [startLinks, waiting_set free]
  simp [Links.waiting, Array.countP_replicate]

theorem linking_start : Linking t root (t.startLinks root) [root] := by
  have link := link?_startLinks bound
  have only {i : NodeIndex} {l : Link} (found : (t.startLinks root).link? i = some l) :
      i = root := by
    rw [link] at found
    split at found
    next same => exact same.symm
    next => cases found
  refine ⟨by simp [startLinks], ?_, ?_, ?_, ?_, ?_⟩
  · rw [link, if_pos rfl]
  · exact fun i l found other => absurd (only found) other
  · intro i present
    obtain ⟨l, found⟩ := Option.isSome_iff_exists.mp present
    rw [only found]
    exact .top
  · intro i listed
    rw [List.mem_singleton.mp listed, link, if_pos rfl]
    rfl
  · exact fun i l found off => absurd (List.mem_singleton.mpr (only found)) off

/-- Linking gives every node the link that is found for it. -/
theorem getElem?_link (start : t.root = some root) (i : NodeIndex) :
    t.link.nodes[i]? = (t.nodes[i]?).map
      ((t.linkFrom t.nodes.size (t.startLinks root) [root]).give i) := by
  unfold link
  simp only [start, if_pos bound, Array.getElem?_mapIdx]
  congr 1
  funext n
  unfold Links.give Links.link?
  split
  next found => rw [show (t.linkFrom _ (t.startLinks root) [root])[i]? = _ from found]; rfl
  next missing =>
    split
    next link found => exact absurd (Option.join_eq_some_iff.mp found) (missing link)
    next => rfl

end

/-- The links that a tree is given, where its root is in the table. -/
theorem exists_linking {t : Tree} {root : NodeIndex} (start : t.root = some root)
    (bound : root < t.nodes.size) : ∃ found : Links, Linking t root found [] ∧
      ∀ i, t.link.nodes[i]? = (t.nodes[i]?).map (found.give i) := by
  refine ⟨_, (linking_start bound).linkFrom t.nodes.size ?_, getElem?_link bound start⟩
  exact Nat.le_of_eq (waiting_startLinks bound)

/-! ### What linking keeps -/

/-- What a node is and refers to, whatever it is linked to and wherever it stands. -/
def nodeShape (n : Node) : NodeKind × Payload × List NodeIndex := (n.kind, n.payload, n.children)

theorem childrenOf_eq (t : Tree) (i : NodeIndex) :
    t.childrenOf i = ((t.nodes[i]?).map Node.children).getD [] := by
  unfold childrenOf
  cases t.nodes[i]? <;> rfl

theorem exists_of_child {t : Tree} {p child : NodeIndex} (listed : child ∈ t.childrenOf p) :
    ∃ n, t.nodes[p]? = some n ∧ child ∈ n.children := by
  unfold childrenOf at listed
  split at listed
  next n stored => exact ⟨n, stored, listed⟩
  next => cases listed

theorem lt_size_of_child {t : Tree} {p child : NodeIndex} (listed : child ∈ t.childrenOf p) :
    p < t.nodes.size := by
  obtain ⟨_, stored, _⟩ := exists_of_child listed
  exact (Array.getElem?_eq_some_iff.mp stored).1

theorem scopeBelow_eq (t : Tree) (i : NodeIndex) (r : NodeRef) :
    t.scopeBelow i r = if (t.kind? (some i)).any NodeKind.opensScope then some i else r := by
  rw [scopeBelow, kind?, show t.node? (some i) = t.nodes[i]? from rfl]
  cases t.nodes[i]? <;> rfl

/-- The same nodes, with other links, comments or places. -/
def SameShape (nodes others : Array Node) : Prop :=
  ∀ i : NodeIndex, (others[i]?).map nodeShape = (nodes[i]?).map nodeShape

theorem SameShape.trans {first second third : Array Node} (one : SameShape first second)
    (two : SameShape second third) : SameShape first third := fun i => (two i).trans (one i)

section

variable {t u : Tree} (same : SameShape t.nodes u.nodes)

include same

theorem SameShape.node? (r : NodeRef) : (u.node? r).map nodeShape = (t.node? r).map nodeShape := by
  cases r with
  | none => rfl
  | some i => exact same i

theorem SameShape.kind? (r : NodeRef) : u.kind? r = t.kind? r := by
  have kinds := congrArg (Option.map (·.1)) (same.node? r)
  rwa [Option.map_map, Option.map_map] at kinds

theorem SameShape.payload? (r : NodeRef) : u.payload? r = t.payload? r := by
  have payloads := congrArg (Option.map (·.2.1)) (same.node? r)
  rwa [Option.map_map, Option.map_map] at payloads

theorem SameShape.childrenOf (i : NodeIndex) : u.childrenOf i = t.childrenOf i := by
  have children := congrArg (Option.map (·.2.2)) (same i)
  rw [Option.map_map, Option.map_map] at children
  rw [childrenOf_eq, childrenOf_eq]
  exact congrArg (·.getD []) children

theorem SameShape.scopeBelow (i : NodeIndex) (r : NodeRef) :
    u.scopeBelow i r = t.scopeBelow i r := by
  rw [scopeBelow_eq, scopeBelow_eq, same.kind?]

theorem SameShape.size : u.nodes.size = t.nodes.size := by
  have outside (i : NodeIndex) : u.nodes.size ≤ i ↔ t.nodes.size ≤ i := by
    rw [← Array.getElem?_eq_none_iff, ← Array.getElem?_eq_none_iff,
      ← Option.map_eq_none_iff (f := nodeShape), same i, Option.map_eq_none_iff]
  exact Nat.le_antisymm ((outside _).mpr (Nat.le_refl _)) ((outside _).mp (Nat.le_refl _))

end

/-- Linking changes nothing but nodes. -/
theorem link_eq (t : Tree) : t.link = { t with nodes := t.link.nodes } := by
  unfold link
  split
  · rfl
  · split <;> rfl

@[simp] theorem root_link (t : Tree) : t.link.root = t.root := by rw [link_eq]

theorem comments_link (t : Tree) : t.link.comments = t.comments := by rw [link_eq]

/-- Linking leaves what a node has besides its links. -/
theorem getElem?_link_map {α : Type} (t : Tree) (f : Node → α)
    (kept : ∀ n parent scope, f { n with parent, scope } = f n) (i : NodeIndex) :
    t.link.nodes[i]?.map f = t.nodes[i]?.map f := by
  unfold link
  split
  · rfl
  · split
    · simp only [Array.getElem?_mapIdx, Option.map_map]
      congr 1
      funext n
      dsimp only [Function.comp_apply]
      split
      · exact kept n _ _
      · rfl
    · rfl

/-- Linking leaves what stands in front of the nodes. -/
theorem getElem?_link_comments (t : Tree) (i : NodeIndex) :
    t.link.nodes[i]?.map Node.comments = t.nodes[i]?.map Node.comments :=
  t.getElem?_link_map Node.comments (fun _ _ _ => rfl) i

theorem sameShape_link (t : Tree) : SameShape t.nodes t.link.nodes :=
  t.getElem?_link_map nodeShape fun _ _ _ => rfl

end Doclets.Tree
