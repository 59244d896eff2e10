import Doclets.Proofs.Registry.Held
import Doclets.Registry.Borrows
import Doclets.Registry.Inheritance

/-!
The registry, with every id checked. Each operation is run once more so that it fails with an id
that nothing is stored under, wherever it asks for the doclet of one. As long as all ids that are
kept are those of stored doclets nothing fails, and the result is that of the operation.
-/

namespace Doclets

/-- What is made of doclets that are asked for by their ids; the id in question if there is none. -/
abbrev Checked := Except DocletId

namespace Checked

/-! ### Doclets and results -/

def doclet (r : Registry) (id : DocletId) : Checked Doclet :=
  match r.doclets[id]? with
  | some d => .ok d
  | none => .error id

def modify (r : Registry) (id : DocletId) (f : Doclet → Doclet) : Checked Registry := do
  let _ ← doclet r id
  return r.modify id f

def addResult (r : Registry) (id : DocletId) : Checked Registry := do
  let d ← doclet r id
  return { r with results := r.results.push id, index := r.index.add id d }

def addDoclet (r : Registry) (d : Doclet) : Checked (DocletId × Registry) := do
  let (id, r) := r.insert d
  return (id, ← addResult r id)

def setUndocumented (r : Registry) (id : DocletId) (undocumented : Bool) : Checked Registry := do
  let r ← modify r id fun d => { d with undocumented := undocumented }
  let d ← doclet r id
  return { r with index := r.index.refile id d }

def resultDoclets (r : Registry) : Checked (List Doclet) := r.results.toList.mapM (doclet r)

/-- Asks for every id that a registry or what remains to be done keeps. -/
def inspect (r : Registry) (pending : List FollowUp) : Checked Unit :=
  forM (r.held ++ pending.flatMap FollowUp.held) fun id => do
    let _ ← doclet r id

/-! ### Registrations -/

def register (r : Registry) (key : ScopeKey) (id : DocletId) : Checked Registry := do
  let d ← doclet r id
  return { r with
    byNode := r.byNode.put key id
    byLongname := r.byLongname.put d.longname id }

def registerNode (r : Registry) (t : Tree) (node : NodeRef) (id : Option DocletId)
    (code : Symbol) : Checked Registry :=
  let key := ScopeKey.node (t.nodeId node)
  match id with
  | some id => register r key id
  | none =>
    let isFunction := (t.kind? node).any NodeKind.isFunction
    if !isFunction || r.byNode.contains key then .ok r
    else
      let line := ((t.node? node).map fun n => n.position.line).getD 0
      let (id, r) := r.insert (Doclet.placeholder (code.origin t) t.fileName line)
      register r key id

def ofNode? (r : Registry) (t : Tree) (node : NodeRef) : Checked (Option Doclet) :=
  if node.isNone then .ok none
  else
    match r.idOfNode? t node with
    | none => .ok none
    | some id => some <$> doclet r id

def declare (r : Registry) (scope : DocletId) (name : String) (longname : Option String) :
    Checked Registry :=
  modify r scope fun d =>
    { d with origin := { d.origin with vars := Ledger.insert name longname d.origin.vars } }

/-! ### Scopes -/

def memberOfScope (r : Registry) (t : Tree) (scope : NodeRef) (punctuation : String) :
    Checked Owner := do
  let longname := match ← ofNode? r t scope with
    | some d => d.longname
    | none => Longname.anonymous
  return .parent (longname ++ punctuation)

def declared? (r : Registry) (t : Tree) (node : NodeRef) (name : String) :
    Checked (Option (Option String)) := do
  let inScopes ← (t.scopesAround maxScopeWalk node).findSomeM? fun s => do
    return (← ofNode? r t (some s)).bind fun d => Ledger.get? name d.origin.vars
  match inScopes with
  | some longname => return some longname
  | none => return Ledger.get? name (← doclet r r.global).origin.vars

def ownerByName (r : Registry) (t : Tree) (node parent : NodeRef) : Checked Owner :=
  match Longname.basename? (t.name node) with
  | none => return .unknown
  | some basename => do
    match ← declared? r t node basename with
    | some longname => return ⟨longname, some basename⟩
    | none =>
      match ← ofNode? r t parent with
      | some d => return .parent d.longname
      | none => return .unknown

def ownerOfConstructor (r : Registry) (t : Tree) (scope : NodeRef) : Checked Owner := do
  return ⟨((← ofNode? r t scope).bind Doclet.memberof).map (· ++ "~"), none⟩

def ownerOfFactoryMethod (r : Registry) (t : Tree) (scope : NodeRef) (isStatic : Bool) :
    Checked Owner := do
  return ⟨(← ofNode? r t (t.parent scope)).map fun d =>
    d.longname ++ if isStatic then "." else "#", none⟩

def owner (r : Registry) (t : Tree) (node : NodeRef) : Checked Owner :=
  match t.node? node with
  | none => return .unknown
  | some n =>
    match n.kind with
    | .functionDeclaration | .functionExpression | .arrowFunctionExpression
    | .variableDeclarator =>
      if n.scope.isSome then memberOfScope r t n.scope "~" else ownerByName r t node n.parent
    | .classProperty | .classPrivateProperty =>
      if n.scope.isSome then memberOfScope r t n.scope "#" else ownerByName r t node n.parent
    | .methodDefinition =>
      if t.isConstructor node then ownerOfConstructor r t n.scope
      else if t.isFactoryMethod node then
        let isStatic := match n.payload with
          | .methodDefinition _ _ _ isStatic _ => isStatic
          | _ => false
        ownerOfFactoryMethod r t n.scope isStatic
      else ownerByName r t node n.parent
    | _ => ownerByName r t node n.parent

def classAt? (r : Registry) (t : Tree) (scope : NodeIndex) : Checked (Option DocletId) :=
  match r.idOfNode? t (some scope) with
  | none => return none
  | some id => do
    let d ← doclet r id
    if d.isClass then return some id
    else
      let path := Longname.shorten d.longname
      if path.scope = some '#' then
        match r.idOfLongname? path.memberof with
        | none => return none
        | some owner => return if (← doclet r owner).isClass then some owner else none
      else return none

def classAround? (r : Registry) (t : Tree) (node : NodeRef) : Checked (Option DocletId) :=
  (t.scopesAround maxScopeWalk node).findSomeM? (classAt? r t)

def declaringScope (r : Registry) (t : Tree) (node : NodeRef) (name : String) :
    Checked String := do
  let found ← (t.scopesWithinDeclaration maxScopeWalk node).findSomeM? fun s => do
    return (← ofNode? r t (some s)).bind fun d =>
      if Ledger.contains name d.origin.vars then some d.longname else none
  return found.getD ""

def thisIn? (r : Registry) (t : Tree) (node : NodeRef) (kind : NodeKind) (d : Doclet) :
    Checked (Option String) :=
  match d.thisName with
  | some this => return some this
  | none =>
    match d.kind, d.memberof with
    | some .function, some owner => do
      if (← classAround? r t node).isSome || (Text.before? ".constructor" d.longname).isSome then
        return some owner
      else return some d.longname
    | some .member, _ => return if kind.isAssignment then some d.longname else none
    | some .class, _ | some .module, _ => return some d.longname
    | _, _ => return none

def thisWithin (r : Registry) (t : Tree) : Nat → NodeRef → Checked String
  | 0, _ => return Longname.anonymous
  | limit + 1, node =>
    match t.node? node with
    | none => return Longname.anonymous
    | some n =>
      if n.kind = .property then do
        return ((← ofNode? r t n.parent).map Doclet.longname).getD ""
      else if n.scope.isNone then return Longname.anonymous
      else do
        match ← ofNode? r t (Registry.thisNode t n) with
        | none => return Longname.anonymous
        | some d =>
          match ← thisIn? r t node n.kind d with
          | some this => return this
          | none => thisWithin r t limit n.scope

def this (r : Registry) (t : Tree) (node : NodeRef) : Checked String :=
  thisWithin r t (maxThisDepth + 1) node

/-! ### What remains for a symbol -/

def joinEnumOf (member : DocletId) (r : Registry) (owner : DocletId) : Checked Registry := do
  if (← doclet r owner).isEnum then
    let types := (← doclet r owner).typeNames
    let r ← modify r member fun d =>
      { d with
        typeNames := d.typeNames.or types
        defaultValue := d.origin.code.bind CodeOrigin.value }
    let r ← setUndocumented r member false
    let copy ← doclet r member
    modify r owner fun d => { d with properties := d.properties ++ [copy] }
  else return r

def joinEnum (r : Registry) (t : Tree) (property : NodeRef) (member : DocletId) :
    Checked Registry :=
  (r.propertyOwners t property).foldlM (joinEnumOf member) r

def joinClass (r : Registry) (t : Tree) (method : NodeRef) (constructor : DocletId) :
    Checked Registry :=
  match r.idOfNode? t (t.parent (t.parent method)) with
  | none => return r
  | some owner => do
    if owner = constructor || (← doclet r owner).undocumented then return r
    else
      let merged := Registry.mergedClass (← doclet r owner) (← doclet r constructor)
      let r ← setUndocumented r owner true
      let r ← setUndocumented r constructor true
      return (← addDoclet r merged).2

def follow (t : Tree) (node : NodeRef) (name : String) (id : DocletId) (r : Registry) :
    FollowUp → Checked Registry
  | .trackName scope => do
    let d ← doclet r id
    if d.memberof.isSome then declare r scope name (some d.longname) else return r
  | .joinEnum => joinEnum r t node id
  | .joinClass => joinClass r t node id

/-! ### Members received from others -/

def passOn (relation : Relation) (receiver : String) (r : Registry) (member : DocletId) :
    Checked Registry := do
  let d ← doclet r member
  match d.sharedScope? with
  | none => return r
  | some scope =>
    let longname := receiver ++ scope.punctuation ++ d.ownName
    match (r.index.documentedAt longname).getLast? with
    | some own => modify r own fun existing => existing.inPlaceOf relation d.longname
    | none => return (← addDoclet r (d.copyFor relation receiver longname)).2

def copyMembers (relation : Relation) (receiver : DocletId) (r : Registry) (parent : String) :
    Checked Registry := do
  let longname := (← doclet r receiver).longname
  if longname = parent then return r
  else (r.index.membersOf parent).foldlM (passOn relation longname) r

def receive (relation : Relation) (r : Registry) (receiver : DocletId) : Checked Registry := do
  ((← doclet r receiver).related relation).foldlM (copyMembers relation receiver) r

def receivers (r : Registry) (relation : Relation) : Checked (List DocletId) :=
  r.results.toList.filterM fun id => do
    return !((← doclet r id).related relation).isEmpty

def nextBatch (r : Registry) (pending : List DocletId) : Checked (List DocletId) := do
  let waiting ← pending.mapM fun id => do
    return (← doclet r id).longname
  let ready ← pending.filterM fun id => do
    return (← doclet r id).augments.all fun p => !waiting.contains p
  return if ready.isEmpty then pending else ready

def inheritFrom : Nat → List DocletId → Registry → Checked Registry
  | 0, _, r => return r
  | fuel + 1, pending, r =>
    if pending.isEmpty then return r
    else do
      let batch ← nextBatch r pending
      let r ← batch.foldlM (receive .inherited) r
      inheritFrom fuel (pending.filter fun id => !batch.contains id) r

def inherit (r : Registry) : Checked Registry := do
  let pending := (← receivers r .inherited).eraseDups
  inheritFrom pending.length pending r

def receiveAll (relation : Relation) (r : Registry) : Checked Registry := do
  (← receivers r relation).foldlM (receive relation) r

def resolveAugments (r : Registry) : Checked Registry := do
  inherit (← receiveAll .implemented (← receiveAll .mixed r))

/-! ### Borrowed documentation -/

def meet (borrower : String) (r : Registry) (b : Borrow) : Checked Registry :=
  let (scope, name) := b.target
  (Ledger.listAt b.source r.index.longname).foldlM (fun r source => do
    return (← addDoclet r ((← doclet r source).lentTo borrower scope name)).2) r

def meetAll (r : Registry) (borrower : DocletId) : Checked Registry := do
  match (← doclet r borrower).borrowed with
  | none => return r
  | some requests =>
    let r ← modify r borrower fun d => { d with borrowed := none }
    requests.foldlM (meet (← doclet r borrower).longname) r

def resolveBorrows (r : Registry) : Checked Registry :=
  let pending := r.index.borrowed
  pending.foldlM meetAll { r with index := { r.index with borrowed := [] } }

/-! ### One step after the other -/

section

variable {α β ε : Type} {list : List α}

theorem bind_eq {first : Except ε α} {next : α → Except ε β} {a : α} (same : first = .ok a) :
    first >>= next = next a := by
  rw [same]
  rfl

theorem findSomeM?_eq {f : α → Except ε (Option β)} {g : α → Option β}
    (each : ∀ a ∈ list, f a = .ok (g a)) : list.findSomeM? f = .ok (list.findSome? g) := by
  induction list with
  | nil => rfl
  | cons a rest ih =>
    have others := ih fun b later => each b (List.mem_cons_of_mem _ later)
    rw [List.findSomeM?, each a List.mem_cons_self, List.findSome?]
    cases g a with
    | none => exact others
    | some b => rfl

theorem mapM_eq {f : α → Except ε β} {g : α → β} (each : ∀ a ∈ list, f a = .ok (g a)) :
    list.mapM f = .ok (list.map g) := by
  induction list with
  | nil => rfl
  | cons a rest ih =>
    rw [List.mapM_cons, each a List.mem_cons_self,
      ih fun b later => each b (List.mem_cons_of_mem _ later)]
    rfl

theorem filterM_eq {f : α → Except ε Bool} {g : α → Bool} (each : ∀ a ∈ list, f a = .ok (g a)) :
    list.filterM f = .ok (list.filter g) := by
  have collected (found : List α) :
      list.filterAuxM f found = .ok ((list.filter g).reverse ++ found) := by
    induction list generalizing found with
    | nil => rfl
    | cons a rest ih =>
      rw [List.filterAuxM, each a List.mem_cons_self]
      refine (ih (fun b later => each b (List.mem_cons_of_mem _ later)) _).trans ?_
      cases kept : g a <;> simp [kept]
  rw [List.filterM, collected, List.append_nil]
  exact congrArg Except.ok (List.reverse_reverse _)

theorem forM_eq_ok_iff {f : α → Except ε Unit} :
    forM list f = .ok () ↔ ∀ a ∈ list, f a = .ok () := by
  induction list with
  | nil => exact ⟨fun _ _ none => (nomatch none), fun _ => rfl⟩
  | cons a rest ih =>
    rw [List.forM_cons, List.forall_mem_cons, ← ih]
    cases f a with
    | error e => exact ⟨fun failed => (nomatch failed), fun both => (nomatch both.1)⟩
    | ok => exact ⟨fun others => ⟨rfl, others⟩, fun both => both.2⟩

end

variable {r : Registry} {id : DocletId}

theorem doclet_eq (bound : id < r.doclets.size) : doclet r id = .ok (r.doclet id) := by
  unfold doclet Registry.doclet
  rw [Array.getElem?_eq_getElem bound, Array.getD_eq_getD_getElem?, Array.getElem?_eq_getElem bound]
  rfl

/-- An inspection finds nothing exactly if all ids that are kept are those of stored doclets. -/
theorem inspect_eq_ok_iff {pending : List FollowUp} :
    inspect r pending = .ok () ↔ r.Bounded ∧ r.Supports pending := by
  have asked (id : DocletId) : (do let _ ← doclet r id : Checked Unit) = .ok () ↔
      id < r.doclets.size := by
    by_cases stored : id < r.doclets.size
    · rw [doclet_eq stored]
      exact ⟨fun _ => stored, fun _ => rfl⟩
    · unfold doclet
      rw [Array.getElem?_eq_none (Nat.le_of_not_lt stored)]
      exact ⟨fun failed => (nomatch failed), fun bound => absurd bound stored⟩
  unfold inspect
  simp only [forM_eq_ok_iff, asked, List.mem_append, List.mem_flatMap, or_imp, forall_and,
    forall_exists_index, and_imp]
  exact and_congr Iff.rfl ⟨fun all f waiting id held => all id f waiting held,
    fun all id f waiting held => all f waiting id held⟩

/-! ### What is asked -/

section

variable (h : r.Bounded) (t : Tree) (node : NodeRef)

include h

theorem ofNode?_eq : ofNode? r t node = .ok (r.ofNode? t node) := by
  unfold ofNode? Registry.ofNode?
  split
  · rfl
  · cases found : r.idOfNode? t node with
    | none => rfl
    | some id =>
      dsimp only
      rw [doclet_eq (h.ofNode found)]
      rfl

theorem resultDoclets_eq : resultDoclets r = .ok r.resultDoclets :=
  mapM_eq fun _ listed => doclet_eq (h.result (Array.mem_toList_iff.mp listed))

theorem memberOfScope_eq (punctuation : String) :
    memberOfScope r t node punctuation = .ok (r.memberOfScope t node punctuation) := by
  unfold memberOfScope
  rw [ofNode?_eq h]
  rfl

theorem declared?_eq (name : String) : declared? r t node name = .ok (r.declared? t node name) := by
  unfold declared? Registry.declared?
  rw [findSomeM?_eq (g := fun s => (r.ofNode? t (some s)).bind fun d =>
    Ledger.get? name d.origin.vars) fun s _ => by rw [ofNode?_eq h]; rfl, doclet_eq h.global]
  cases (t.scopesAround maxScopeWalk node).findSome? fun s =>
    (r.ofNode? t (some s)).bind fun d => Ledger.get? name d.origin.vars <;> rfl

theorem ownerByName_eq (parent : NodeRef) :
    ownerByName r t node parent = .ok (r.ownerByName t node parent) := by
  unfold ownerByName Registry.ownerByName
  cases Longname.basename? (t.name node) with
  | none => rfl
  | some basename =>
    dsimp only
    rw [declared?_eq h, ofNode?_eq h]
    cases r.declared? t node basename with
    | some longname => rfl
    | none => cases r.ofNode? t parent <;> rfl

theorem ownerOfConstructor_eq :
    ownerOfConstructor r t node = .ok (r.ownerOfConstructor t node) := by
  unfold ownerOfConstructor
  rw [ofNode?_eq h]
  rfl

theorem ownerOfFactoryMethod_eq (isStatic : Bool) :
    ownerOfFactoryMethod r t node isStatic = .ok (r.ownerOfFactoryMethod t node isStatic) := by
  unfold ownerOfFactoryMethod
  rw [ofNode?_eq h]
  rfl

theorem owner_eq : owner r t node = .ok (r.owner t node) := by
  unfold owner Registry.owner
  cases t.node? node with
  | none => rfl
  | some n =>
    simp only [memberOfScope_eq h, ownerByName_eq h, ownerOfConstructor_eq h,
      ownerOfFactoryMethod_eq h, ← apply_ite Except.ok]
    cases n.kind <;> rfl

theorem classAt?_eq (scope : NodeIndex) : classAt? r t scope = .ok (r.classAt? t scope) := by
  unfold classAt? Registry.classAt?
  cases found : r.idOfNode? t (some scope) with
  | none => rfl
  | some id =>
    dsimp only
    rw [bind_eq (doclet_eq (h.ofNode found))]
    split
    · rfl
    · split
      · cases around : r.idOfLongname? (Longname.shorten (r.doclet id).longname).memberof with
        | none => rfl
        | some owner =>
          dsimp only
          rw [doclet_eq (h.ofLongname around)]
          rfl
      · rfl

theorem classAround?_eq : classAround? r t node = .ok (r.classAround? t node) :=
  findSomeM?_eq fun scope _ => classAt?_eq h t scope

theorem declaringScope_eq (name : String) :
    declaringScope r t node name = .ok (r.declaringScope t node name) := by
  unfold declaringScope
  rw [findSomeM?_eq (g := fun s => (r.ofNode? t (some s)).bind fun d =>
    if Ledger.contains name d.origin.vars then some d.longname else none)
    fun s _ => by rw [ofNode?_eq h]; rfl]
  rfl

theorem thisIn?_eq (kind : NodeKind) (d : Doclet) :
    thisIn? r t node kind d = .ok (r.thisIn? t node kind d) := by
  unfold thisIn? Registry.thisIn?
  rw [classAround?_eq h]
  cases d.thisName with
  | some this => rfl
  | none =>
    dsimp only
    cases d.kind with
    | none => rfl
    | some made =>
      cases made <;> try rfl
      cases d.memberof with
      | none => rfl
      | some owner =>
        change (if _ then _ else _ : Checked _) = _
        split <;> rfl

theorem thisWithin_eq (limit : Nat) :
    thisWithin r t limit node = .ok (r.thisWithin t limit node) := by
  induction limit generalizing node with
  | zero => rfl
  | succ limit ih =>
    unfold thisWithin Registry.thisWithin
    cases t.node? node with
    | none => rfl
    | some n =>
      dsimp only
      rw [ofNode?_eq h, ofNode?_eq h]
      split
      · rfl
      · split
        · rfl
        · cases r.ofNode? t (Registry.thisNode t n) with
          | none => rfl
          | some d =>
            change (thisIn? r t node n.kind d >>= _) = _
            rw [bind_eq (thisIn?_eq h t node n.kind d)]
            dsimp only
            cases r.thisIn? t node n.kind d with
            | some this => rfl
            | none => exact ih n.scope

theorem this_eq : this r t node = .ok (r.this t node) := thisWithin_eq h t node _

end

/-- A registry that can be asked everything: for the doclet of a node or a longname, for the scopes
around a node, and for its results. -/
structure Answers (r : Registry) : Prop where
  ofNode : ∀ (t : Tree) (node : NodeRef), ofNode? r t node = .ok (r.ofNode? t node)
  ofLongname : ∀ longname, ∀ id ∈ r.idOfLongname? longname, doclet r id = .ok (r.doclet id)
  owner : ∀ (t : Tree) (node : NodeRef), owner r t node = .ok (r.owner t node)
  this : ∀ (t : Tree) (node : NodeRef), this r t node = .ok (r.this t node)
  classAround : ∀ (t : Tree) (node : NodeRef),
    classAround? r t node = .ok (r.classAround? t node)
  declaringScope : ∀ (t : Tree) (node : NodeRef) (name : String),
    declaringScope r t node name = .ok (r.declaringScope t node name)
  results : resultDoclets r = .ok r.resultDoclets

theorem answers (h : r.Bounded) : Answers r where
  ofNode := ofNode?_eq h
  ofLongname _ _ found := doclet_eq (h.ofLongname found)
  owner := owner_eq h
  this := this_eq h
  classAround := classAround?_eq h
  declaringScope := declaringScope_eq h
  results := resultDoclets_eq h

theorem receivers_eq (h : r.Bounded) (relation : Relation) :
    receivers r relation = .ok (r.receivers relation) :=
  filterM_eq fun id listed => by
    rw [doclet_eq (h.result (Array.mem_toList_iff.mp listed))]
    rfl

theorem nextBatch_eq {pending : List DocletId} (bound : ∀ id ∈ pending, id < r.doclets.size) :
    nextBatch r pending = .ok (r.nextBatch pending) := by
  unfold nextBatch
  rw [bind_eq (mapM_eq (g := fun id => (r.doclet id).longname) fun id waiting => by
    rw [doclet_eq (bound id waiting)]; rfl)]
  rw [filterM_eq (g := fun id => (r.doclet id).augments.all fun p =>
    !(pending.map fun id => (r.doclet id).longname).contains p) fun id waiting => by
      rw [doclet_eq (bound id waiting)]; rfl]
  rfl

end Checked

end Doclets
