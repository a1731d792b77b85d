import DreamWorld.Proofs.Syntax.Occurrence

/-!
# What traversals visit

A visitor that goes on at every node visits each occurrence of a node once, in the order in which
an outline lists them, and at the depth that the address of the occurrence gives.  A visitor that
stops at nodes of some kinds visits the same occurrences in the same order, except for those that
have an owner of these kinds.  A visitor that overrides only a few visits meets the same nodes as
one that overrides them all.
-/

namespace DreamWorld.Syntax

universe u

variable {σ : Type u}

/-- A statement holds of every node if it holds of a node as soon as it holds of its children. -/
theorem Node.childInduction {motive : Node → Prop}
    (step : ∀ node, (∀ child ∈ node.children, motive child) → motive node) (node : Node) :
    motive node :=
  step node fun child _ => childInduction step child
termination_by sizeOf node
decreasing_by exact Node.sizeOf_lt_of_mem_children ‹_›

theorem Visitor.walk_eq (visitor : Visitor σ) (node : Node) (state : σ) :
    visitor.walk node state =
      visitor node
        (fun state => node.children.foldl (fun state child => visitor.walk child state) state)
        state := by
  rw [Visitor.walk]
  simp only [List.foldl_subtype, List.unattach_attach]

/-- If walking each item extends a state by what the item shows, then walking the items one after
another extends it by all that they show.  What an item shows may depend on the part of the state
that is not extended. -/
theorem foldl_eq_extend {α β : Type} {walk : σ → α → σ} {extend : σ → List β → σ}
    {shows : σ → α → List β} {items : List α} (extend_nil : ∀ state, extend state [] = state)
    (extend_extend : ∀ state first second,
      extend (extend state first) second = extend state (first ++ second))
    (shows_extend : ∀ state shown, shows (extend state shown) = shows state)
    (walked : ∀ item ∈ items, ∀ state, walk state item = extend state (shows state item))
    (state : σ) : items.foldl walk state = extend state (items.flatMap (shows state)) := by
  induction items generalizing state with
  | nil => exact (extend_nil state).symm
  | cons item rest ih =>
      rcases List.forall_mem_cons.mp walked with ⟨itemWalked, restWalked⟩
      rw [List.foldl_cons, itemWalked, ih restWalked, shows_extend, extend_extend,
        List.flatMap_cons]

/-! ## Traces -/

/-- The visit of an occurrence, as deep as its address is long. -/
def Occurrence.visit (occurrence : Occurrence) : Visit :=
  ⟨occurrence.address.length, occurrence.node.kind, occurrence.node.label⟩

/-- The visit of an occurrence in a traversal that begins at a depth. -/
def Occurrence.visitFrom (depth : Nat) (occurrence : Occurrence) : Visit :=
  { occurrence.visit with depth := depth + occurrence.address.length }

/-- Some owner of an occurrence is of one of the given kinds. -/
def Occurrence.isBelow (stops : List NodeKind) (occurrence : Occurrence) : Bool :=
  occurrence.owners.any fun owner => stops.contains owner.kind

/-- The occurrences that have no owner of the given kinds. -/
def Outline.shown (stops : List NodeKind) (outline : Outline) : List Occurrence :=
  outline.occurrences.filter fun occurrence => !occurrence.isBelow stops

theorem Occurrence.visitFrom_zero : Occurrence.visitFrom 0 = Occurrence.visit := by
  funext occurrence
  rw [visitFrom, Nat.zero_add]
  rfl

theorem Occurrence.visitFrom_within (depth index : Nat) (owner : Node) (occurrence : Occurrence) :
    (occurrence.within index owner).visitFrom depth = occurrence.visitFrom (depth + 1) := by
  rw [visitFrom, visitFrom, Nat.add_right_comm]
  rfl

/-- What a trace shows of the parts of a node: nothing if it stops there, and otherwise what it
shows of each part, one deeper. -/
theorem map_visitFrom_occurrencesFrom (stops : List NodeKind) (depth : Nat) (owner : Node)
    (start : Nat) (parts : List Outline) :
    ((occurrencesFrom owner start parts).filter fun occurrence => !occurrence.isBelow stops).map
        (Occurrence.visitFrom depth) =
      if stops.contains owner.kind then []
      else parts.flatMap fun part => (part.shown stops).map (Occurrence.visitFrom (depth + 1)) := by
  induction parts generalizing start with
  | nil => simp [occurrencesFrom]
  | cons part rest ih =>
      have isBelow_within (occurrence : Occurrence) :
          (occurrence.within start owner).isBelow stops =
            (stops.contains owner.kind || occurrence.isBelow stops) := rfl
      rw [occurrencesFrom, List.filter_append, List.map_append, ih, List.filter_map, List.map_map]
      simp only [Function.comp_def, isBelow_within, Occurrence.visitFrom_within]
      split
      · rename_i stopped
        simp only [stopped, Bool.true_or, Bool.not_true, List.filter_false, List.map_nil,
          List.nil_append]
      · rename_i goesOn
        rw [Bool.not_eq_true] at goesOn
        simp only [goesOn, Bool.false_or, List.flatMap_cons]
        rfl

theorem map_visitFrom_shown (stops : List NodeKind) (depth : Nat) (node : Node) :
    (node.outline.shown stops).map (Occurrence.visitFrom depth) =
      ⟨depth, node.kind, node.label⟩ ::
        if stops.contains node.kind then []
        else node.children.flatMap fun child =>
          (child.outline.shown stops).map (Occurrence.visitFrom (depth + 1)) := by
  rw [Outline.shown, Node.outline, Outline.occurrences, List.filter_cons_of_pos rfl,
    List.map_cons, map_visitFrom_occurrencesFrom, node.parts_eq, List.flatMap_map]
  rfl

theorem Trace.visitor_of_stops {stops : List NodeKind} {node : Node}
    (stopped : stops.contains node.kind = true) (descend : Trace → Trace) (trace : Trace) :
    Trace.visitor stops node descend trace =
      { trace with visits := trace.visits.push ⟨trace.depth, node.kind, node.label⟩ } :=
  if_pos stopped

theorem Trace.visitor_of_goesOn {stops : List NodeKind} {node : Node}
    (goesOn : ¬ stops.contains node.kind = true) (descend : Trace → Trace) (trace : Trace) :
    Trace.visitor stops node descend trace =
      { descend
          { depth := trace.depth + 1
            visits := trace.visits.push ⟨trace.depth, node.kind, node.label⟩ } with
        depth := trace.depth } :=
  if_neg goesOn

/-- The trace with some more visits. -/
def Trace.extend (trace : Trace) (visits : List Visit) : Trace :=
  { trace with visits := trace.visits ++ visits.toArray }

theorem Trace.extend_nil (trace : Trace) : trace.extend [] = trace := by
  simp [extend]

theorem Trace.extend_extend (trace : Trace) (first second : List Visit) :
    (trace.extend first).extend second = trace.extend (first ++ second) := by
  simp [extend]

/-- A walk extends a trace by what it shows of the node. -/
theorem Trace.walk_eq (stops : List NodeKind) (node : Node) (trace : Trace) :
    (Trace.visitor stops).walk node trace =
      trace.extend ((node.outline.shown stops).map (Occurrence.visitFrom trace.depth)) := by
  induction node using Node.childInduction generalizing trace with
  | step node ih =>
      have walked (trace : Trace) :
          node.children.foldl (fun trace child => (Trace.visitor stops).walk child trace) trace =
            trace.extend (node.children.flatMap fun child =>
              (child.outline.shown stops).map (Occurrence.visitFrom trace.depth)) :=
        foldl_eq_extend extend_nil extend_extend (fun _ _ => rfl) ih trace
      rw [Visitor.walk_eq, map_visitFrom_shown]
      split
      · rename_i stopped
        rw [visitor_of_stops stopped]
        simp [extend]
      · rename_i goesOn
        rw [visitor_of_goesOn goesOn, walked]
        simp [extend]

theorem Node.trace_eq (stops : List NodeKind) (node : Node) :
    node.trace stops = (node.outline.shown stops).map Occurrence.visit := by
  rw [Node.trace, Trace.walk_eq, ← Occurrence.visitFrom_zero]
  simp [Trace.extend]

theorem Node.trace_nil_eq (node : Node) :
    node.trace [] = node.outline.occurrences.map Occurrence.visit := by
  have shownEq : node.outline.shown [] = node.outline.occurrences :=
    List.filter_eq_self.mpr fun occurrence _ => by simp [Occurrence.isBelow]
  rw [trace_eq, shownEq]

/-! ## Visitors that walk on -/

/-- The nodes of a tree, each as often as it occurs, a node before those that it owns. -/
def Node.occurring (node : Node) : List Node :=
  node.outline.occurrences.map Occurrence.node

theorem map_node_occurrencesFrom (owner : Node) (start : Nat) (parts : List Outline) :
    (occurrencesFrom owner start parts).map Occurrence.node =
      parts.flatMap fun part => part.occurrences.map Occurrence.node := by
  induction parts generalizing start with
  | nil => rfl
  | cons part rest ih =>
      rw [occurrencesFrom, List.map_append, ih, List.map_map, List.flatMap_cons]
      rfl

theorem Node.occurring_eq (node : Node) :
    node.occurring = node :: node.children.flatMap Node.occurring := by
  rw [Node.occurring, Node.outline, Outline.occurrences, List.map_cons, map_node_occurrencesFrom,
    node.parts_eq, List.flatMap_map]
  rfl

/-- A visitor that notes each node and then goes on to its children, if there are any, notes all
nodes in their order. -/
theorem Visitor.walk_eq_foldl {visitor : Visitor σ} {note : σ → Node → σ}
    (goesOn : ∀ node descend state, visitor node descend state = descend (note state node) ∨
      node.children = [] ∧ visitor node descend state = note state node)
    (node : Node) (state : σ) : visitor.walk node state = node.occurring.foldl note state := by
  induction node using Node.childInduction generalizing state with
  | step node ih =>
      have walked (state : σ) :
          node.children.foldl (fun state child => visitor.walk child state) state =
            (node.children.flatMap Node.occurring).foldl note state :=
        foldl_eq_extend (fun _ => rfl) (fun _ _ _ => List.foldl_append.symm) (fun _ _ => rfl) ih
          state
      rw [Visitor.walk_eq, Node.occurring_eq, List.foldl_cons, ← walked]
      rcases goesOn node _ state with walksOn | ⟨childless, stays⟩
      · rw [walksOn]
      · rw [stays, childless]
        rfl

def Node.identifierName? : Node → Option String
  | .expr (.identifier name) => some name
  | _ => none

def Node.pathText? : Node → Option String
  | .path item => some item.toText
  | _ => none

def Node.procName? : Node → Option String
  | .procDefinition definition => some definition.name
  | _ => none

/-- The names with those of some more nodes. -/
def Names.extend (names : Names) (nodes : List Node) : Names where
  identifiers := names.identifiers ++ (nodes.filterMap Node.identifierName?).toArray
  paths := names.paths ++ (nodes.filterMap Node.pathText?).toArray
  procs := names.procs ++ (nodes.filterMap Node.procName?).toArray

theorem Names.extend_extend (names : Names) (first second : List Node) :
    (names.extend first).extend second = names.extend (first ++ second) := by
  simp [extend]

/-- What one node adds to the names. -/
theorem Names.extend_singleton (names : Names) (node : Node) :
    names.extend [node] =
      { identifiers := names.identifiers ++ node.identifierName?.toList.toArray
        paths := names.paths ++ node.pathText?.toList.toArray
        procs := names.procs ++ node.procName?.toList.toArray } := by
  simp [extend, List.filterMap_eq_flatMap_toList]

theorem Names.visitor_goesOn (node : Node) (descend : Names → Names) (names : Names) :
    Names.visitor node descend names = descend (names.extend [node]) ∨
      node.children = [] ∧ Names.visitor node descend names = names.extend [node] := by
  rw [extend_singleton]
  cases node with
  | path item =>
      refine .inr ⟨rfl, ?_⟩
      simp [visitor, Node.identifierName?, Node.pathText?, Node.procName?]
  | expr item =>
      left
      cases item <;> simp [visitor, Node.identifierName?, Node.pathText?, Node.procName?]
  | _ =>
      left
      simp [visitor, Node.identifierName?, Node.pathText?, Node.procName?]

theorem Names.foldl_extend (nodes : List Node) (names : Names) :
    nodes.foldl (fun names node => names.extend [node]) names = names.extend nodes := by
  induction nodes generalizing names with
  | nil => simp [extend]
  | cons node rest ih => rw [List.foldl_cons, ih, extend_extend, List.singleton_append]

/-- The names that are collected in a tree are those of the nodes that occur in it. -/
theorem Node.names_eq (node : Node) : node.names = Names.extend {} node.occurring := by
  rw [Node.names, Visitor.walk_eq_foldl Names.visitor_goesOn, Names.foldl_extend]

/-! ## Every node once -/

/-- A traversal that goes on at every node makes one visit for each occurrence of a node, at the
depth that its address gives, and so as many visits of a kind as there are nodes of this kind.  No
two occurrences have one address.  An occurrence is the whole tree or one part of its owner, one
level deeper.  Behind its visit, and nowhere else, stand the visits of what lies below it. -/
theorem Node.trace_visits_each (node : Node) :
    node.trace [] = node.outline.occurrences.map Occurrence.visit ∧
    (∀ kind, countOf (node.trace []) kind = node.outline.count kind) ∧
    (∀ occurrence, occurrence ∈ node.outline.occurrences ↔ node.outline.Has occurrence) ∧
    (node.outline.occurrences.map Occurrence.address).Nodup ∧
    (∀ occurrence, node.outline.Has occurrence →
      (occurrence.address = [] ∧ occurrence.node = node) ∨
        ∃ owner index, node.outline.Has owner ∧ occurrence.address = owner.address ++ [index] ∧
          owner.node.parts[index]? = some occurrence.node.outline) ∧
    ∀ occurrence, node.outline.Has occurrence →
      ∃ before within after,
        node.outline.occurrences = before ++ occurrence :: within ++ after ∧
        ∀ other, node.outline.Has other →
          (occurrence.address <+: other.address ↔ other ∈ occurrence :: within) := by
  refine ⟨node.trace_nil_eq, ?_, node.outline.mem_occurrences_iff, node.outline.addresses_nodup,
    fun occurrence => Outline.Has.exists_owner, ?_⟩
  · intro kind
    rw [node.trace_nil_eq, countOf, List.countP_map, Outline.count_eq]
    rfl
  · intro occurrence has
    rcases has.exists_below with ⟨before, within, after, listed, belowIff⟩
    refine ⟨before, within, after, listed, fun other otherHas => ?_⟩
    exact belowIff other ((node.outline.mem_occurrences_iff other).mpr otherHas)

/-! ## Stopping and overriding -/

/-- A traversal that stops at nodes of some kinds makes the visits of the one that goes on at every
node, in the same order and at the same depths, except for those of the occurrences strictly below
an occurrence of these kinds.  A visitor that overrides three visits only collects the names of
all nodes that such a traversal visits, in the same order. -/
theorem Node.trace_stops (stops : List NodeKind) (node : Node) :
    node.trace [] = node.outline.occurrences.map Occurrence.visit ∧
    node.trace stops =
      (node.outline.occurrences.filter fun occurrence => !occurrence.isBelow stops).map
        Occurrence.visit ∧
    (∀ occurrence, node.outline.Has occurrence → (occurrence.isBelow stops = true ↔
      ∃ above, node.outline.Has above ∧ above.node.kind ∈ stops ∧
        above.address <+: occurrence.address ∧ above.address ≠ occurrence.address)) ∧
    node.names.identifiers.toList = node.occurring.filterMap Node.identifierName? ∧
    node.names.paths.toList = node.occurring.filterMap Node.pathText? ∧
    node.names.procs.toList = node.occurring.filterMap Node.procName? := by
  refine ⟨node.trace_nil_eq, node.trace_eq stops, ?_, by simp [node.names_eq, Names.extend],
    by simp [node.names_eq, Names.extend], by simp [node.names_eq, Names.extend]⟩
  intro occurrence has
  simp only [Occurrence.isBelow, List.any_eq_true, has.mem_owners_iff, List.contains_iff_mem]
  constructor
  · rintro ⟨_, ⟨above, aboveHas, rfl, below, different⟩, stopped⟩
    exact ⟨above, aboveHas, stopped, below, different⟩
  · rintro ⟨above, aboveHas, stopped, below, different⟩
    exact ⟨_, ⟨above, aboveHas, rfl, below, different⟩, stopped⟩

end DreamWorld.Syntax
