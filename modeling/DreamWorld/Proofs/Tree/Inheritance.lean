import DreamWorld.Proofs.Tree.Resolution
import DreamWorld.Tree.Relations

/-!
# Inheritance spans the tree

Each class except the root lies within one class and inherits from one class,
both of smaller numbers.  It is listed once among the children of the former and,
if it names its parent, once among the branches of the latter.  The derived
children of a class are exactly the classes that inherit from it, so going from
the root to derived children reaches every class along exactly one route.
-/

namespace DreamWorld.Tree

open Document (ClassRecord PlacedRecord)

/-- The trees of worlds and the documents that they are built from.  The tree of the
first world is that of a document with no class but the root. -/
inductive Produced : ClassRecord → Tree → Prop
  | start : Produced { name := "" } World.start.tree
  | loaded {σ : Type} {loader : ResourceLoader σ} {document : ClassRecord} {world next : World}
      {memory last : σ} :
      world.loadRecord loader document memory = (.ok (), next, last) →
      Produced document next.tree

/-- The numbers of the classes directly within a class. -/
def childIds (tree : Tree) (id : EntryId) : List EntryId :=
  (tree.get? id).elim [] fun entry => entry.children.map Prod.snd

/-- The numbers of the classes that name a class as their parent. -/
def branchIds (tree : Tree) (id : EntryId) : List EntryId :=
  (tree.get? id).elim [] fun entry => entry.branches.map Prod.snd

/-- Going from the root to derived children, again and again, passes the entries
of a route and ends at an entry. -/
inductive Descends (tree : Tree) : List EntryId → EntryId → Prop
  | root : Descends tree [] rootId
  | heir {route : List EntryId} {id child : EntryId} :
      Descends tree route id → child ∈ tree.derivedChildren id →
      Descends tree (route ++ [child]) child

/-- Every tree of a world represents the records of its document. -/
theorem Produced.represents {document : ClassRecord} {tree : Tree}
    (produced : Produced document tree) : tree.Represents (document.placedWithin 0) := by
  cases produced with
  | start => exact .single _
  | loaded run => exact (carries_of_loadRecord run).represents

namespace Represents

variable {tree : Tree} {done : List PlacedRecord} {id other child : EntryId}

/-! ## Children and branches by number -/

theorem mem_childIds_iff (holds : tree.Represents done) :
    child ∈ tree.childIds id ↔
      ∃ index record, done[index]? = some ⟨id, record⟩ ∧ child = index + 1 := by
  unfold childIds
  cases found : tree.get? id with
  | some entry =>
      simp only [Option.elim_some, List.mem_map, Prod.exists, exists_eq_right,
        holds.mem_children_iff found]
      constructor
      · rintro ⟨_, index, record, listed, _, childEq⟩
        exact ⟨index, record, listed, childEq⟩
      · rintro ⟨index, record, listed, childEq⟩
        exact ⟨record.name, index, record, listed, rfl, childEq⟩
  | none =>
      have outside := get?_eq_none_iff.mp found
      simp only [Option.elim_none, List.not_mem_nil, false_iff]
      rintro ⟨index, record, listed, _⟩
      have inside := Nat.lt_of_le_of_lt (holds.outer_le listed) (index_lt listed)
      rw [holds.size_eq] at outside
      exact absurd inside (Nat.not_lt_of_le (Nat.le_of_succ_le outside))

/-- A class lies directly within another one if a name leads from there to it. -/
theorem mem_childIds_iff_child? (holds : tree.Represents done) :
    child ∈ tree.childIds id ↔ ∃ name, tree.child? id name = some child := by
  rw [holds.mem_childIds_iff]
  constructor
  · rintro ⟨index, record, listed, childEq⟩
    exact ⟨record.name, holds.child?_eq_some_iff.mpr ⟨index, record, listed, rfl, childEq⟩⟩
  · rintro ⟨name, childFound⟩
    rcases holds.child?_eq_some_iff.mp childFound with ⟨index, record, listed, _, childEq⟩
    exact ⟨index, record, listed, childEq⟩

theorem mem_branchIds_iff (holds : tree.Represents done) :
    child ∈ tree.branchIds id ↔ ∃ index outer record, done[index]? = some ⟨outer, record⟩ ∧
      tree.namedParent record = .ok (some id) ∧ child = index + 1 := by
  unfold branchIds
  cases found : tree.get? id with
  | some entry =>
      simp only [Option.elim_some, List.mem_map, Prod.exists, exists_eq_right,
        holds.mem_branches_iff found]
      constructor
      · rintro ⟨_, index, outer, record, listed, resolved, _, childEq⟩
        exact ⟨index, outer, record, listed, resolved, childEq⟩
      · rintro ⟨index, outer, record, listed, resolved, childEq⟩
        exact ⟨record.name, index, outer, record, listed, resolved, rfl, childEq⟩
  | none =>
      have outside := get?_eq_none_iff.mp found
      simp only [Option.elim_none, List.not_mem_nil, false_iff]
      rintro ⟨index, outer, record, _, resolved, _⟩
      exact absurd (holds.lt_size_of_namedParent resolved id rfl) (Nat.not_lt_of_le outside)

/-- The name of the record that a number belongs to. -/
def nameAt (done : List PlacedRecord) (id : EntryId) : String :=
  (done[id - 1]?).elim "" fun placed => placed.record.name

theorem childIds_nodup (holds : tree.Represents done) (id : EntryId) :
    (tree.childIds id).Nodup := by
  unfold childIds
  cases found : tree.get? id with
  | none => exact List.nodup_nil
  | some entry =>
      apply Keyed.values_nodup (holds.children_nodup found) (nameAt done)
      rintro ⟨name, child⟩ childMem
      rcases (holds.mem_children_iff found name child).mp childMem with
        ⟨index, record, listed, rfl, rfl⟩
      simp [nameAt, listed]

theorem branchIds_nodup (holds : tree.Represents done) (id : EntryId) :
    (tree.branchIds id).Nodup := by
  unfold branchIds
  cases found : tree.get? id with
  | none => exact List.nodup_nil
  | some entry =>
      apply Keyed.values_nodup (holds.branches_nodup found) (nameAt done)
      rintro ⟨name, branch⟩ branchMem
      rcases (holds.mem_branches_iff found name branch).mp branchMem with
        ⟨index, outer, record, listed, _, rfl, rfl⟩
      simp [nameAt, listed]

/-! ## One class and its links -/

/-- A class is a child of the class that its record lies in and of no other. -/
theorem mem_childIds_succ_iff (holds : tree.Represents done) {index outer : Nat}
    {record : ClassRecord} (listed : done[index]? = some ⟨outer, record⟩) :
    index + 1 ∈ tree.childIds other ↔ other = outer := by
  rw [holds.mem_childIds_iff]
  constructor
  · rintro ⟨_, _, otherListed, sameIndex⟩
    cases sameIndex
    rw [listed] at otherListed
    cases otherListed
    rfl
  · rintro rfl
    exact ⟨index, record, listed, rfl⟩

/-- A class is a branch of the class that its record names and of no other. -/
theorem mem_branchIds_succ_iff (holds : tree.Represents done) {index outer : Nat}
    {record : ClassRecord} (listed : done[index]? = some ⟨outer, record⟩) :
    index + 1 ∈ tree.branchIds other ↔ tree.namedParent record = .ok (some other) := by
  rw [holds.mem_branchIds_iff]
  constructor
  · rintro ⟨_, _, _, otherListed, resolved, sameIndex⟩
    cases sameIndex
    rw [listed] at otherListed
    cases otherListed
    exact resolved
  · intro resolved
    exact ⟨index, outer, record, listed, resolved, rfl⟩

/-- Where a class other than the root stands. -/
theorem exists_links (holds : tree.Represents done) (positive : 0 < id)
    (inRange : id < tree.size) :
    ∃ entry outer parent, tree.get? id = some entry ∧ entry.parent = some parent ∧
      parent < id ∧
      (∃ index record, id = index + 1 ∧ done[index]? = some ⟨outer, record⟩ ∧
        entry.hasNamedParent = record.parent.isSome) ∧
      (entry.hasNamedParent = false → parent = outer) ∧
      (∀ other, id ∈ tree.childIds other ↔ other = outer) ∧
      (∀ other, id ∈ tree.branchIds other ↔ entry.hasNamedParent = true ∧ other = parent) := by
  rcases Nat.exists_eq_succ_of_ne_zero (Nat.ne_of_gt positive) with ⟨index, rfl⟩
  rw [holds.size_eq] at inRange
  have someListed : ∃ outer record, done[index]? = some ⟨outer, record⟩ :=
    ⟨_, _, List.getElem?_eq_getElem (Nat.lt_of_succ_lt_succ inRange)⟩
  rcases someListed with ⟨outer, record, listed⟩
  rcases holds.linked_parent listed with
    ⟨named, entry, resolved, namedLe, found, parentEq, namedEq⟩
  have outerLe := holds.outer_le listed
  have recordNamed : entry.hasNamedParent = record.parent.isSome := by
    rw [namedEq, isSome_of_namedParent resolved]
  refine ⟨entry, _, _, found, parentEq, ?_, ⟨index, _, rfl, listed, recordNamed⟩, ?_,
    fun other => holds.mem_childIds_succ_iff listed, ?_⟩
  · cases named with
    | none => exact Nat.lt_succ_of_le outerLe
    | some parent => exact Nat.lt_succ_of_le (namedLe parent rfl)
  · intro unnamed
    cases named with
    | none => rfl
    | some parent =>
        rw [namedEq] at unnamed
        cases unnamed
  · intro other
    rw [holds.mem_branchIds_succ_iff listed, resolved, namedEq]
    cases named <;> simp [eq_comm]

theorem positive_of_mem_childIds (holds : tree.Represents done) (mem : child ∈ tree.childIds id) :
    0 < child ∧ child < tree.size := by
  rcases holds.mem_childIds_iff.mp mem with ⟨index, record, listed, rfl⟩
  rw [holds.size_eq]
  exact ⟨Nat.succ_pos _, Nat.succ_lt_succ (index_lt listed)⟩

theorem positive_of_mem_branchIds (holds : tree.Represents done)
    (mem : child ∈ tree.branchIds id) : 0 < child ∧ child < tree.size := by
  rcases holds.mem_branchIds_iff.mp mem with ⟨index, outer, record, listed, _, rfl⟩
  rw [holds.size_eq]
  exact ⟨Nat.succ_pos _, Nat.succ_lt_succ (index_lt listed)⟩

/-! ## Derived children -/

/-- The derived children are the children that name no parent and the branches. -/
theorem derivedChildren_perm (tree : Tree) (id : EntryId) :
    (tree.derivedChildren id).Perm
      ((tree.childIds id).filter (fun child => !(tree.entryAt child).hasNamedParent) ++
        tree.branchIds id) := by
  unfold derivedChildren childIds branchIds
  cases tree.get? id with
  | none => exact .refl _
  | some entry => exact List.mergeSort_perm _ _

theorem mem_derivedChildren_iff_mem :
    child ∈ tree.derivedChildren id ↔
      child ∈ tree.childIds id ∧ (tree.entryAt child).hasNamedParent = false ∨
        child ∈ tree.branchIds id := by
  rw [(derivedChildren_perm tree id).mem_iff, List.mem_append, List.mem_filter,
    Bool.not_eq_true']

theorem positive_of_mem_derivedChildren (holds : tree.Represents done)
    (mem : child ∈ tree.derivedChildren id) : 0 < child ∧ child < tree.size := by
  rcases mem_derivedChildren_iff_mem.mp mem with ⟨within, _⟩ | branch
  · exact holds.positive_of_mem_childIds within
  · exact holds.positive_of_mem_branchIds branch

/-- A class is a derived child of the class that it inherits from, and of no other. -/
theorem mem_derivedChildren_iff (holds : tree.Represents done) (positive : 0 < child)
    {entry : Entry} (found : tree.get? child = some entry) :
    child ∈ tree.derivedChildren id ↔ entry.parent = some id := by
  obtain ⟨same, outer, parent, sameFound, parentEq, _, _, unnamed, within, branch⟩ :=
    holds.exists_links positive (lt_size_of_get? found)
  rw [found] at sameFound
  cases sameFound
  rw [mem_derivedChildren_iff_mem, entryAt_of_get? found, within, branch, parentEq,
    Option.some.injEq]
  cases named : entry.hasNamedParent with
  | false =>
      rw [unnamed named]
      simp [eq_comm]
  | true => simp [eq_comm]

/-- Only the root inherits from nothing. -/
theorem positive_of_parent (holds : tree.Represents done) (inRange : child < tree.size)
    (parentEq : (tree.entryAt child).parent = some id) : 0 < child := by
  rcases Nat.eq_zero_or_pos child with rfl | positive
  · cases (holds.root_unlinked (get?_entryAt inRange)).1.symm.trans parentEq
  · exact positive

/-- The derived children of a class are the entries whose parent it is. -/
theorem mem_derivedChildren_iff_parent (holds : tree.Represents done) :
    child ∈ tree.derivedChildren id ↔
      child < tree.size ∧ (tree.entryAt child).parent = some id := by
  constructor
  · intro mem
    rcases holds.positive_of_mem_derivedChildren mem with ⟨positive, inRange⟩
    exact ⟨inRange, (holds.mem_derivedChildren_iff positive (get?_entryAt inRange)).mp mem⟩
  · rintro ⟨inRange, parentEq⟩
    have positive := holds.positive_of_parent inRange parentEq
    exact (holds.mem_derivedChildren_iff positive (get?_entryAt inRange)).mpr parentEq

/-- A class that names a parent is a derived child of the class that it lies in
exactly when it names that one. -/
theorem mem_derivedChildren_iff_namedParent {document record : ClassRecord} {outer : EntryId}
    (holds : tree.Represents (document.placedWithin 0))
    (within : document.Within outer id record) (isNamed : record.parent.isSome = true) :
    id ∈ tree.derivedChildren outer ↔ tree.namedParent record = .ok (some outer) := by
  rcases within.exists_place_eq_succ with ⟨index, rfl⟩
  obtain ⟨named, entry, resolved, _, found, parentEq, _⟩ :=
    holds.linked_parent (ClassRecord.getElem?_placed_eq_some_iff.mpr within)
  rw [← isSome_of_namedParent resolved, Option.isSome_iff_exists] at isNamed
  rcases isNamed with ⟨parent, rfl⟩
  rw [holds.mem_derivedChildren_iff (Nat.succ_pos index) found, parentEq, resolved]
  simp

theorem derivedChildren_nodup (holds : tree.Represents done) (id : EntryId) :
    (tree.derivedChildren id).Nodup := by
  rw [(derivedChildren_perm tree id).nodup_iff, List.nodup_append]
  refine ⟨(holds.childIds_nodup id).filter _, holds.branchIds_nodup id, ?_⟩
  rintro child within _ branch rfl
  have positive := holds.positive_of_mem_branchIds branch
  obtain ⟨entry, _, _, found, _, _, _, _, _, branchIff⟩ :=
    holds.exists_links positive.1 positive.2
  have named := ((branchIff id).mp branch).1
  have unnamed := (List.mem_filter.mp within).2
  rw [entryAt_of_get? found, named] at unnamed
  contradiction

/-! ## Routes of inheritance -/

theorem exists_descends (holds : tree.Represents done) (inRange : id < tree.size) :
    ∃ route, tree.Descends route id := by
  induction id using Nat.strongRecOn with
  | _ id ih =>
      rcases Nat.eq_zero_or_pos id with rfl | positive
      · exact ⟨[], .root⟩
      · obtain ⟨entry, _, parent, found, parentEq, parentLt, _⟩ :=
          holds.exists_links positive inRange
        rcases ih parent parentLt (Nat.lt_trans parentLt inRange) with ⟨route, descends⟩
        exact ⟨route ++ [id],
          .heir descends ((holds.mem_derivedChildren_iff positive found).mpr parentEq)⟩

/-- Two routes to one class are one route. -/
theorem descends_unique (holds : tree.Represents done) {first second : List EntryId}
    (firstDescends : tree.Descends first id) (secondDescends : tree.Descends second id) :
    first = second := by
  induction firstDescends generalizing second with
  | root =>
      cases secondDescends with
      | root => rfl
      | heir _ mem =>
          exact absurd (holds.positive_of_mem_derivedChildren mem).1 (Nat.lt_irrefl 0)
  | @heir route parent child _ mem ih =>
      rcases holds.positive_of_mem_derivedChildren mem with ⟨positive, inRange⟩
      cases secondDescends with
      | root => exact absurd positive (Nat.lt_irrefl 0)
      | heir otherDescends otherMem =>
          rcases exists_get? inRange with ⟨entry, found⟩
          have parentEq := (holds.mem_derivedChildren_iff positive found).mp mem
          have otherEq := (holds.mem_derivedChildren_iff positive found).mp otherMem
          rw [parentEq] at otherEq
          cases otherEq
          rw [ih otherDescends]

theorem lt_size_of_descends (holds : tree.Represents done) {route : List EntryId}
    (descends : tree.Descends route id) : id < tree.size := by
  cases descends with
  | root =>
      rw [holds.size_eq]
      exact Nat.succ_pos _
  | heir _ mem => exact (holds.positive_of_mem_derivedChildren mem).2

end Represents

/-- In every tree of a world all links stay within the tree.  Each class other than
the root has a parent of a smaller number; it is a child of exactly the class that
its record lies in, a branch of exactly its parent if it names one, and a derived
child of exactly its parent, each only once.  So derived children lead from the
root to every class along exactly one route, and a class that names a parent is a
derived child of the class it lies in only if that is the parent it names. -/
theorem Produced.spans {document : ClassRecord} {tree : Tree}
    (produced : Produced document tree) :
    (∀ id entry, tree.get? id = some entry →
      (∀ child ∈ entry.children.map Prod.snd, child < tree.size) ∧
      (∀ branch ∈ entry.branches.map Prod.snd, branch < tree.size) ∧
      ∀ parent ∈ entry.parent, parent < tree.size) ∧
    (∀ id, (tree.childIds id).Nodup ∧ (tree.branchIds id).Nodup ∧
      (tree.derivedChildren id).Nodup) ∧
    (∀ id, 0 < id → id < tree.size → ∃ entry outer parent record,
      tree.get? id = some entry ∧ document.Within outer id record ∧
      entry.hasNamedParent = record.parent.isSome ∧
      entry.parent = some parent ∧ parent < id ∧
      (∀ other, id ∈ tree.childIds other ↔ other = outer) ∧
      (∀ other, id ∈ tree.branchIds other ↔ record.parent.isSome = true ∧ other = parent) ∧
      ∀ other, id ∈ tree.derivedChildren other ↔ other = parent) ∧
    (∀ id, id < tree.size ↔ ∃! route, tree.Descends route id) ∧
    (∀ outer id record, document.Within outer id record → record.parent.isSome = true →
      (id ∈ tree.derivedChildren outer ↔ tree.namedParent record = .ok (some outer))) := by
  have holds := produced.represents
  refine ⟨?_, ?_, ?_, ?_, ?_⟩
  · intro id entry found
    have childIdsEq : tree.childIds id = entry.children.map Prod.snd := by
      rw [childIds, found, Option.elim_some]
    have branchIdsEq : tree.branchIds id = entry.branches.map Prod.snd := by
      rw [branchIds, found, Option.elim_some]
    refine ⟨?_, ?_, ?_⟩
    · intro child mem
      exact (holds.positive_of_mem_childIds (childIdsEq ▸ mem)).2
    · intro branch mem
      exact (holds.positive_of_mem_branchIds (branchIdsEq ▸ mem)).2
    · have inRange := holds.parent_lt_size (lt_size_of_get? found)
      rwa [entryAt_of_get? found] at inRange
  · intro id
    exact ⟨holds.childIds_nodup id, holds.branchIds_nodup id, holds.derivedChildren_nodup id⟩
  · intro id positive inRange
    obtain ⟨entry, outer, parent, found, parentEq, parentLt, ⟨index, record, rfl, listed,
      namedEq⟩, _, within, branch⟩ := holds.exists_links positive inRange
    rw [namedEq] at branch
    refine ⟨entry, outer, parent, record, found,
      ClassRecord.getElem?_placed_eq_some_iff.mp listed, namedEq, parentEq, parentLt, within,
      branch, ?_⟩
    intro other
    rw [holds.mem_derivedChildren_iff positive found, parentEq, Option.some.injEq, eq_comm]
  · intro id
    constructor
    · intro inRange
      rcases holds.exists_descends inRange with ⟨route, descends⟩
      exact ⟨route, descends, fun other otherDescends =>
        holds.descends_unique otherDescends descends⟩
    · rintro ⟨route, descends, _⟩
      exact holds.lt_size_of_descends descends
  · intro outer id record within named
    exact holds.mem_derivedChildren_iff_namedParent within named

/-- One route of inheritance leads to the last class of the sample. -/
theorem Produced.spans_crewDocument :
    ∃! route, Descends (World.start.loadRecord (fileLoader "res") crewDocument {}).2.1.tree
      route 3 := by
  have loaded : World.start.loadRecord (fileLoader "res") crewDocument {} =
      (.ok (), (World.start.loadRecord (fileLoader "res") crewDocument {}).2) := rfl
  exact ((Produced.loaded loaded).spans.2.2.2.1 3).mp (by decide)

end DreamWorld.Tree
