import DreamWorld.Proofs.Document.Preorder
import DreamWorld.Proofs.Tree.Declare
import DreamWorld.Proofs.Tree.LoadRecord

/-!
# What a partly loaded tree holds

After some of the placed records of a document have been loaded, the tree has the
root and one entry for each of them, in their order.  The children of an entry
are the records directly within it, its branches are the records that name it as
their parent, and every link leads from a smaller number to a greater one.  Each
turn of the loader keeps this, and so does the loading of a whole document.
-/

namespace DreamWorld.Tree

open Document (ClassRecord PlacedRecord)

/-- The entries of a tree are the root and the classes of the given records, linked
as the records say. -/
structure Represents (tree : Tree) (done : List PlacedRecord) : Prop where
  size_eq : tree.size = done.length + 1
  /-- A record comes after the one that encloses it. -/
  outer_le : ∀ {index outer : Nat} {record : ClassRecord},
    done[index]? = some ⟨outer, record⟩ → outer ≤ index
  children_nodup : ∀ {id entry}, tree.get? id = some entry → entry.children.names.Nodup
  mem_children_iff : ∀ {id entry}, tree.get? id = some entry → ∀ name child,
    (name, child) ∈ entry.children ↔ ∃ index record, done[index]? = some ⟨id, record⟩ ∧
      record.name = name ∧ child = index + 1
  branches_nodup : ∀ {id entry}, tree.get? id = some entry → entry.branches.names.Nodup
  mem_branches_iff : ∀ {id entry}, tree.get? id = some entry → ∀ name branch,
    (name, branch) ∈ entry.branches ↔ ∃ index outer record,
      done[index]? = some ⟨outer, record⟩ ∧ tree.namedParent record = .ok (some id) ∧
      record.name = name ∧ branch = index + 1
  /-- The root inherits from nothing. -/
  root_unlinked : ∀ {entry}, tree.get? rootId = some entry →
    entry.parent = none ∧ entry.hasNamedParent = false
  /-- Any other entry inherits from its named parent or from the enclosing one. -/
  linked_parent : ∀ {index outer : Nat} {record : ClassRecord},
    done[index]? = some ⟨outer, record⟩ →
    ∃ named entry, tree.namedParent record = .ok named ∧ (∀ parent ∈ named, parent ≤ index) ∧
      tree.get? (index + 1) = some entry ∧ entry.parent = some (named.getD outer) ∧
      entry.hasNamedParent = named.isSome

/-! ## The list of records loaded so far -/

theorem Represents.getElem?_append_singleton_eq_some_iff {done : List PlacedRecord}
    {placed found : PlacedRecord} {index : Nat} :
    (done ++ [placed])[index]? = some found ↔
      done[index]? = some found ∨ index = done.length ∧ found = placed := by
  rw [List.getElem?_append]
  split
  · rename_i before
    simp [Nat.ne_of_lt before]
  · rename_i behind
    have absent : done[index]? = none := List.getElem?_eq_none (Nat.le_of_not_lt behind)
    rw [absent, List.getElem?_singleton]
    split
    · simp only [Option.some.injEq, reduceCtorEq, false_or]
      constructor
      · rintro rfl
        exact ⟨by omega, rfl⟩
      · rintro ⟨_, rfl⟩
        rfl
    · simp only [reduceCtorEq, false_or, false_iff, not_and]
      omega

namespace Represents

variable {tree : Tree} {done : List PlacedRecord} {placed : PlacedRecord}
  {named : Option EntryId} {definition : Definition} {id child : EntryId} {name : String}

theorem index_lt {index : Nat} {found : PlacedRecord} (listed : done[index]? = some found) :
    index < done.length :=
  (List.getElem?_eq_some_iff.mp listed).1

/-- A name leads from an entry to the record of that name directly within it. -/
theorem child?_eq_some_iff (holds : tree.Represents done) :
    tree.child? id name = some child ↔ ∃ index record, done[index]? = some ⟨id, record⟩ ∧
      record.name = name ∧ child = index + 1 := by
  unfold child?
  cases found : tree.get? id with
  | some entry =>
      rw [Option.bind_some, Keyed.find?_eq_some_iff (holds.children_nodup found)]
      exact holds.mem_children_iff found name child
  | none =>
      have outside := get?_eq_none_iff.mp found
      simp only [Option.bind_none, reduceCtorEq, false_iff]
      rintro ⟨index, record, listed, _, _⟩
      have inside := holds.outer_le listed
      have before := index_lt listed
      have size := holds.size_eq
      omega

/-- Names lead to entries of the tree. -/
theorem lt_size_of_find? (holds : tree.Represents done) {names : List String}
    (found : tree.find? names = some id) : id < tree.size := by
  rw [holds.size_eq]
  induction names using List.reverseRecOn with
  | nil =>
      cases found
      exact Nat.succ_pos _
  | append_singleton names last _ =>
      rcases find?_append_singleton_eq_some_iff.mp found with ⟨outer, _, childFound⟩
      rcases holds.child?_eq_some_iff.mp childFound with ⟨index, record, listed, _, rfl⟩
      exact Nat.succ_lt_succ (index_lt listed)

theorem lt_size_of_namedParent (holds : tree.Represents done) {record : ClassRecord}
    (resolved : tree.namedParent record = .ok named) : ∀ parent ∈ named, parent < tree.size := by
  rintro parent rfl
  rcases namedParent_eq_ok_some_iff.mp resolved with ⟨text, _, found⟩
  exact holds.lt_size_of_find? (entryId_eq_ok_iff.mp found).2

/-! ## The bare root -/

theorem single (definition : Definition) : (Tree.single definition).Represents [] := by
  have onlyRoot : ∀ {id entry}, (Tree.single definition).get? id = some entry →
      id = rootId ∧ entry = { definition } := by
    intro id entry found
    have inRange : id < 1 := lt_size_of_get? found
    obtain rfl : id = 0 := Nat.lt_one_iff.mp inRange
    exact ⟨rfl, (Option.some.inj found).symm⟩
  constructor
  case size_eq => rfl
  case outer_le | linked_parent =>
    intro index outer record listed
    cases listed
  case children_nodup | branches_nodup =>
    intro id entry found
    rcases onlyRoot found with ⟨_, rfl⟩
    exact List.nodup_nil
  case mem_children_iff | mem_branches_iff =>
    intro id entry found name child
    rcases onlyRoot found with ⟨_, rfl⟩
    simp
  case root_unlinked =>
    intro entry found
    rcases onlyRoot found with ⟨_, rfl⟩
    exact ⟨rfl, rfl⟩

/-! ## One more record -/

/-- A record that has passed the checks of the loader. -/
structure Admits (tree : Tree) (placed : PlacedRecord) (named : Option EntryId) : Prop where
  outer_lt : placed.outer < tree.size
  name_free : tree.nameTaken placed = false
  resolved : tree.namedParent placed.record = .ok named
  branch_free : tree.branchTaken placed named = false

variable (admits : Admits tree placed named)

include admits

theorem Admits.child?_eq_none : tree.child? placed.outer placed.record.name = none := by
  have free := admits.name_free
  rw [nameTaken, Keyed.has_eq_false_iff] at free
  rw [child?, get?_entryAt admits.outer_lt, Option.bind_some, free]

/-- Parents that were found before are found after one more record. -/
theorem namedParent_declare (holds : tree.Represents done) (definition : Definition)
    {record : ClassRecord} {other : Option EntryId}
    (resolved : tree.namedParent record = .ok other) :
    (tree.declare placed.outer named placed.record.name definition).namedParent record =
      .ok other := by
  cases other with
  | none => exact namedParent_eq_ok_none_iff.mpr (namedParent_eq_ok_none_iff.mp resolved)
  | some parent =>
      rcases namedParent_eq_ok_some_iff.mp resolved with ⟨text, parentEq, found⟩
      rcases entryId_eq_ok_iff.mp found with ⟨absolute, foundIn⟩
      have stillFound : (tree.declare placed.outer named placed.record.name definition).find?
          (Path.parse text).elements = some parent :=
        find?_declare_of_eq_some admits.outer_lt
          (holds.lt_size_of_namedParent admits.resolved) admits.child?_eq_none foundIn
      apply namedParent_eq_ok_some_iff.mpr
      exact ⟨text, parentEq, entryId_eq_ok_iff.mpr ⟨absolute, stillFound⟩⟩

/-- An entry after one more record is the new one or one from before. -/
theorem get?_declare_cases (holds : tree.Represents done) {entry : Entry}
    (found : (tree.declare placed.outer named placed.record.name definition).get? id =
      some entry) :
    (id = tree.size ∧ entry = newEntry placed.outer named definition) ∨
      ∃ before, tree.get? id = some before ∧
        entry = linked placed.outer named placed.record.name tree.size id before := by
  rw [get?_declare admits.outer_lt (holds.lt_size_of_namedParent admits.resolved)] at found
  split at found
  · rename_i last
    exact .inl ⟨last, (Option.some.inj found).symm⟩
  · rcases Option.map_eq_some_iff.mp found with ⟨before, beforeFound, rfl⟩
    exact .inr ⟨before, beforeFound, rfl⟩

/-- No record so far lies within the new one. -/
theorem not_within_new (holds : tree.Represents done) {index : Nat} {record : ClassRecord} :
    (done ++ [placed])[index]? ≠ some ⟨tree.size, record⟩ := by
  intro listed
  have size := holds.size_eq
  rcases getElem?_append_singleton_eq_some_iff.mp listed with before | ⟨_, rfl⟩
  · have inside := holds.outer_le before
    have inList := index_lt before
    omega
  · exact Nat.lt_irrefl _ admits.outer_lt

/-- The new entry is a child of the enclosing one; all other children stay. -/
private theorem mem_children_declare_iff (holds : tree.Represents done) {entry : Entry}
    (found : (tree.declare placed.outer named placed.record.name definition).get? id =
      some entry) :
    (name, child) ∈ entry.children ↔ ∃ index record,
      (done ++ [placed])[index]? = some ⟨id, record⟩ ∧ record.name = name ∧ child = index + 1 := by
  rcases get?_declare_cases admits holds found with ⟨rfl, rfl⟩ | ⟨before, beforeFound, rfl⟩
  · simp only [newEntry, List.not_mem_nil, false_iff]
    rintro ⟨index, record, listed, _⟩
    exact not_within_new admits holds listed
  · have earlier := holds.mem_children_iff beforeFound name child
    simp only [getElem?_append_singleton_eq_some_iff]
    by_cases atOuter : id = placed.outer
    · have free : before.children.has placed.record.name = false := by
        rw [← entryAt_of_get? beforeFound, atOuter]
        exact admits.name_free
      simp only [linked, if_pos atOuter, Keyed.mem_insert_iff free, earlier, Prod.mk.injEq]
      constructor
      · rintro (⟨rfl, rfl⟩ | ⟨index, record, listed, rest⟩)
        · exact ⟨done.length, placed.record, .inr ⟨rfl, by rw [atOuter]⟩, rfl, holds.size_eq⟩
        · exact ⟨index, record, .inl listed, rest⟩
      · rintro ⟨index, record, listed | ⟨rfl, placedEq⟩, nameEq, childEq⟩
        · exact .inr ⟨index, record, listed, nameEq, childEq⟩
        · refine .inl ⟨?_, childEq.trans holds.size_eq.symm⟩
          rw [← nameEq, ← placedEq]
    · simp only [linked, if_neg atOuter, earlier]
      constructor
      · rintro ⟨index, record, listed, rest⟩
        exact ⟨index, record, .inl listed, rest⟩
      · rintro ⟨index, record, listed | ⟨_, placedEq⟩, rest⟩
        · exact ⟨index, record, listed, rest⟩
        · exact absurd (congrArg PlacedRecord.outer placedEq) atOuter

/-- The parent that a record names is the same before and after one more record. -/
private theorem namedParent_declare_eq_iff (holds : tree.Represents done)
    {index outer : Nat} {record : ClassRecord}
    (listed : (done ++ [placed])[index]? = some ⟨outer, record⟩) {other : Option EntryId} :
    (tree.declare placed.outer named placed.record.name definition).namedParent record =
      .ok other ↔ tree.namedParent record = .ok other := by
  have resolves : ∃ known, tree.namedParent record = .ok known := by
    rcases getElem?_append_singleton_eq_some_iff.mp listed with before | ⟨_, rfl⟩
    · rcases holds.linked_parent before with ⟨known, _, resolved, _⟩
      exact ⟨known, resolved⟩
    · exact ⟨named, admits.resolved⟩
  rcases resolves with ⟨known, resolved⟩
  rw [namedParent_declare admits holds definition resolved, resolved]

/-- The new entry is a branch of its named parent; all other branches stay. -/
private theorem mem_branches_declare_iff (holds : tree.Represents done) {entry : Entry}
    (found : (tree.declare placed.outer named placed.record.name definition).get? id =
      some entry) :
    (name, child) ∈ entry.branches ↔ ∃ index outer record,
      (done ++ [placed])[index]? = some ⟨outer, record⟩ ∧
      tree.namedParent record = .ok (some id) ∧ record.name = name ∧ child = index + 1 := by
  rcases get?_declare_cases admits holds found with ⟨rfl, rfl⟩ | ⟨before, beforeFound, rfl⟩
  · simp only [newEntry, List.not_mem_nil, false_iff]
    rintro ⟨index, outer, record, _, resolved, _⟩
    exact Nat.lt_irrefl _ (holds.lt_size_of_namedParent resolved _ rfl)
  · have earlier := holds.mem_branches_iff beforeFound name child
    simp only [getElem?_append_singleton_eq_some_iff]
    by_cases atParent : named = some id
    · have free : before.branches.has placed.record.name = false := by
        have untaken := admits.branch_free
        rw [atParent, branchTaken, Option.isSome_some, Bool.true_and, Option.getD_some,
          entryAt_of_get? beforeFound] at untaken
        exact untaken
      simp only [linked, if_pos atParent, Keyed.mem_insert_iff free, earlier, Prod.mk.injEq]
      constructor
      · rintro (⟨rfl, rfl⟩ | ⟨index, outer, record, listed, rest⟩)
        · exact ⟨done.length, placed.outer, placed.record, .inr ⟨rfl, rfl⟩,
            atParent ▸ admits.resolved, rfl, holds.size_eq⟩
        · exact ⟨index, outer, record, .inl listed, rest⟩
      · rintro ⟨index, outer, record, listed | ⟨rfl, placedEq⟩, resolved, nameEq, childEq⟩
        · exact .inr ⟨index, outer, record, listed, resolved, nameEq, childEq⟩
        · refine .inl ⟨?_, childEq.trans holds.size_eq.symm⟩
          rw [← nameEq, ← placedEq]
    · simp only [linked, if_neg atParent, earlier]
      constructor
      · rintro ⟨index, outer, record, listed, rest⟩
        exact ⟨index, outer, record, .inl listed, rest⟩
      · rintro ⟨index, outer, record, listed | ⟨_, placedEq⟩, resolved, rest⟩
        · exact ⟨index, outer, record, listed, resolved, rest⟩
        · have sameRecord : record = placed.record := congrArg PlacedRecord.record placedEq
          rw [sameRecord, admits.resolved] at resolved
          exact absurd (Except.ok.inj resolved) atParent

/-- One more record that passes the checks is represented as well. -/
theorem declare (holds : tree.Represents done) (definition : Definition) :
    (tree.declare placed.outer named placed.record.name definition).Represents
      (done ++ [placed]) := by
  have namedLt := holds.lt_size_of_namedParent admits.resolved
  have size := holds.size_eq
  constructor
  case size_eq => simp [size]
  case outer_le =>
    intro index outer record listed
    rcases getElem?_append_singleton_eq_some_iff.mp listed with before | ⟨rfl, rfl⟩
    · exact holds.outer_le before
    · have inRange := admits.outer_lt
      simp only at inRange
      omega
  case children_nodup =>
    intro id entry found
    rcases get?_declare_cases admits holds found with ⟨_, rfl⟩ | ⟨before, beforeFound, rfl⟩
    · exact List.nodup_nil
    · unfold linked
      dsimp only
      split
      · rename_i atOuter
        apply Keyed.names_insert_nodup ?_ _ (holds.children_nodup beforeFound)
        rw [← entryAt_of_get? beforeFound, atOuter]
        exact admits.name_free
      · exact holds.children_nodup beforeFound
  case mem_children_iff =>
    intro id entry found name child
    exact mem_children_declare_iff admits holds found
  case branches_nodup =>
    intro id entry found
    rcases get?_declare_cases admits holds found with ⟨_, rfl⟩ | ⟨before, beforeFound, rfl⟩
    · exact List.nodup_nil
    · unfold linked
      dsimp only
      split
      · rename_i atParent
        apply Keyed.names_insert_nodup ?_ _ (holds.branches_nodup beforeFound)
        have untaken := admits.branch_free
        rwa [atParent, branchTaken, Option.isSome_some, Bool.true_and, Option.getD_some,
          entryAt_of_get? beforeFound] at untaken
      · exact holds.branches_nodup beforeFound
  case mem_branches_iff =>
    intro id entry found name branch
    rw [mem_branches_declare_iff admits holds found]
    constructor
    · rintro ⟨index, outer, record, listed, resolved, rest⟩
      exact ⟨index, outer, record, listed,
        (namedParent_declare_eq_iff admits holds listed).mpr resolved, rest⟩
    · rintro ⟨index, outer, record, listed, resolved, rest⟩
      exact ⟨index, outer, record, listed,
        (namedParent_declare_eq_iff admits holds listed).mp resolved, rest⟩
  case root_unlinked =>
    intro entry found
    rcases get?_declare_cases admits holds found with ⟨last, _⟩ | ⟨before, beforeFound, rfl⟩
    · rw [size] at last
      exact absurd last.symm (Nat.succ_ne_zero _)
    · have unlinked := holds.root_unlinked beforeFound
      exact unlinked
  case linked_parent =>
    intro index outer record listed
    rcases getElem?_append_singleton_eq_some_iff.mp listed with before | ⟨rfl, rfl⟩
    · obtain ⟨known, entry, resolved, knownLe, found, parentEq, namedEq⟩ :=
        holds.linked_parent before
      exact ⟨known, _, namedParent_declare admits holds definition resolved, knownLe,
        get?_declare_of_get? admits.outer_lt namedLt found, parentEq, namedEq⟩
    · refine ⟨named, _, namedParent_declare admits holds definition admits.resolved, ?_,
        size ▸ get?_declare_size admits.outer_lt namedLt, rfl, rfl⟩
      intro parent parentMem
      have inRange := namedLt parent parentMem
      rw [size] at inRange
      exact Nat.le_of_lt_succ inRange

end Represents

end DreamWorld.Tree
