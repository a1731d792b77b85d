import DreamWorld.Proofs.Keyed
import DreamWorld.Tree.Relations
import Mathlib.Data.List.Induction

/-!
# Adding a class to a tree

Adding a class appends one entry.  Of the entries before it only two change: the
one that the class lies within gets a child, and the one that it names as its
parent gets a branch.  Whatever a path led to before, it leads to afterwards.
-/

namespace DreamWorld.Tree

variable {tree : Tree} {outer id : EntryId} {named : Option EntryId} {name : String}
  {definition : Definition}

/-! ## Entries by number -/

theorem get?_eq_none_iff : tree.get? id = none ↔ tree.size ≤ id :=
  Array.getElem?_eq_none_iff

theorem lt_size_of_get? {entry : Entry} (found : tree.get? id = some entry) :
    id < tree.size :=
  (Array.getElem?_eq_some_iff.mp found).1

theorem exists_get? (inRange : id < tree.size) : ∃ entry, tree.get? id = some entry :=
  ⟨tree.entries[id], Array.getElem?_eq_getElem inRange⟩

theorem entryAt_of_get? {entry : Entry} (found : tree.get? id = some entry) :
    tree.entryAt id = entry := by
  rw [entryAt, found, Option.getD_some]

theorem get?_entryAt (inRange : id < tree.size) : tree.get? id = some (tree.entryAt id) := by
  rcases exists_get? inRange with ⟨entry, found⟩
  rw [entryAt_of_get? found, found]

/-! ## The entries after a class is added -/

theorem get?_push (tree : Tree) (entry : Entry) (id : EntryId) :
    (tree.push entry).get? id = if id = tree.size then some entry else tree.get? id :=
  Array.getElem?_push

theorem get?_update (tree : Tree) (target id : EntryId) (change : Entry → Entry) :
    (tree.update target change).get? id =
      if target = id then (tree.get? id).map change else tree.get? id :=
  Array.getElem?_modify

/-- The entry of a class that has just been added. -/
def newEntry (outer : EntryId) (named : Option EntryId) (definition : Definition) : Entry :=
  { definition, parent := some (named.getD outer), hasNamedParent := named.isSome }

/-- What becomes of an earlier entry when the class of number `added` is added. -/
def linked (outer : EntryId) (named : Option EntryId) (name : String) (added id : EntryId)
    (entry : Entry) : Entry :=
  { entry with
    children := if id = outer then entry.children.insert name added else entry.children
    branches := if named = some id then entry.branches.insert name added else entry.branches }

@[simp]
theorem size_declare (tree : Tree) (outer : EntryId) (named : Option EntryId) (name : String)
    (definition : Definition) :
    (tree.declare outer named name definition).size = tree.size + 1 := by
  cases named <;> simp [declare, size, update, push]

/-- A new class becomes the last entry and is linked from the entries before it. -/
theorem get?_declare (outerLt : outer < tree.size) (namedLt : ∀ parent ∈ named, parent < tree.size)
    (name : String) (definition : Definition) (id : EntryId) :
    (tree.declare outer named name definition).get? id =
      if id = tree.size then some (newEntry outer named definition)
      else (tree.get? id).map (linked outer named name tree.size id) := by
  have outerNe : outer ≠ tree.size := Nat.ne_of_lt outerLt
  cases named with
  | none =>
      rw [declare, get?_update, get?_push]
      by_cases last : id = tree.size
      · simp [last, outerNe, newEntry]
      · by_cases atOuter : outer = id
        · subst atOuter
          cases tree.get? outer <;> simp [outerNe, linked]
        · cases tree.get? id <;> simp [last, atOuter, Ne.symm atOuter, linked]
  | some parent =>
      have parentNe : parent ≠ tree.size := Nat.ne_of_lt (namedLt parent rfl)
      rw [declare, get?_update, get?_update, get?_push]
      by_cases last : id = tree.size
      · simp [last, outerNe, parentNe, newEntry]
      · by_cases atOuter : outer = id
        · subst atOuter
          by_cases atParent : parent = outer <;> cases tree.get? outer <;>
            simp [outerNe, atParent, linked]
        · by_cases atParent : parent = id <;> cases tree.get? id <;>
            simp [last, atOuter, Ne.symm atOuter, atParent, linked]

theorem get?_declare_size (outerLt : outer < tree.size)
    (namedLt : ∀ parent ∈ named, parent < tree.size) :
    (tree.declare outer named name definition).get? tree.size =
      some (newEntry outer named definition) := by
  rw [get?_declare outerLt namedLt, if_pos rfl]

theorem get?_declare_of_get? (outerLt : outer < tree.size)
    (namedLt : ∀ parent ∈ named, parent < tree.size) {entry : Entry}
    (found : tree.get? id = some entry) :
    (tree.declare outer named name definition).get? id =
      some (linked outer named name tree.size id entry) := by
  rw [get?_declare outerLt namedLt, if_neg (Nat.ne_of_lt (lt_size_of_get? found)), found,
    Option.map_some]

/-- Adding a class changes no class that is there. -/
theorem definition_entryAt_declare (outerLt : outer < tree.size)
    (namedLt : ∀ parent ∈ named, parent < tree.size) (inRange : id < tree.size) :
    ((tree.declare outer named name definition).entryAt id).definition =
      (tree.entryAt id).definition := by
  rw [entryAt_of_get? (get?_declare_of_get? outerLt namedLt (get?_entryAt inRange))]
  rfl

/-! ## Following paths after a class is added -/

theorem child?_declare (outerLt : outer < tree.size)
    (namedLt : ∀ parent ∈ named, parent < tree.size) (other : String) :
    (tree.declare outer named name definition).child? id other =
      if id = outer ∧ name = other then some tree.size else tree.child? id other := by
  unfold child?
  rcases Nat.lt_trichotomy id tree.size with before | rfl | after
  · rcases exists_get? before with ⟨entry, found⟩
    rw [get?_declare_of_get? outerLt namedLt found, found, Option.bind_some, Option.bind_some]
    by_cases atOuter : id = outer
    · simp only [linked, atOuter, if_true, true_and]
      exact Keyed.find?_insert entry.children name other tree.size
    · simp [linked, atOuter]
  · have outerNe : tree.size ≠ outer := Nat.ne_of_gt outerLt
    have absent : tree.get? tree.size = none := get?_eq_none_iff.mpr (Nat.le_refl _)
    rw [get?_declare_size outerLt namedLt, absent]
    simp [newEntry, Keyed.find?, outerNe]
  · have outerNe : id ≠ outer := Nat.ne_of_gt (Nat.lt_trans outerLt after)
    have absent : tree.get? id = none := get?_eq_none_iff.mpr (Nat.le_of_lt after)
    rw [get?_declare outerLt namedLt, if_neg (Nat.ne_of_gt after), absent]
    simp [outerNe]

theorem find?_append_singleton (tree : Tree) (names : List String) (name : String) :
    tree.find? (names ++ [name]) = (tree.find? names).bind fun id => tree.child? id name := by
  simp [find?, List.foldlM_append]

/-- One more name leads one entry further. -/
theorem find?_append_singleton_eq_some_iff {names : List String} :
    tree.find? (names ++ [name]) = some id ↔
      ∃ outer, tree.find? names = some outer ∧ tree.child? outer name = some id := by
  rw [find?_append_singleton, Option.bind_eq_some_iff]

/-- A class of a new name leaves every path that leads somewhere as it is. -/
theorem find?_declare_of_eq_some (outerLt : outer < tree.size)
    (namedLt : ∀ parent ∈ named, parent < tree.size) (fresh : tree.child? outer name = none)
    {names : List String} (found : tree.find? names = some id) :
    (tree.declare outer named name definition).find? names = some id := by
  induction names using List.reverseRecOn generalizing id with
  | nil => exact found
  | append_singleton names last ih =>
      obtain ⟨enclosing, enclosingFound, childFound⟩ :=
        find?_append_singleton_eq_some_iff.mp found
      apply find?_append_singleton_eq_some_iff.mpr
      apply Exists.intro enclosing
      apply And.intro (ih enclosingFound)
      rw [child?_declare outerLt namedLt, if_neg, childFound]
      rintro ⟨rfl, rfl⟩
      rw [fresh] at childFound
      contradiction

theorem entryId_eq_ok_iff {path : Path} :
    tree.entryId path = .ok id ↔ path.isAbsolute = true ∧ tree.find? path.elements = some id := by
  unfold entryId
  cases path.isAbsolute
  · simp
  · cases tree.find? path.elements <;> simp

theorem hasEntry_iff {path : Path} :
    tree.hasEntry path = true ↔ ∃ id, tree.entryId path = .ok id := by
  simp [hasEntry, entryId_eq_ok_iff, Option.isSome_iff_exists]

theorem hasEntry_eq_false_iff {path : Path} :
    tree.hasEntry path = false ↔ ∃ error, tree.entryId path = .error error := by
  rw [← Bool.not_eq_true, hasEntry_iff]
  cases tree.entryId path <;> simp

end DreamWorld.Tree
