import DreamWorld.Proofs.Tree.Declared
import DreamWorld.Proofs.Tree.Lineage

/-!
# Where shared variables are declared

A shared variable of a loaded class is the one of the nearest record of its lineage that
lists the name, and its first value is what the constant of that record was read as.
-/

namespace DreamWorld

open Document (ClassRecord)

namespace Document.ClassRecord

/-- The constant that a record gives to a shared variable; of several the last counts. -/
def sharedConstant? (record : ClassRecord) (name : String) : Option Json.Value :=
  Keyed.find? (Keyed.ofPairs (record.globals.getD [])) name

/-- The nearest record of a lineage that lists a shared variable: its place, and the
constant that it gives. -/
def nearestShared? (name : String) (lineage : List (Nat × ClassRecord)) :
    Option (Nat × Json.Value) :=
  lineage.findSome? fun member =>
    (member.2.sharedConstant? name).map fun constant => (member.1, constant)

theorem nearestShared?_eq_none_iff {name : String} {lineage : List (Nat × ClassRecord)} :
    nearestShared? name lineage = none ↔
      ∀ member ∈ lineage, member.2.sharedConstant? name = none := by
  simp [nearestShared?]

theorem exists_mem_of_nearestShared? {name : String} {lineage : List (Nat × ClassRecord)}
    {owner : Nat} {constant : Json.Value}
    (nearest : nearestShared? name lineage = some (owner, constant)) :
    ∃ record, (owner, record) ∈ lineage ∧ record.sharedConstant? name = some constant := by
  rcases List.exists_of_findSome?_eq_some nearest with ⟨member, mem, found⟩
  rcases Option.map_eq_some_iff.mp found with ⟨_, listed, same⟩
  cases same
  exact ⟨member.2, mem, listed⟩

end Document.ClassRecord

variable {σ : Type} {loader : ResourceLoader σ}

/-- Tables that are read entry by entry answer each look-up with a constant and what
it is read as. -/
theorem Constant.ReadsTable.rel_find? {constants : Keyed Json.Value} {values : Keyed Value}
    (reads : Constant.ReadsTable loader constants values) (name : String) :
    Option.Rel (Constant.Reads loader) (Keyed.find? (Keyed.ofPairs constants) name)
      (Keyed.find? (Keyed.ofPairs values) name) := by
  -- The tables written so far are related, and each further pair keeps them so.
  have rel_foldl : ∀ (lower : Keyed Json.Value) (upper : Keyed Value),
      (∀ other, Option.Rel (Constant.Reads loader) (Keyed.find? lower other)
        (Keyed.find? upper other)) →
      Option.Rel (Constant.Reads loader)
        (Keyed.find? (constants.foldl (fun table pair => table.insert pair.1 pair.2) lower) name)
        (Keyed.find? (values.foldl (fun table pair => table.insert pair.1 pair.2) upper) name) := by
    induction reads with
    | nil => exact fun _ _ related => related name
    | @cons constant value _ _ read _ ih =>
        intro lower upper related
        apply ih
        intro other
        rw [Keyed.find?_insert, Keyed.find?_insert, read.1]
        by_cases same : value.1 = other
        · rw [if_pos same, if_pos same]
          exact .some read.2
        · rw [if_neg same, if_neg same]
          exact related other
  exact rel_foldl [] [] fun _ => .none

/-- Searches that answer each item alike come to the same answer. -/
theorem rel_findSome? {α β γ : Type} {related : β → γ → Prop} {items : List α}
    {search : α → Option β} {other : α → Option γ}
    (each : ∀ item ∈ items, Option.Rel related (search item) (other item)) :
    Option.Rel related (items.findSome? search) (items.findSome? other) := by
  induction items with
  | nil => exact .none
  | cons item rest ih =>
      rcases List.forall_mem_cons.mp each with ⟨here, later⟩
      rw [List.findSome?_cons, List.findSome?_cons]
      generalize search item = answer at here ⊢
      generalize other item = otherAnswer at here ⊢
      cases here with
      | none => exact ih later
      | some relatedValues => exact .some relatedValues

theorem exists_of_rel_some {β γ : Type} {related : β → γ → Prop} {value : β} {other : Option γ}
    (rel : Option.Rel related (some value) other) :
    ∃ otherValue, other = some otherValue ∧ related value otherValue := by
  cases rel with
  | some relatedValues => exact ⟨_, rfl, relatedValues⟩

namespace Tree.Carries

variable {firstClass : ClassId} {tree : Tree} {document record : ClassRecord} {place : Nat}
  {lineage : List (Nat × ClassRecord)}
  (carries : Carries loader firstClass document tree (document.placedWithin 0))

include carries

/-- The class at a place has the number of the place, counted from the first class. -/
theorem id_entryAt (listed : document.preorder[place]? = some record) :
    (tree.entryAt place).definition.own.id = firstClass + place := by
  rcases carries.exists_builtFrom listed with ⟨_, _, _, run⟩
  exact (Definition.sameClass_of_run_loadMembers run).1

theorem rel_sharedConstant? (listed : document.preorder[place]? = some record)
    (name : String) :
    Option.Rel (Constant.Reads loader) (record.sharedConstant? name)
      (Keyed.find? (tree.entryAt place).definition.own.globals name) := by
  rcases carries.exists_builtFrom listed with ⟨_, _, _, run⟩
  rcases Definition.globals_loadMembers run rfl with ⟨values, reads, globalsEq⟩
  rw [globalsEq]
  exact reads.rel_find? name

/-- The classes that a class goes through are those of its lineage. -/
theorem lineage_entryAt (lineal : document.Lineage place lineage) :
    (tree.entryAt place).definition.lineage =
      lineage.map fun member => (tree.entryAt member.1).definition.own := by
  induction lineal with
  | outermost =>
      rcases carries.root_built with ⟨_, _, run⟩
      have ancestorsEq := (Definition.sameClass_of_run_loadMembers run).2.2
      have rootLt : rootId < tree.size := tree.nonempty
      rw [(carries.represents.root_unlinked (get?_entryAt rootLt)).1] at ancestorsEq
      exact congrArg (List.cons _) ancestorsEq
  | @heir place parent record lineage listed inherits _ ih =>
      rcases carries.exists_builtFrom listed with ⟨_, _, _, run⟩
      have ancestorsEq := (Definition.sameClass_of_run_loadMembers run).2.2
      have parentEq := (carries.represents.inheritsFrom_iff
        (carries.lt_size_of_getElem? listed)).mp inherits
      rw [parentEq] at ancestorsEq
      rw [List.map_cons, ← ih]
      exact congrArg (List.cons _) ancestorsEq

/-- The shared variable of a class is that of the nearest record that lists the name. -/
theorem rel_nearestShared? (lineal : document.Lineage place lineage) (name : String) :
    Option.Rel
      (fun nearest global => global.cell = (firstClass + nearest.1, name) ∧
        Keyed.find? (tree.entryAt nearest.1).definition.own.globals name = some global.initial ∧
        Constant.Reads loader nearest.2 global.initial)
      (ClassRecord.nearestShared? name lineage)
      ((tree.entryAt place).definition.globalVariable? name) := by
  unfold Definition.globalVariable? ClassRecord.nearestShared?
  rw [carries.lineage_entryAt lineal, List.findSome?_map]
  apply rel_findSome?
  intro member mem
  have listed := lineal.getElem?_preorder member mem
  have related := carries.rel_sharedConstant? listed name
  have ownId := carries.id_entryAt listed
  dsimp only [Function.comp]
  generalize member.2.sharedConstant? name = constant at related ⊢
  generalize found : Keyed.find? (tree.entryAt member.1).definition.own.globals name = value
    at related ⊢
  cases related with
  | none => exact .none
  | some reads => exact .some ⟨congrArg (·, name) ownId, found, reads⟩

/-- A class has no shared variable of a name that no record of its lineage lists. -/
theorem globalVariable?_eq_none_iff (lineal : document.Lineage place lineage) (name : String) :
    (tree.entryAt place).definition.globalVariable? name = none ↔
      ∀ member ∈ lineage, member.2.sharedConstant? name = none := by
  rw [← ClassRecord.nearestShared?_eq_none_iff]
  have related := carries.rel_nearestShared? lineal name
  generalize (tree.entryAt place).definition.globalVariable? name = global at related ⊢
  generalize ClassRecord.nearestShared? name lineage = nearest at related ⊢
  cases related <;> simp

/-- The shared variable that the nearest record lists. -/
theorem exists_global_of_nearestShared? (lineal : document.Lineage place lineage) {name : String}
    {owner : Nat} {constant : Json.Value}
    (nearest : ClassRecord.nearestShared? name lineage = some (owner, constant)) :
    ∃ global, (tree.entryAt place).definition.globalVariable? name = some global ∧
      owner < tree.size ∧ global.cell = (firstClass + owner, name) ∧
      Keyed.find? (tree.entryAt owner).definition.own.globals name = some global.initial ∧
      Constant.Reads loader constant global.initial := by
  rcases ClassRecord.exists_mem_of_nearestShared? nearest with ⟨record, mem, _⟩
  have inRange := carries.lt_size_of_getElem? (lineal.getElem?_preorder _ mem)
  have related := carries.rel_nearestShared? lineal name
  rw [nearest] at related
  rcases exists_of_rel_some related with ⟨global, found, owned⟩
  exact ⟨global, found, inRange, owned⟩

/-- The nearest record that lists a shared variable which a class has. -/
theorem exists_nearestShared?_of_global (lineal : document.Lineage place lineage) {name : String}
    {global : GlobalVariable}
    (found : (tree.entryAt place).definition.globalVariable? name = some global) :
    ∃ owner constant, ClassRecord.nearestShared? name lineage = some (owner, constant) ∧
      global.cell = (firstClass + owner, name) := by
  cases nearest : ClassRecord.nearestShared? name lineage with
  | none =>
      have undeclared := (carries.globalVariable?_eq_none_iff lineal name).mpr
        (ClassRecord.nearestShared?_eq_none_iff.mp nearest)
      rw [undeclared] at found
      cases found
  | some listed =>
      rcases carries.exists_global_of_nearestShared? lineal nearest with
        ⟨other, otherFound, _, cellEq, _⟩
      rw [found] at otherFound
      cases otherFound
      exact ⟨listed.1, listed.2, rfl, cellEq⟩

end Tree.Carries

end DreamWorld
