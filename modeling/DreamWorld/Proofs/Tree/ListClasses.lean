import DreamWorld.Proofs.Tree.Hooks
import DreamWorld.Proofs.Tree.PathCoherence
import DreamWorld.Proofs.Tree.Subtypes
import DreamWorld.Proofs.World.Creation

/-!
# Classes of lists

The hook of lists goes to the list class and to everything below it, within a class or as a
branch of it, while objects are lists if their class inherits from the list class.  Where
names are plain, every class of lists has the hook.  A class within a class of lists that
inherits from elsewhere has the hook too, but its objects are not lists: these are the ones
that the hook fails for.
-/

namespace DreamWorld.Tree

open Document (ClassRecord)

variable {σ : Type} {loader : ResourceLoader σ} {firstClass : ClassId} {tree : Tree}
  {document : ClassRecord} {store : Store} {path : Path} {id : EntryId} {arguments : Arguments}

/-! ## The hooks of a tree with lists -/

/-- The entries that the list class covers have the hook of lists, and the others have no
hook. -/
structure HasBuiltins (tree : Tree) (store : Store) : Prop where
  covered : ∀ id, id < tree.size → tree.Covers Path.listClass id →
    tree.hookAt? store id = some .lists
  apart : ∀ id, id < tree.size → ¬ tree.Covers Path.listClass id → tree.hookAt? store id = none

/-- Without a declared list class there is nothing to attach. -/
theorem runOn_attachBuiltins (tree : Tree) (store : Store) :
    tree.attachBuiltins.runOn store =
      (.ok (), ((tree.attachHook Path.listClass .lists).runOn store).2) := by
  unfold attachBuiltins
  cases declared : tree.hasEntry Path.listClass with
  | false =>
      rcases hasEntry_eq_false_iff.mp declared with ⟨error, failed⟩
      rw [runOn_attachHook_of_error failed]
      rfl
  | true =>
      rcases hasEntry_iff.mp declared with ⟨start, found⟩
      have run := runOn_attachHook_of_ok found .lists store
      rw [run]
      exact Action.runOn_bind_of_ok run _

/-- After a load and the attaching of the hook of lists no other hooks are there. -/
theorem exists_hasBuiltins {world next : World} {memory last : σ}
    (loaded : world.loadRecord loader document memory = (.ok (), next, last)) :
    ∃ hooked, next.tree.attachBuiltins.runOn next.store = (.ok (), hooked) ∧
      next.tree.HasBuiltins hooked := by
  have carries := carries_of_loadRecord loaded
  have taken := (World.nextClass_loadRecord loaded).ge
  refine ⟨_, next.tree.runOn_attachBuiltins next.store, ?_, ?_⟩
  · intro id _ covers
    exact carries.hookAt?_attachHook_of_covers taken .lists covers
  · intro id inRange notCovers
    rw [carries.hookAt?_attachHook_of_not_covers taken inRange .lists notCovers]
    exact hookAt?_loadRecord loaded inRange

namespace HasBuiltins

variable (builtins : tree.HasBuiltins store)

include builtins

theorem hookAt?_eq_lists_iff (inRange : id < tree.size) :
    tree.hookAt? store id = some .lists ↔ tree.Covers Path.listClass id := by
  by_cases covers : tree.Covers Path.listClass id
  · simp only [builtins.covered id inRange covers, covers]
  · simp [builtins.apart id inRange covers, covers]

theorem atMostLists (inRange : id < tree.size) :
    store.AtMostLists (tree.entryAt id).definition.id := by
  by_cases covers : tree.Covers Path.listClass id
  · exact .inr (builtins.covered id inRange covers)
  · exact .inl (builtins.apart id inRange covers)

end HasBuiltins

/-! ## Creating by path -/

theorem runOn_create_of_entryId (found : tree.entryId path = .ok id) (arguments : Arguments)
    (store : Store) :
    (tree.create path arguments).runOn store =
      (Object.create (tree.entryAt id).definition arguments).runOn store := by
  unfold create classFor definitionOf
  rw [found]
  rfl

theorem runOn_create_of_error {error : RuntimeError} (failed : tree.entryId path = .error error)
    (notLists : path ≠ Path.listClass) (arguments : Arguments) (store : Store) :
    (tree.create path arguments).runOn store = (.error error, store) := by
  unfold create classFor definitionOf
  rw [failed, eq_unresolved_of_entryId failed]
  unfold Path.unresolved
  cases path.isAbsolute with
  | false => rfl
  | true =>
      simp only [Except.map, if_pos, if_neg notLists]
      rfl

/-- The store in which a list class that is not declared has been made up. -/
def withBareLists (store : Store) : Store :=
  (store.addClasses 1).setHook store.nextClass (some .lists)

/-- A list is created even if no list class is declared. -/
theorem runOn_create_listClass (undeclared : tree.hasEntry Path.listClass = false)
    (arguments : Arguments) (store : Store) :
    (tree.create Path.listClass arguments).runOn store =
      (Object.create (Definition.below store.nextClass Path.listClass none) arguments).runOn
        (withBareLists store) := by
  rcases hasEntry_eq_false_iff.mp undeclared with ⟨error, failed⟩
  unfold create classFor definitionOf
  rw [failed, eq_unresolved_of_entryId failed]
  rfl

theorem hook?_withBareLists (store : Store) :
    (withBareLists store).hook? store.nextClass = some .lists := by
  have known : store.nextClass < (store.addClasses 1).nextClass := by
    rw [Store.nextClass_addClasses]
    exact Nat.lt_succ_self _
  rw [withBareLists, Store.hook?_setHook _ known, if_pos rfl]

/-- An object is created from the class of the path, or as a list of a class that is made
up for it. -/
theorem runOn_create_cases {ref : ObjectRef} {made : Store}
    (run : (tree.create path arguments).runOn store = (.ok ref, made)) :
    (∃ id, tree.entryId path = .ok id ∧
      (Object.create (tree.entryAt id).definition arguments).runOn store = (.ok ref, made)) ∨
    (Object.create (Definition.below store.nextClass Path.listClass none) arguments).runOn
      (withBareLists store) = (.ok ref, made) := by
  cases found : tree.entryId path with
  | ok id => exact .inl ⟨id, rfl, (runOn_create_of_entryId found arguments store).symm.trans run⟩
  | error error =>
      by_cases isLists : path = Path.listClass
      · subst isLists
        have undeclared := hasEntry_eq_false_iff.mpr ⟨error, found⟩
        exact .inr ((runOn_create_listClass undeclared arguments store).symm.trans run)
      · cases (runOn_create_of_error found isLists arguments store).symm.trans run

/-! ## All lists have their hook -/

namespace Carries

variable (carries : Carries loader firstClass document tree (document.placedWithin 0))

include carries

/-- Where names are plain, a path covers all of its subtypes. -/
theorem covers_of_isSubtypeOf (plain : ∀ place record, 0 < place →
      document.preorder[place]? = some record → Path.IsPlain record.name)
    (inRange : id < tree.size) {type : Path}
    (isSubtype : (tree.entryAt id).definition.isSubtypeOf type = true) : tree.Covers type id := by
  rcases (carries.isSubtypeOf_entryAt_iff inRange type).mp isSubtype with
    ⟨ancestor, inherits, pathEq⟩
  have found := carries.entryId_path_of_isPlain plain (carries.lt_size_of_inherits inRange inherits)
  rw [pathEq] at found
  exact carries.covers_of_inherits found inRange inherits

/-- The declared list class is a class of lists. -/
theorem isSubtypeOf_listClass (found : tree.entryId Path.listClass = .ok id) :
    (tree.entryAt id).definition.isSubtypeOf Path.listClass = true := by
  have inRange := carries.lt_size_of_entryId found
  rcases carries.find?_eq_some_iff_reaches.mp (entryId_eq_ok_iff.mp found).2 with ⟨record, reached⟩
  have pathEq := carries.path_eq (List.prefix_refl _) reached inRange
  exact (carries.isSubtypeOf_entryAt_iff inRange _).mpr ⟨id, .refl, pathEq⟩

end Carries

theorem isSubtypeOf_bareLists (id : ClassId) :
    (Definition.below id Path.listClass none).isSubtypeOf Path.listClass = true :=
  rfl

section

variable (builtins : tree.HasBuiltins store)
  (carries : Carries loader firstClass document tree (document.placedWithin 0))

include builtins carries

/-- Where names are plain, what is created has the hook of lists if it is a list. -/
theorem HasBuiltins.exists_hooked_of_create {ref : ObjectRef} {made : Store}
    (plain : ∀ place record, 0 < place → document.preorder[place]? = some record →
      Path.IsPlain record.name)
    (run : (tree.create path arguments).runOn store = (.ok ref, made)) :
    ∃ object, made.object? ref = some object ∧
      object.list.isSome = object.definition.isSubtypeOf Path.listClass ∧
      (object.list.isSome = true → made.hook? object.definition.id = some .lists) := by
  rcases runOn_create_cases run with ⟨id, found, run⟩ | run
  · have inRange := carries.lt_size_of_entryId found
    obtain ⟨rfl, object, born⟩ :=
      Object.exists_born_of_runOn_create (builtins.atMostLists inRange) run
    refine ⟨object, born.alive.found, born.hooked fun isList => ?_⟩
    exact builtins.covered id inRange (carries.covers_of_isSubtypeOf plain inRange isList)
  · have hookEq := hook?_withBareLists store
    obtain ⟨rfl, object, born⟩ := Object.exists_born_of_runOn_create (.inr hookEq) run
    exact ⟨object, born.alive.found, born.hooked fun _ => hookEq⟩

theorem HasBuiltins.exists_list_of_entryId (found : tree.entryId path = .ok id)
    (isList : (tree.entryAt id).definition.isSubtypeOf Path.listClass = true)
    (arguments : Arguments) :
    ∃ ref made, (tree.create path arguments).runOn store = (.ok ref, made) ∧
      (made.list? ref).isSome = true := by
  rw [runOn_create_of_entryId found]
  exact Object.exists_list_of_isSubtypeOf
    (builtins.atMostLists (carries.lt_size_of_entryId found)) isList arguments

/-- Lists are created at the path of the list class, whether it is declared or made up. -/
theorem HasBuiltins.exists_list_of_listClass (arguments : Arguments) :
    ∃ ref made, (tree.create Path.listClass arguments).runOn store = (.ok ref, made) ∧
      (made.list? ref).isSome = true := by
  cases found : tree.entryId Path.listClass with
  | ok id =>
      exact builtins.exists_list_of_entryId carries found (carries.isSubtypeOf_listClass found)
        arguments
  | error error =>
      rw [runOn_create_listClass (hasEntry_eq_false_iff.mpr ⟨error, found⟩)]
      exact Object.exists_list_of_isSubtypeOf (.inr (hook?_withBareLists store))
        (isSubtypeOf_bareLists _) arguments

end

/-- After a load in which all inner records have plain names, the hook of lists reaches every
class of lists, however the class inherits.  Objects created from then on have it too if they
are lists, and lists can always be created, even if the list class is not declared. -/
theorem attachBuiltins_loadRecord_of_isPlain {world next : World} {memory last : σ}
    (loaded : world.loadRecord loader document memory = (.ok (), next, last))
    (plain : ∀ place record, 0 < place → document.preorder[place]? = some record →
      Path.IsPlain record.name) :
    ∃ hooked, next.tree.attachBuiltins.runOn next.store = (.ok (), hooked) ∧
      next.tree.HasBuiltins hooked ∧
      (∀ id, id < next.tree.size →
        (next.tree.entryAt id).definition.isSubtypeOf Path.listClass = true →
        next.tree.hookAt? hooked id = some .lists) ∧
      ∀ store, next.tree.HasBuiltins store → ∀ path arguments,
        (∀ ref made, (next.tree.create path arguments).runOn store = (.ok ref, made) →
          ∃ object, made.object? ref = some object ∧
            object.list.isSome = object.definition.isSubtypeOf Path.listClass ∧
            (object.list.isSome = true → made.hook? object.definition.id = some .lists)) ∧
        ((path = Path.listClass ∨ ∃ id, next.tree.entryId path = .ok id ∧
            (next.tree.entryAt id).definition.isSubtypeOf Path.listClass = true) →
          ∃ ref made, (next.tree.create path arguments).runOn store = (.ok ref, made) ∧
            (made.list? ref).isSome = true) := by
  have carries := carries_of_loadRecord loaded
  rcases exists_hasBuiltins loaded with ⟨hooked, attached, builtins⟩
  refine ⟨hooked, attached, builtins, ?_, ?_⟩
  · intro id inRange isList
    exact builtins.covered id inRange (carries.covers_of_isSubtypeOf plain inRange isList)
  · intro store builtins path arguments
    constructor
    · intro ref made run
      exact builtins.exists_hooked_of_create carries plain run
    · rintro (rfl | ⟨id, found, isList⟩)
      · exact builtins.exists_list_of_listClass carries arguments
      · exact builtins.exists_list_of_entryId carries found isList arguments

/-! ## Lists within and outside of the list class -/

/-- A document of a class of lists that lies outside of the list class, and of a class within
it that is not one of lists. -/
def inventoryDocument : ClassRecord where
  name := ""
  children := some
    [{ name := "mob", vars := some [("len", .number "1")] },
      { name := "list", children := some [{ name := "entry", parent := some "/mob" }] },
      { name := "stack", parent := some "/list" }]

theorem isPlain_inventoryDocument (place : Nat) (record : ClassRecord) (positive : 0 < place)
    (listed : inventoryDocument.preorder[place]? = some record) : Path.IsPlain record.name :=
  isPlain_of_preorder_tail (by decide +kernel) place record positive listed

/-- The class outside of the list class has the hook of lists. -/
theorem attachBuiltins_loadRecord_inventoryDocument :
    (World.start.loadRecord (fileLoader "res") inventoryDocument {}).1 = .ok () ∧
      let next := (World.start.loadRecord (fileLoader "res") inventoryDocument {}).2.1
      ∃ hooked, next.tree.attachBuiltins.runOn next.store = (.ok (), hooked) ∧
        next.tree.hookAt? hooked 4 = some .lists := by
  have loaded : World.start.loadRecord (fileLoader "res") inventoryDocument {} =
      (.ok (), (World.start.loadRecord (fileLoader "res") inventoryDocument {}).2) := rfl
  obtain ⟨hooked, attached, _, hooks, _⟩ :=
    attachBuiltins_loadRecord_of_isPlain loaded isPlain_inventoryDocument
  exact ⟨rfl, hooked, attached, hooks 4 (by decide) (by decide)⟩

/-! ## What else has the hook of lists -/

/-- The list class covers an entry, but its class is not one of lists. -/
def Mishooked (tree : Tree) (id : EntryId) : Prop :=
  tree.Covers Path.listClass id ∧
    (tree.entryAt id).definition.isSubtypeOf Path.listClass = false

theorem HasBuiltins.refused_iff (builtins : tree.HasBuiltins store) (inRange : id < tree.size) :
    Object.Refused store (tree.entryAt id).definition arguments ↔
      tree.Mishooked id ∧ arguments.listLength? ≠ none := by
  unfold Object.Refused Mishooked
  rw [← builtins.hookAt?_eq_lists_iff inRange, and_assoc]
  rfl

/-- After a load and the attaching of the hook of lists, an object of a class is created
unless the class is not one of lists, has the hook all the same, and a length is asked for.
An object that has been created is shown unless its class is such a class and has a variable
with the name of the length. -/
theorem create_attachBuiltins_loadRecord {world next : World} {memory last : σ}
    (loaded : world.loadRecord loader document memory = (.ok (), next, last)) :
    ∃ hooked, next.tree.attachBuiltins.runOn next.store = (.ok (), hooked) ∧
      next.tree.HasBuiltins hooked ∧
      ∀ store, next.tree.HasBuiltins store → ∀ path id arguments,
        next.tree.entryId path = .ok id →
        (next.tree.Mishooked id → arguments.listLength? ≠ none →
          ((next.tree.create path arguments).runOn store).1 =
            .error (.notAList (next.tree.entryAt id).path)) ∧
        (¬ (next.tree.Mishooked id ∧ arguments.listLength? ≠ none) →
          ∃ ref made, (next.tree.create path arguments).runOn store = (.ok ref, made) ∧
            (next.tree.Mishooked id →
              (next.tree.entryAt id).definition.variableDefaults.has lengthName = true →
              (Report.ofObject ref).runOn made =
                (.error (.notAList (next.tree.entryAt id).path), made)) ∧
            (¬ (next.tree.Mishooked id ∧
                (next.tree.entryAt id).definition.variableDefaults.has lengthName = true) →
              ∃ text, (Report.ofObject ref).runOn made = (.ok text, made))) := by
  have carries := carries_of_loadRecord loaded
  rcases exists_hasBuiltins loaded with ⟨hooked, attached, builtins⟩
  refine ⟨hooked, attached, builtins, ?_⟩
  intro store builtins path id arguments found
  have inRange := carries.lt_size_of_entryId found
  have atMost := builtins.atMostLists inRange
  rw [runOn_create_of_entryId found]
  constructor
  · intro mishooked asked
    exact Object.runOn_create_of_refused ((builtins.refused_iff inRange).mpr ⟨mishooked, asked⟩)
  · intro accepted
    rcases Object.exists_born_of_not_refused atMost
      (mt (builtins.refused_iff inRange).mp accepted) with ⟨made, object, run, born⟩
    have unreadable : object.Unreadable made ↔ next.tree.Mishooked id ∧
        (next.tree.entryAt id).definition.variableDefaults.has lengthName = true := by
      rw [born.unreadable_iff, Mishooked, ← builtins.hookAt?_eq_lists_iff inRange, and_assoc]
      rfl
    refine ⟨_, made, run, ?_, ?_⟩
    · intro mishooked has
      exact born.alive.runOn_ofObject_of_unreadable (unreadable.mpr ⟨mishooked, has⟩)
    · intro readable
      exact born.alive.exists_runOn_ofObject (born.atMostLists atMost) (mt unreadable.mp readable)

/-- A class within the list class that inherits from elsewhere lets no object be created
with a length. -/
theorem create_attachBuiltins_loadRecord_inventoryDocument :
    (World.start.loadRecord (fileLoader "res") inventoryDocument {}).1 = .ok () ∧
      let next := (World.start.loadRecord (fileLoader "res") inventoryDocument {}).2.1
      ∃ hooked, next.tree.attachBuiltins.runOn next.store = (.ok (), hooked) ∧
        ((next.tree.create (Path.parse "/list/entry") { ordered := [.integer 3] }).runOn hooked).1 =
          .error (.notAList (Path.parse "/list/entry")) := by
  have loaded : World.start.loadRecord (fileLoader "res") inventoryDocument {} =
      (.ok (), (World.start.loadRecord (fileLoader "res") inventoryDocument {}).2) := rfl
  obtain ⟨hooked, attached, builtins, outcomes⟩ := create_attachBuiltins_loadRecord loaded
  refine ⟨rfl, hooked, attached, (outcomes hooked builtins _ 3 _ rfl).1 ⟨?_, by decide⟩ ?_⟩
  · exact ⟨2, rfl, .single (.inl (by decide))⟩
  · exact Option.some_ne_none 3

theorem create_inventoryDocument :
    let next := (World.start.loadRecord (fileLoader "res") inventoryDocument {}).2.1
    ((next.tree.create (Path.parse "/list/entry") { ordered := [.integer 3] }).runOn
      (next.tree.attachBuiltins.runOn next.store).2).1 =
        .error (.notAList (Path.parse "/list/entry")) := by
  decide +kernel

/-- Not every declared class lets objects be created and shown. -/
theorem not_forall_create :
    ¬ ∀ (document : ClassRecord) (next : World) (last : ResourceCache) (hooked : Store),
      World.start.loadRecord (fileLoader "res") document {} = (.ok (), next, last) →
      next.tree.attachBuiltins.runOn next.store = (.ok (), hooked) →
      ∀ path arguments, next.tree.hasEntry path = true →
        ∃ ref made text, (next.tree.create path arguments).runOn hooked = (.ok ref, made) ∧
          (Report.ofObject ref).runOn made = (.ok text, made) := by
  intro creates
  have loaded : World.start.loadRecord (fileLoader "res") inventoryDocument {} =
      (.ok (), (World.start.loadRecord (fileLoader "res") inventoryDocument {}).2) := rfl
  obtain ⟨_, _, _, run, _⟩ := creates inventoryDocument _ _ _ loaded
    (runOn_attachBuiltins _ _) (Path.parse "/list/entry") { ordered := [.integer 3] } (by decide)
  have failed := create_inventoryDocument
  dsimp only at failed
  rw [runOn_attachBuiltins] at failed
  cases (congrArg Prod.fst run).symm.trans failed

end DreamWorld.Tree
