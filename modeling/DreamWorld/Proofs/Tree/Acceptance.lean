import DreamWorld.Proofs.Document.Violation
import DreamWorld.Proofs.Tree.Resolution

/-!
# Which documents are loaded

The loader keeps no list of conditions; it asks a tree that holds the records so
far.  What the tree answers is what the document says about the places so far, so
each check fails exactly on a violation of its condition at the place of the
record.  A document is therefore loaded exactly when it has no violation, and
otherwise its first violation is reported and the world stays as it was.
-/

namespace DreamWorld.Tree

open Document (ClassRecord PlacedRecord Check)
open Document.ClassRecord (pathOfNames)

variable {σ : Type} {loader : ResourceLoader σ} {answer : String → Except ResourceError Resource}
  {valid : σ → Prop} {firstClass : ClassId} {tree : Tree} {document : ClassRecord}
  {done rest : List PlacedRecord} {placed : PlacedRecord} {error : LoadError} {memory last : σ}

/-! ## What a tree answers -/

/-- A path that leads nowhere fails by its kind. -/
theorem eq_unresolved_of_entryId {path : Path} {error : RuntimeError}
    (failed : tree.entryId path = .error error) : error = path.unresolved := by
  unfold entryId at failed
  unfold Path.unresolved
  cases absolute : path.isAbsolute with
  | false =>
      rw [absolute] at failed
      cases failed
      rfl
  | true =>
      rw [absolute, if_pos rfl] at failed
      cases found : tree.find? path.elements with
      | some id =>
          rw [found] at failed
          cases failed
      | none =>
          rw [found] at failed
          cases failed
          rfl

/-- A record fails by its parent exactly when it names one and there is none. -/
theorem namedParent_eq_error_iff {record : ClassRecord} :
    tree.namedParent record = .error error ↔ ∃ text, record.parent = some text ∧
      (∀ parent, tree.namedParent record ≠ .ok (some parent)) ∧
      error = .resolution (Path.parse text).unresolved := by
  unfold namedParent
  cases record.parent with
  | none => simp
  | some text =>
      cases found : tree.entryId (Path.parse text) with
      | ok id => simp [found]
      | error cause => simp [found, eq_unresolved_of_entryId found, eq_comm]

namespace Represents

variable (holds : tree.Represents done) (loaded : done <+: document.placedWithin 0)

include holds loaded

/-- The parent found for a record is the record that its text reaches. -/
theorem namedParent_eq_some_iff {record : ClassRecord} {target : EntryId} :
    tree.namedParent record = .ok (some target) ↔ document.Resolves tree.size record target := by
  simp only [namedParent_eq_ok_some_iff, entryId_eq_ok_iff, holds.find?_eq_some_iff loaded,
    ClassRecord.Resolves]
  constructor
  · rintro ⟨text, parentEq, absolute, inRange, ancestor, reached⟩
    exact ⟨text, ancestor, parentEq, absolute, inRange, reached⟩
  · rintro ⟨text, ancestor, parentEq, absolute, inRange, reached⟩
    exact ⟨text, parentEq, absolute, inRange, ancestor, reached⟩

/-- A name is taken by an earlier record within the same record. -/
theorem nameTaken_iff (outerLt : placed.outer < tree.size) :
    tree.nameTaken placed = true ↔ ∃ earlier other, document.Within placed.outer earlier other ∧
      earlier < tree.size ∧ other.name = placed.record.name := by
  rw [nameTaken, Keyed.has_eq_true_iff]
  simp only [holds.mem_children_iff (get?_entryAt outerLt), getElem?_iff_within loaded,
    holds.size_eq]
  constructor
  · rintro ⟨_, index, other, ⟨inList, within⟩, sameName, _⟩
    exact ⟨index + 1, other, within, Nat.succ_lt_succ inList, sameName⟩
  · rintro ⟨earlier, other, within, inRange, sameName⟩
    rcases within.exists_place_eq_succ with ⟨index, rfl⟩
    exact ⟨_, index, other, ⟨Nat.lt_of_succ_lt_succ inRange, within⟩, sameName, rfl⟩

/-- A branch is taken by an earlier record of the same name and the same parent. -/
theorem branchTaken_some_iff {target : EntryId} (targetLt : target < tree.size) :
    tree.branchTaken placed (some target) = true ↔ ∃ earlier other,
      document.preorder[earlier]? = some other ∧ document.Resolves earlier other target ∧
      earlier < tree.size ∧ other.name = placed.record.name := by
  rw [branchTaken, Option.isSome_some, Bool.true_and, Option.getD_some, Keyed.has_eq_true_iff]
  simp only [holds.mem_branches_iff (get?_entryAt targetLt)]
  constructor
  · rintro ⟨_, index, outer, other, listed, resolved, sameName, _⟩
    rcases holds.linked_parent listed with ⟨named, _, known, namedLe, _⟩
    rw [resolved] at known
    cases known
    obtain ⟨text, ancestor, parentEq, absolute, _, reached⟩ :=
      (holds.namedParent_eq_some_iff loaded).mp resolved
    rcases (getElem?_iff_within loaded).mp listed with ⟨inList, within⟩
    rcases within.reaches with ⟨_, _, _, otherReached⟩
    have before : index + 1 < tree.size := by
      rw [holds.size_eq]
      exact Nat.succ_lt_succ inList
    exact ⟨index + 1, other, otherReached.getElem?_preorder,
      ⟨text, ancestor, parentEq, absolute, Nat.lt_succ_of_le (namedLe target rfl), reached⟩,
      before, sameName⟩
  · rintro ⟨earlier, other, listed, ⟨text, ancestor, parentEq, absolute, before, reached⟩,
      inRange, sameName⟩
    rcases ClassRecord.exists_reaches_of_getElem? listed with ⟨names, otherReached⟩
    rcases otherReached.cases_place with ⟨_, rfl, _⟩ | ⟨_, outer, _, _, _, within⟩
    · exact absurd before (Nat.not_lt_zero _)
    · rcases within.exists_place_eq_succ with ⟨index, rfl⟩
      have inList : index < done.length := by
        rw [holds.size_eq] at inRange
        exact Nat.lt_of_succ_lt_succ inRange
      refine ⟨_, index, outer, other, (getElem?_iff_within loaded).mpr ⟨inList, within⟩,
        (holds.namedParent_eq_some_iff loaded).mpr ?_, sameName, rfl⟩
      exact ⟨text, ancestor, parentEq, absolute, targetLt, reached⟩

end Represents

/-! ## Checks and violations at the next place -/

namespace Carries

variable (carries : Carries loader firstClass document tree done)
  (placedEq : document.placedWithin 0 = done ++ placed :: rest)

include carries placedEq

theorem within_size : document.Within placed.outer tree.size placed.record := by
  rw [carries.represents.size_eq]
  exact within_next placedEq

/-- The path of the next class spells the names that reach its record. -/
theorem pathOf_eq {names : List String}
    (reached : document.Reaches names tree.size placed.record) :
    tree.pathOf placed = pathOfNames names := by
  have within := carries.within_size placedEq
  rcases within.reaches with ⟨outerNames, enclosing, outerReached, recordReached⟩
  rcases reached.unique recordReached with ⟨rfl, _⟩
  rw [pathOf, carries.path_eq ⟨_, placedEq.symm⟩ outerReached within.outer_lt, pathOfNames,
    List.foldl_append]
  rfl

theorem exists_reaches_size : ∃ names, document.Reaches names tree.size placed.record ∧
    tree.pathOf placed = pathOfNames names := by
  rcases (carries.within_size placedEq).reaches with ⟨names, _, _, reached⟩
  exact ⟨_, reached, carries.pathOf_eq placedEq reached⟩

theorem violates_siblings_iff :
    document.Violates answer tree.size .siblings error ↔
      tree.nameTaken placed = true ∧ error = .duplicateEntry (tree.pathOf placed) := by
  have within := carries.within_size placedEq
  rcases carries.exists_reaches_size placedEq with ⟨names, reached, pathEq⟩
  rw [ClassRecord.violates_siblings_iff reached within, pathEq,
    carries.represents.nameTaken_iff ⟨_, placedEq.symm⟩ within.outer_lt]

theorem violates_parent_iff :
    document.Violates answer tree.size .parent error ↔
      tree.namedParent placed.record = .error error := by
  rcases carries.exists_reaches_size placedEq with ⟨names, reached, _⟩
  have positive := Nat.zero_lt_of_lt (carries.within_size placedEq).outer_lt
  simp only [ClassRecord.violates_parent_iff positive reached.getElem?_preorder,
    namedParent_eq_error_iff, ne_eq,
    carries.represents.namedParent_eq_some_iff ⟨_, placedEq.symm⟩]

theorem violates_values_iff :
    document.Violates answer tree.size .values error ↔
      placed.record.constants.findSome? (Constant.failure? answer) = some error := by
  rcases carries.exists_reaches_size placedEq with ⟨names, reached, _⟩
  exact ClassRecord.violates_values_iff reached.getElem?_preorder

theorem violates_branch_iff {named : Option EntryId}
    (resolved : tree.namedParent placed.record = .ok named) :
    document.Violates answer tree.size .branch error ↔
      tree.branchTaken placed named = true ∧ error = .duplicateEntry (tree.pathOf placed) := by
  have holds := carries.represents
  have loaded : done <+: document.placedWithin 0 := ⟨_, placedEq.symm⟩
  rcases carries.exists_reaches_size placedEq with ⟨names, reached, pathEq⟩
  rw [ClassRecord.violates_branch_iff reached, pathEq]
  apply and_congr_left
  intro _
  cases named with
  | none =>
      simp only [branchTaken, Option.isSome_none, Bool.false_and, Bool.false_eq_true, iff_false]
      rintro ⟨target, resolves, _⟩
      rw [← holds.namedParent_eq_some_iff loaded, resolved] at resolves
      cases resolves
  | some parent =>
      have parentLt := holds.lt_size_of_namedParent resolved parent rfl
      rw [holds.branchTaken_some_iff loaded parentLt]
      constructor
      · rintro ⟨target, resolves, clash⟩
        rw [← holds.namedParent_eq_some_iff loaded, resolved] at resolves
        cases resolves
        exact clash
      · intro clash
        exact ⟨parent, (holds.namedParent_eq_some_iff loaded).mp resolved, clash⟩

/-- The turn of one record reports a violation at its place of which no condition
comes before, or there is no violation at this place. -/
theorem run_loadRecord_violates (steady : loader.Steady answer valid)
    (validMemory : valid memory) :
    ∃ last, valid last ∧
      ((∃ next, (loadRecord loader firstClass tree placed).run memory = (.ok next, last) ∧
        document.ClearBelow answer tree.size (Check.branch.rank + 1)) ∨
      ∃ error check, (loadRecord loader firstClass tree placed).run memory =
          (.error error, last) ∧ document.Violates answer tree.size check error ∧
        document.ClearBelow answer tree.size check.rank) := by
  have unrooted : document.ClearBelow answer tree.size Check.siblings.rank :=
    .of_pos (Nat.zero_lt_of_lt (carries.within_size placedEq).outer_lt)
  cases free : tree.nameTaken placed with
  | true =>
      exact ⟨memory, validMemory, .inr ⟨_, .siblings, run_loadRecord_of_nameTaken free,
        (carries.violates_siblings_iff placedEq).mpr ⟨free, rfl⟩, unrooted⟩⟩
  | false =>
      have named : document.ClearBelow answer tree.size Check.parent.rank := by
        apply unrooted.pass
        intro error violates
        rw [carries.violates_siblings_iff placedEq, free] at violates
        cases violates.1
      cases resolved : tree.namedParent placed.record with
      | error error =>
          exact ⟨memory, validMemory, .inr ⟨_, .parent, run_loadRecord_of_unresolved free resolved,
            (carries.violates_parent_iff placedEq).mpr resolved, named⟩⟩
      | ok parent =>
          have linked : document.ClearBelow answer tree.size Check.values.rank := by
            apply named.pass
            intro error violates
            rw [carries.violates_parent_iff placedEq, resolved] at violates
            cases violates
          obtain ⟨last, validLast, members⟩ := Definition.run_loadMembers steady
            (bareClass firstClass tree placed parent) placed.record validMemory
          refine ⟨last, validLast, ?_⟩
          cases failure : placed.record.constants.findSome? (Constant.failure? answer) with
          | some error =>
              rw [failure] at members
              exact .inr ⟨_, .values, run_loadRecord_of_unreadable free resolved members,
                (carries.violates_values_iff placedEq).mpr failure, linked⟩
          | none =>
              rw [failure] at members
              rcases members with ⟨definition, members⟩
              have declared : document.ClearBelow answer tree.size Check.branch.rank := by
                apply linked.pass
                intro error violates
                rw [carries.violates_values_iff placedEq, failure] at violates
                cases violates
              cases branch : tree.branchTaken placed parent with
              | true =>
                  exact .inr ⟨_, .branch,
                    run_loadRecord_of_branchTaken free resolved members branch,
                    (carries.violates_branch_iff placedEq resolved).mpr ⟨branch, rfl⟩, declared⟩
              | false =>
                  have unbranched : ∀ error,
                      ¬ document.Violates answer tree.size .branch error := by
                    intro error violates
                    rw [carries.violates_branch_iff placedEq resolved, branch] at violates
                    cases violates.1
                  exact .inl ⟨_, run_loadRecord_of_free free resolved members branch,
                    declared.pass unbranched⟩

end Carries

/-! ## A whole document -/

/-- The tree carries the records so far, and there is no violation among them. -/
structure Progress (loader : ResourceLoader σ) (answer : String → Except ResourceError Resource)
    (valid : σ → Prop) (firstClass : ClassId) (document : ClassRecord)
    (done : List PlacedRecord) (tree : Tree) (memory : σ) : Prop where
  carries : Carries loader firstClass document tree done
  valid_memory : valid memory
  clear : ∀ place check error, place < tree.size →
    ¬ document.Violates answer place check error

namespace Progress

/-- The bare root of an unnamed record whose values can be read. -/
theorem single {definition : Definition} (validLast : valid last) (unnamed : document.name = "")
    (readable : document.constants.findSome? (Constant.failure? answer) = none)
    (members : ((Definition.below firstClass Path.root none).loadMembers loader document).run
      memory = (.ok definition, last)) :
    Progress loader answer valid firstClass document [] (Tree.single definition) last := by
  refine ⟨.single members, validLast, ?_⟩
  intro place check error inRange violates
  obtain rfl : place = 0 := Nat.lt_one_iff.mp inRange
  rcases ClassRecord.violates_zero_iff.mp violates with ⟨_, named, _⟩ | ⟨_, found⟩
  · exact named unnamed
  · rw [readable] at found
    cases found

variable (progress : Progress loader answer valid firstClass document done tree memory)
  (steady : loader.Steady answer valid)
  (placedEq : document.placedWithin 0 = done ++ placed :: rest)

include progress steady placedEq

/-- A record that is loaded has no violation either. -/
theorem advance {next : Tree}
    (turn : (loadRecord loader firstClass tree placed).run memory = (.ok next, last)) :
    Progress loader answer valid firstClass document (done ++ [placed]) next last := by
  obtain ⟨_, validLast, ⟨_, run, clear⟩ | ⟨_, _, run, _⟩⟩ :=
    progress.carries.run_loadRecord_violates placedEq steady progress.valid_memory
  · rw [turn] at run
    cases run
    have carriesNext := progress.carries.of_run_loadRecord (outer_le_length placedEq) turn
    refine ⟨carriesNext, validLast, ?_⟩
    intro place check error inRange
    rw [carriesNext.represents.size_eq, List.length_append, List.length_singleton,
      ← progress.carries.represents.size_eq] at inRange
    rcases Nat.lt_or_eq_of_le (Nat.le_of_lt_succ inRange) with before | rfl
    · exact progress.clear place check error before
    · exact clear.not_violates
  · rw [turn] at run
    cases run

/-- A record that fails has the first violation. -/
theorem firstViolation
    (turn : (loadRecord loader firstClass tree placed).run memory = (.error error, last)) :
    document.FirstViolation answer error := by
  obtain ⟨_, _, ⟨_, run, _⟩ | ⟨_, _, run, violates, clear⟩⟩ :=
    progress.carries.run_loadRecord_violates placedEq steady progress.valid_memory
  · rw [turn] at run
    cases run
  · rw [turn] at run
    cases run
    exact violates.firstViolation progress.clear clear

end Progress

/-- The records after the root are all loaded, or the first violation is reported. -/
theorem Progress.run_records {root : Tree} (steady : loader.Steady answer valid)
    (start : Progress loader answer valid firstClass document [] root memory) :
    (∃ result last, ((document.placedWithin 0).foldlM (loadRecord loader firstClass) root).run
      memory = (.ok result, last) ∧ ClassRecord.Loadable answer document) ∨
    ∃ error last, ((document.placedWithin 0).foldlM (loadRecord loader firstClass) root).run
      memory = (.error error, last) ∧ document.FirstViolation answer error := by
  have advance : ∀ done placed rest tree memory next last,
      document.placedWithin 0 = done ++ placed :: rest →
      Progress loader answer valid firstClass document done tree memory →
      (loadRecord loader firstClass tree placed).run memory = (.ok next, last) →
      Progress loader answer valid firstClass document (done ++ [placed]) next last :=
    fun _ _ _ _ _ _ _ placedEq progress turn => progress.advance steady placedEq turn
  rcases LoadAction.run_foldlM_cases _ start advance with ⟨result, last, run, progress⟩ |
    ⟨done, placed, rest, tree, memory, error, last, placedEq, progress, turn, run⟩
  · left
    refine ⟨result, last, run, ClassRecord.loadable_of_not_violates ?_⟩
    intro place check error violates
    apply progress.clear place check error _ violates
    rw [progress.carries.represents.size_eq, ← document.length_preorder 0]
    exact violates.place_lt
  · right
    exact ⟨error, last, run, progress.firstViolation steady placedEq turn⟩

/-- A document is turned into a tree, or its first violation is reported. -/
theorem run_ofRecord_cases (firstClass : ClassId) (document : ClassRecord)
    (steady : loader.Steady answer valid) (validMemory : valid memory) :
    (∃ result last, (ofRecord loader firstClass document).run memory = (.ok result, last) ∧
      ClassRecord.Loadable answer document) ∨
    ∃ error last, (ofRecord loader firstClass document).run memory = (.error error, last) ∧
      document.FirstViolation answer error := by
  have nothingBefore : ∀ (place : Nat) (check : Check) (error : LoadError), place < 0 →
      ¬ document.Violates answer place check error :=
    fun place _ _ before => absurd before (Nat.not_lt_zero place)
  by_cases unnamed : document.name = ""
  · rcases Definition.run_loadMembers steady (Definition.below firstClass Path.root none)
      document validMemory with ⟨middle, validMiddle, members⟩
    rw [run_ofRecord_of_unnamed unnamed]
    cases failure : document.constants.findSome? (Constant.failure? answer) with
    | some error =>
        rw [failure] at members
        have violates : document.Violates answer 0 .values error :=
          ClassRecord.violates_zero_iff.mpr (.inr ⟨rfl, failure⟩)
        right
        refine ⟨error, middle, LoadAction.run_bind_of_error members _,
          violates.firstViolation nothingBefore ?_⟩
        intro check otherError before otherViolates
        rcases ClassRecord.violates_zero_iff.mp otherViolates with ⟨_, named, _⟩ | ⟨rfl, _⟩
        · exact named unnamed
        · exact Nat.lt_irrefl _ before
    | none =>
        rw [failure] at members
        rcases members with ⟨definition, members⟩
        rw [LoadAction.run_bind_of_ok members]
        exact Progress.run_records steady (.single validMiddle unnamed failure members)
  · right
    refine ⟨_, memory, run_ofRecord_of_named unnamed,
      (ClassRecord.Violates.rootName unnamed).firstViolation nothingBefore ?_⟩
    intro check otherError before
    exact absurd before (Nat.not_lt_zero _)

/-- Loading a document replaces the tree or reports the first violation. -/
theorem loadRecord_cases (world : World) (document : ClassRecord)
    (steady : loader.Steady answer valid) (validMemory : valid memory) :
    (∃ next last, world.loadRecord loader document memory = (.ok (), next, last) ∧
      ClassRecord.Loadable answer document) ∨
    ∃ error last, world.loadRecord loader document memory = (.error error, world, last) ∧
      document.FirstViolation answer error := by
  unfold World.loadRecord World.loaded
  rcases run_ofRecord_cases world.store.nextClass document steady validMemory with
    ⟨result, last, run, loadable⟩ | ⟨error, last, run, first⟩
  · rw [LoadAction.run_bind_of_ok run]
    exact .inl ⟨_, last, rfl, loadable⟩
  · rw [LoadAction.run_bind_of_error run]
    exact .inr ⟨error, last, rfl, first⟩

/-- With a loader whose answers depend only on the path, a document is loaded
exactly when it meets all conditions.  Otherwise the world stays as it was, and the
failure is that of the first violation in the order of the document. -/
theorem loadRecord_accepts (world : World) (document : ClassRecord)
    (steady : loader.Steady answer valid) (validMemory : valid memory) :
    ((∃ next last, world.loadRecord loader document memory = (.ok (), next, last)) ↔
      ClassRecord.Loadable answer document) ∧
    (∀ error, (∃ next last, world.loadRecord loader document memory = (.error error, next, last)) ↔
      document.FirstViolation answer error) ∧
    ∀ error next last, world.loadRecord loader document memory = (.error error, next, last) →
      next = world := by
  rcases loadRecord_cases world document steady validMemory with
    ⟨loadedWorld, loadedLast, run, loadable⟩ | ⟨failure, failedLast, run, first⟩
  · simp only [run]
    constructor
    · constructor
      · intro _
        exact loadable
      · intro _
        exact ⟨_, _, rfl⟩
    · constructor
      · intro error
        constructor
        · rintro ⟨_, _, failed⟩
          cases failed
        · rintro ⟨_, _, violates, _⟩
          exact absurd violates loadable.not_violates
      · intro error next last failed
        cases failed
  · simp only [run]
    constructor
    · constructor
      · rintro ⟨_, _, succeeded⟩
        cases succeeded
      · intro loadable
        rcases first with ⟨_, _, violates, _⟩
        exact absurd violates loadable.not_violates
    · constructor
      · intro error
        constructor
        · rintro ⟨_, _, failed⟩
          cases failed
          exact first
        · intro otherFirst
          rw [first.unique otherFirst]
          exact ⟨_, _, rfl⟩
      · intro error next last failed
        cases failed
        rfl

/-- The sample with its classes the other way round, so that a parent comes too late. -/
def forwardDocument : ClassRecord where
  name := ""
  children := some [ghostRecord, mobRecord]

/-- Of the two orders of the same classes one can be loaded. -/
theorem loadRecord_accepts_crewDocument :
    ClassRecord.Loadable (fileAnswer "res") crewDocument ∧
      forwardDocument.FirstViolation (fileAnswer "res")
        (.resolution (.objectDoesNotExist (Path.parse "/mob/player"))) := by
  have steady := fileLoader_steady "res"
  have faithful := ResourceCache.faithful_empty "res"
  constructor
  · exact (loadRecord_accepts World.start crewDocument steady faithful).1.mp ⟨_, _, rfl⟩
  · exact ((loadRecord_accepts World.start forwardDocument steady faithful).2.1 _).mp ⟨_, _, rfl⟩

end DreamWorld.Tree
