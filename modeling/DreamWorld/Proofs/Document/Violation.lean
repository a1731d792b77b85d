import DreamWorld.Proofs.Document.Preorder
import DreamWorld.Proofs.Tree.Members
import Mathlib.Data.List.Nodup

/-!
# What a document can violate

A document can be loaded if its outermost record has no name, all constants can be
read, records beside each other have different names, each named parent is an
earlier record, and records of one name name different parents.  A violation is a
place of the document together with the condition that the record at this place
breaks, and it determines the failure that is to be reported.  A document has no
violation exactly when it can be loaded, and of several violations the first one
is that of the smallest place, with the conditions on one record in a fixed order.
-/

namespace DreamWorld

/-- What is wrong with a path that leads nowhere. -/
def Path.unresolved (path : Path) : RuntimeError :=
  if path.isAbsolute then .objectDoesNotExist path else .pathNotAbsolute path

namespace Document

/-- The conditions that the records of a document are checked for. -/
inductive Check where
  | rootName
  | siblings
  | parent
  | values
  | branch

/-- The order in which the record at one place is checked. -/
def Check.rank : Check → Nat
  | rootName => 0
  | siblings => 1
  | parent => 2
  | values => 3
  | branch => 4

theorem Check.rank_injective {first second : Check} (same : first.rank = second.rank) :
    first = second := by
  cases first <;> cases second <;> first | rfl | cases same

namespace ClassRecord

/-- The parent text of a record is an absolute path, and its elements reach a record
before the given place, namely at the place `target`. -/
def Resolves (document : ClassRecord) (place : Nat) (record : ClassRecord) (target : Nat) : Prop :=
  ∃ text ancestor, record.parent = some text ∧ (Path.parse text).isAbsolute = true ∧
    target < place ∧ document.Reaches (Path.parse text).elements target ancestor

/-- The path that names spell from the root. -/
def pathOfNames (names : List String) : Path :=
  names.foldl Path.resolve Path.root

/-- The record at a place breaks a condition, which is to be reported as a failure. -/
inductive Violates (answer : String → Except ResourceError Resource) (document : ClassRecord) :
    Nat → Check → LoadError → Prop
  | rootName : document.name ≠ "" →
      Violates answer document 0 .rootName (.invalidRootName document.name)
  | siblings {names : List String} {outer earlier place : Nat} {record other : ClassRecord} :
      document.Reaches names place record → document.Within outer place record →
      document.Within outer earlier other → earlier < place → other.name = record.name →
      Violates answer document place .siblings (.duplicateEntry (pathOfNames names))
  | parent {place : Nat} {record : ClassRecord} {text : String} :
      0 < place → document.preorder[place]? = some record → record.parent = some text →
      (∀ target, ¬ document.Resolves place record target) →
      Violates answer document place .parent (.resolution (Path.parse text).unresolved)
  | values {place : Nat} {record : ClassRecord} {error : LoadError} :
      document.preorder[place]? = some record →
      record.constants.findSome? (Constant.failure? answer) = some error →
      Violates answer document place .values error
  | branch {names : List String} {earlier place target : Nat} {record other : ClassRecord} :
      document.Reaches names place record → document.preorder[earlier]? = some other →
      document.Resolves place record target → document.Resolves earlier other target →
      earlier < place → other.name = record.name →
      Violates answer document place .branch (.duplicateEntry (pathOfNames names))

/-- A violation of the smallest place and, at this place, of the first condition. -/
def FirstViolation (answer : String → Except ResourceError Resource) (document : ClassRecord)
    (error : LoadError) : Prop :=
  ∃ place check, document.Violates answer place check error ∧
    ∀ otherPlace otherCheck otherError,
      document.Violates answer otherPlace otherCheck otherError →
      place < otherPlace ∨ place = otherPlace ∧ check.rank ≤ otherCheck.rank

/-- A document that meets all conditions. -/
structure Loadable (answer : String → Except ResourceError Resource) (document : ClassRecord) :
    Prop where
  root_unnamed : document.name = ""
  values_decode : ∀ record ∈ document.preorder, ∀ value ∈ record.constants,
    ∃ decoded, Constant.decoded answer value = .ok decoded
  siblings_nodup : ∀ record ∈ document.preorder, (record.inner.map ClassRecord.name).Nodup
  parents_resolve : ∀ place record, 0 < place → document.preorder[place]? = some record →
    record.parent.isSome = true → ∃ target, document.Resolves place record target
  branches_distinct : ∀ first second target record other, first < second →
    document.preorder[first]? = some record → document.preorder[second]? = some other →
    document.Resolves first record target → document.Resolves second other target →
    record.name ≠ other.name

/-- At a place no condition of a smaller rank is violated. -/
def ClearBelow (answer : String → Except ResourceError Resource) (document : ClassRecord)
    (place rank : Nat) : Prop :=
  ∀ check error, check.rank < rank → ¬ document.Violates answer place check error

variable {answer : String → Except ResourceError Resource} {document record other : ClassRecord}
  {names : List String} {outer earlier place : Nat} {check : Check} {error : LoadError}

/-! ## One place, one condition, one failure -/

theorem Violates.place_lt (violates : document.Violates answer place check error) :
    place < document.preorder.length := by
  cases violates with
  | rootName _ =>
      rw [preorder_eq]
      exact Nat.succ_pos _
  | siblings reached _ _ _ _ | branch reached _ _ _ _ _ =>
      exact (List.getElem?_eq_some_iff.mp reached.getElem?_preorder).1
  | parent _ listed _ _ | values listed _ => exact (List.getElem?_eq_some_iff.mp listed).1

theorem violates_siblings_iff (reached : document.Reaches names place record)
    (within : document.Within outer place record) :
    document.Violates answer place .siblings error ↔
      (∃ earlier other, document.Within outer earlier other ∧ earlier < place ∧
        other.name = record.name) ∧ error = .duplicateEntry (pathOfNames names) := by
  constructor
  · intro violates
    cases violates with
    | siblings otherReached otherWithin earlierWithin before sameName =>
        rcases reached.unique otherReached with ⟨rfl, rfl⟩
        rcases within.unique otherWithin with ⟨rfl, _⟩
        exact ⟨⟨_, _, earlierWithin, before, sameName⟩, rfl⟩
  · rintro ⟨⟨earlier, other, earlierWithin, before, sameName⟩, rfl⟩
    exact .siblings reached within earlierWithin before sameName

theorem violates_parent_iff (positive : 0 < place)
    (listed : document.preorder[place]? = some record) :
    document.Violates answer place .parent error ↔ ∃ text, record.parent = some text ∧
      (∀ target, ¬ document.Resolves place record target) ∧
      error = .resolution (Path.parse text).unresolved := by
  constructor
  · intro violates
    cases violates with
    | parent _ otherListed parentEq missing =>
        rw [listed] at otherListed
        cases otherListed
        exact ⟨_, parentEq, missing, rfl⟩
  · rintro ⟨text, parentEq, missing, rfl⟩
    exact .parent positive listed parentEq missing

theorem violates_values_iff (listed : document.preorder[place]? = some record) :
    document.Violates answer place .values error ↔
      record.constants.findSome? (Constant.failure? answer) = some error := by
  constructor
  · intro violates
    cases violates with
    | values otherListed found =>
        rw [listed] at otherListed
        cases otherListed
        exact found
  · exact .values listed

theorem violates_branch_iff (reached : document.Reaches names place record) :
    document.Violates answer place .branch error ↔
      (∃ target, document.Resolves place record target ∧ ∃ earlier other,
        document.preorder[earlier]? = some other ∧ document.Resolves earlier other target ∧
        earlier < place ∧ other.name = record.name) ∧
      error = .duplicateEntry (pathOfNames names) := by
  constructor
  · intro violates
    cases violates with
    | branch otherReached earlierListed resolves earlierResolves before sameName =>
        rcases reached.unique otherReached with ⟨rfl, rfl⟩
        exact ⟨⟨_, resolves, _, _, earlierListed, earlierResolves, before, sameName⟩, rfl⟩
  · rintro ⟨⟨_, resolves, _, _, earlierListed, earlierResolves, before, sameName⟩, rfl⟩
    exact .branch reached earlierListed resolves earlierResolves before sameName

/-- At the outermost place only the name and the values are checked. -/
theorem violates_zero_iff :
    document.Violates answer 0 check error ↔
      check = .rootName ∧ document.name ≠ "" ∧ error = .invalidRootName document.name ∨
      check = .values ∧
        document.constants.findSome? (Constant.failure? answer) = some error := by
  constructor
  · intro violates
    cases violates with
    | rootName named => exact .inl ⟨rfl, named, rfl⟩
    | siblings _ _ _ before _ | branch _ _ _ _ before _ => exact absurd before (Nat.not_lt_zero _)
    | parent positive _ _ _ => exact absurd positive (Nat.lt_irrefl 0)
    | values listed found =>
        rw [Reaches.outermost.getElem?_preorder] at listed
        cases listed
        exact .inr ⟨rfl, found⟩
  · rintro (⟨rfl, named, rfl⟩ | ⟨rfl, found⟩)
    · exact .rootName named
    · exact .values Reaches.outermost.getElem?_preorder found

/-- A violation determines the failure to report. -/
theorem Violates.unique {otherError : LoadError}
    (first : document.Violates answer place check error)
    (second : document.Violates answer place check otherError) : error = otherError := by
  cases first with
  | rootName _ =>
      cases second with
      | rootName _ => rfl
  | siblings reached _ _ _ _ =>
      cases second with
      | siblings otherReached _ _ _ _ => rw [(reached.unique otherReached).1]
  | parent _ listed parentEq _ =>
      cases second with
      | parent _ otherListed otherEq _ =>
          rw [listed] at otherListed
          cases otherListed
          rw [parentEq] at otherEq
          cases otherEq
          rfl
  | values listed found =>
      cases second with
      | values otherListed otherFound =>
          rw [listed] at otherListed
          cases otherListed
          rw [found] at otherFound
          exact Option.some.inj otherFound
  | branch reached _ _ _ _ _ =>
      cases second with
      | branch otherReached _ _ _ _ _ => rw [(reached.unique otherReached).1]

/-- A document has at most one failure to report first. -/
theorem FirstViolation.unique {otherError : LoadError}
    (first : document.FirstViolation answer error)
    (second : document.FirstViolation answer otherError) : error = otherError := by
  rcases first with ⟨place, check, violates, least⟩
  rcases second with ⟨otherPlace, otherCheck, otherViolates, otherLeast⟩
  rcases least _ _ _ otherViolates with before | ⟨rfl, checkLe⟩
  · rcases otherLeast _ _ _ violates with after | ⟨rfl, _⟩
    · exact absurd before (Nat.lt_asymm after)
    · exact absurd before (Nat.lt_irrefl _)
  · rcases otherLeast _ _ _ violates with after | ⟨_, otherLe⟩
    · exact absurd after (Nat.lt_irrefl _)
    · obtain rfl := Check.rank_injective (Nat.le_antisymm checkLe otherLe)
      exact violates.unique otherViolates

/-! ## One condition after the other -/

/-- Past the check of the outermost name, which only the outermost record needs. -/
theorem ClearBelow.of_pos (positive : 0 < place) :
    document.ClearBelow answer place Check.siblings.rank := by
  intro check error before violates
  cases violates with
  | rootName _ => exact absurd positive (Nat.lt_irrefl 0)
  | siblings _ _ _ _ _ | parent _ _ _ _ | values _ _ | branch _ _ _ _ _ _ =>
      exact absurd before (by decide)

/-- A record that passes one more check. -/
theorem ClearBelow.pass (clear : document.ClearBelow answer place check.rank)
    (passes : ∀ error, ¬ document.Violates answer place check error) :
    document.ClearBelow answer place (check.rank + 1) := by
  intro other error before
  rcases Nat.lt_or_eq_of_le (Nat.le_of_lt_succ before) with earlier | same
  · exact clear other error earlier
  · rw [Check.rank_injective same]
    exact passes error

/-- When all conditions before one are met, no violation comes before it. -/
theorem ClearBelow.rank_le {other : Check} {otherError : LoadError}
    (clear : document.ClearBelow answer place check.rank)
    (violates : document.Violates answer place other otherError) : check.rank ≤ other.rank := by
  by_contra before
  exact clear other otherError (Nat.lt_of_not_le before) violates

/-- A violation with nothing before it is the first one. -/
theorem Violates.firstViolation (violates : document.Violates answer place check error)
    (before : ∀ otherPlace otherCheck otherError, otherPlace < place →
      ¬ document.Violates answer otherPlace otherCheck otherError)
    (clear : document.ClearBelow answer place check.rank) :
    document.FirstViolation answer error := by
  refine ⟨place, check, violates, ?_⟩
  intro otherPlace otherCheck otherError otherViolates
  rcases Nat.lt_trichotomy place otherPlace with after | rfl | earlier
  · exact .inl after
  · exact .inr ⟨rfl, clear.rank_le otherViolates⟩
  · exact absurd otherViolates (before _ _ _ earlier)

/-- A record that passes all checks violates nothing. -/
theorem ClearBelow.not_violates (clear : document.ClearBelow answer place (Check.branch.rank + 1)) :
    ¬ document.Violates answer place check error := by
  have last : check.rank < Check.branch.rank + 1 := by cases check <;> decide
  exact clear check error last

/-! ## Documents without violations -/

/-- Two different records of one name stand beside each other among records whose
names are not all different. -/
theorem exists_same_name {records : List ClassRecord}
    (repeated : ¬ (records.map ClassRecord.name).Nodup) :
    ∃ before between after first second,
      records = before ++ first :: between ++ second :: after ∧ first.name = second.name := by
  induction records with
  | nil => exact absurd List.nodup_nil repeated
  | cons head rest ih =>
      by_cases fresh : head.name ∈ rest.map ClassRecord.name
      · rcases List.mem_map.mp fresh with ⟨second, secondMem, sameName⟩
        rcases List.append_of_mem secondMem with ⟨between, after, rfl⟩
        exact ⟨[], between, after, head, second, rfl, sameName.symm⟩
      · have repeatedRest : ¬ (rest.map ClassRecord.name).Nodup := by
          intro distinct
          exact repeated (List.nodup_cons.mpr ⟨fresh, distinct⟩)
        rcases ih repeatedRest with ⟨before, between, after, first, second, rfl, sameName⟩
        exact ⟨head :: before, between, after, first, second, rfl, sameName⟩

/-- Among records of different names one name stands at one position only. -/
theorem before_eq_of_nodup {before after otherBefore otherAfter : List ClassRecord}
    (recordsEq : before ++ record :: after = otherBefore ++ other :: otherAfter)
    (sameName : other.name = record.name)
    (distinct : ((before ++ record :: after).map ClassRecord.name).Nodup) :
    otherBefore = before := by
  have namesEq := congrArg (List.map ClassRecord.name) recordsEq
  simp only [List.map_append, List.map_cons, sameName] at namesEq distinct
  rw [List.nodup_middle, List.nodup_cons, List.mem_append, not_or] at distinct
  have beforeNames :=
    ((List.append_cons_inj_of_notMem distinct.1.1 distinct.1.2).mp namesEq).1
  have sameLength := congrArg List.length beforeNames
  rw [List.length_map, List.length_map] at sameLength
  exact (List.append_inj recordsEq sameLength).1.symm

/-- Records of one name directly within one record have the same place. -/
theorem Within.place_eq (first : document.Within outer place record)
    (second : document.Within outer earlier other) (sameName : other.name = record.name)
    (distinct : ∀ enclosing ∈ document.preorder,
      (enclosing.inner.map ClassRecord.name).Nodup) : earlier = place := by
  rcases first with ⟨names, enclosing, before, after, reached, innerEq, rfl⟩
  rcases second with ⟨_, _, otherBefore, otherAfter, otherReached, otherEq, rfl⟩
  rcases reached.unique otherReached with ⟨rfl, rfl⟩
  have distinctHere := distinct enclosing (List.mem_of_getElem? reached.getElem?_preorder)
  rw [innerEq] at distinctHere otherEq
  rw [before_eq_of_nodup otherEq sameName distinctHere]

/-- A document that can be loaded breaks no condition. -/
theorem Loadable.not_violates (loadable : Loadable answer document) :
    ¬ document.Violates answer place check error := by
  intro violates
  cases violates with
  | rootName named => exact named loadable.root_unnamed
  | siblings _ within earlierWithin before sameName =>
      have samePlace := within.place_eq earlierWithin sameName loadable.siblings_nodup
      exact absurd before (samePlace ▸ Nat.lt_irrefl _)
  | parent positive listed parentEq missing =>
      have isNamed := Option.isSome_of_eq_some parentEq
      rcases loadable.parents_resolve _ _ positive listed isNamed with ⟨target, resolves⟩
      exact missing target resolves
  | values listed found =>
      rcases List.exists_of_findSome?_eq_some found with ⟨value, valueMem, failed⟩
      obtain ⟨decoded, reads⟩ :=
        loadable.values_decode _ (List.mem_of_getElem? listed) value valueMem
      rw [Constant.failure?_eq_some_iff, reads] at failed
      cases failed
  | branch reached listed resolves otherResolves before sameName =>
      exact loadable.branches_distinct _ _ _ _ _ before listed reached.getElem?_preorder
        otherResolves resolves sameName

/-- A document that breaks no condition can be loaded. -/
theorem loadable_of_not_violates
    (clean : ∀ place check error, ¬ document.Violates answer place check error) :
    Loadable answer document := by
  constructor
  case root_unnamed =>
    by_contra named
    exact clean _ _ _ (.rootName named)
  case values_decode =>
    intro record recordMem value valueMem
    rcases List.mem_iff_getElem?.mp recordMem with ⟨place, listed⟩
    rw [← Constant.failure?_eq_none_iff]
    cases failed : record.constants.findSome? (Constant.failure? answer) with
    | none => exact List.findSome?_eq_none_iff.mp failed value valueMem
    | some error => exact absurd (.values listed failed) (clean _ _ _)
  case siblings_nodup =>
    intro enclosing enclosingMem
    rcases List.mem_iff_getElem?.mp enclosingMem with ⟨place, listed⟩
    rcases exists_reaches_of_getElem? listed with ⟨names, reached⟩
    by_contra repeated
    obtain ⟨before, between, after, first, second, innerEq, sameName⟩ :=
      exists_same_name repeated
    have firstEq : enclosing.inner = before ++ first :: (between ++ second :: after) := by
      rw [innerEq, List.append_assoc, List.cons_append]
    have firstWithin : document.Within place _ first :=
      ⟨names, enclosing, _, _, reached, firstEq, rfl⟩
    have secondWithin : document.Within place _ second :=
      ⟨names, enclosing, _, _, reached, innerEq, rfl⟩
    have ordered : place + 1 + (preorderAll before).length <
        place + 1 + (preorderAll (before ++ first :: between)).length := by
      have nonempty := first.length_preorder 0
      simp only [preorderAll_append, preorderAll_cons, List.length_append]
      omega
    exact clean _ _ _
      (.siblings (.within reached innerEq) secondWithin firstWithin ordered sameName)
  case parents_resolve =>
    intro place record positive listed isNamed
    rcases Option.isSome_iff_exists.mp isNamed with ⟨text, parentEq⟩
    by_contra missing
    exact clean _ _ _ (.parent positive listed parentEq (not_exists.mp missing))
  case branches_distinct =>
    intro first second target record other before listed otherListed resolves otherResolves
      sameName
    rcases exists_reaches_of_getElem? otherListed with ⟨names, reached⟩
    exact clean _ _ _ (.branch reached listed otherResolves resolves before sameName)

end ClassRecord

end Document

end DreamWorld
