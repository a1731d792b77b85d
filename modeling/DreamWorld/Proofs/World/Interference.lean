import DreamWorld.Proofs.World.Assignment
import DreamWorld.Proofs.World.ListKeys

/-!
# Assignments and what is read afterwards

What has been assigned to a location is read from it, but for the length of a list, which
counts the contents.  Locations that share nothing do not interfere: what one of them holds is
the same before and after an assignment to the other, whether the assignment succeeds or not.
-/

namespace DreamWorld

/-! ## Contents of lists -/

namespace ListStore

variable {list changed : ListStore} {index value : Value}

/-- The first entry of a key in a table is the one that is written. -/
theorem associated?_associate (values : List Value) (table : List (Value × Value))
    (key value : Value) : associated? ⟨values, associate key value table⟩ key = some value := by
  unfold associated?
  dsimp only
  induction table with
  | nil =>
      have reflexive : key.same key = true := Value.same_iff.mpr rfl
      rw [associate, List.find?_cons, reflexive]
      rfl
  | cons entry rest ih =>
      rw [associate]
      cases here : key.same entry.1 with
      | true =>
          rw [if_pos rfl, List.find?_cons, here]
          rfl
      | false =>
          rw [if_neg Bool.false_ne_true, List.find?_cons, here]
          exact ih

/-- Whether an index is a key of the table does not depend on the list. -/
theorem position?_eq_ok_none (isKey : list.position? index = .ok none) (other : ListStore) :
    other.position? index = .ok none :=
  position?_eq_ok_none_iff.mpr (position?_eq_ok_none_iff.mp isKey)

/-- What is stored at an index is found there. -/
theorem get_of_set (stored : list.set index value = .ok changed) :
    changed.get index = .ok value := by
  unfold set at stored
  split at stored
  · cases stored
  · rename_i place found
    cases stored
    have inRange := lt_length_of_position? found
    have samePosition : position? { list with values := list.values.set place value } index =
        list.position? index := by
      unfold position? length
      rw [List.length_set]
    rw [get, samePosition, found]
    simp [inRange]
  · rename_i isKey
    cases stored
    rw [get, position?_eq_ok_none isKey]
    dsimp only
    rw [associated?_associate]
    rfl

theorem length_resize (list : ListStore) (length : Nat) : (list.resize length).length = length := by
  unfold resize ListStore.length
  rw [List.length_append, List.length_take, List.length_replicate]
  omega

end ListStore

/-- The length that an integer asks for is the integer itself, or zero if it is negative. -/
theorem Hook.ofInt_requestedLength (length : Int32) :
    Int32.ofInt (requestedLength length) = max length 0 := by
  unfold requestedLength
  by_cases negative : length ≤ 0
  · have maxEq : max length 0 = 0 := if_pos negative
    rw [Int32.le_iff_toInt_le] at negative
    have nothing : length.toInt.toNat = 0 := Int.toNat_of_nonpos negative
    rw [maxEq, nothing]
    rfl
  · have maxEq : max length 0 = length := if_neg negative
    rw [Int32.le_iff_toInt_le, Int.not_le] at negative
    rw [maxEq, Int.toNat_of_nonneg (Int.le_of_lt negative), Int32.ofInt_toInt]

/-- A list of the length that an integer asks for counts as this integer, or as zero. -/
theorem ListStore.count_resize (list : ListStore) (length : Int32) :
    (list.resize (Hook.requestedLength length)).count = max length 0 := by
  have small : (Hook.requestedLength length : Int) ≤ Integer.greatest := by
    have bound := length.toInt_lt
    unfold Hook.requestedLength Integer.greatest
    omega
  have inRange : Integer.least ≤ (Hook.requestedLength length : Int) ∧
      (Hook.requestedLength length : Int) ≤ Integer.greatest :=
    ⟨Int.le_trans (by decide) (Int.natCast_nonneg _), small⟩
  unfold count
  rw [length_resize, Integer.ofInt?, if_pos inRange, Option.getD_some, Hook.ofInt_requestedLength]

/-! ## What objects show of a change -/

namespace Object

variable {store : Store} {object : Object} {type : Path} {name other : String} {value old : Value}

/-- Of the variables, a name shows the one that it names. -/
theorem held_setVars {vars : Keyed Value} (same : vars.find? name = object.vars.find? name) :
    Object.held store { object with vars } type name = object.held store type name := by
  unfold held
  dsimp only
  rw [same]

theorem held_written_of_ne (different : name ≠ other) :
    (object.written name value).held store type other = object.held store type other := by
  apply held_setVars
  rw [Keyed.find?_insert, if_neg different]

/-- A variable that has been put back shows no change. -/
theorem held_written_written (found : object.vars.find? name = some old) (value : Value)
    (other : String) :
    ((object.written name value).written name old).held store type other =
      object.held store type other :=
  held_setVars (Keyed.find?_insert_insert found value other)

/-- Other contents are seen in nothing but the length. -/
theorem held_filled (list : ListStore)
    (unseen : object.deleted = false → object.vars.has name = true →
      store.hook? object.definition.id = some .lists → name ≠ lengthName) :
    (object.filled list).held store type name = object.held store type name := by
  cases gone : object.deleted with
  | true =>
      have stillGone : (object.filled list).deleted = true := gone
      rw [held_of_deleted stillGone, held_of_deleted gone]
  | false =>
      have stillLive : (object.filled list).deleted = false := gone
      cases found : object.vars.find? name with
      | none =>
          have stillAbsent : (object.filled list).vars.find? name = none := found
          rw [held_of_lacks stillLive stillAbsent, held_of_lacks gone found]
          rfl
      | some value =>
          have has := Keyed.has_of_find? found
          have stillFound : (object.filled list).vars.find? name = some value := found
          rw [held_of_plain stillLive stillFound (unseen gone has),
            held_of_plain gone found (unseen gone has)]

/-- A shared variable is seen under the names that stand for it. -/
theorem held_writeGlobal {global : GlobalVariable} (unseen : ∀ otherGlobal,
      object.deleted = false → object.vars.has name = false →
      object.definition.globalVariable? name = some otherGlobal →
      global.cell ≠ otherGlobal.cell) :
    object.held (store.writeGlobal global value) type name = object.held store type name := by
  cases gone : object.deleted with
  | true => rw [held_of_deleted gone, held_of_deleted gone]
  | false =>
      cases absent : object.vars.find? name with
      | none =>
          have lacks := Keyed.has_eq_false_iff.mpr absent
          rw [held_of_lacks gone absent, held_of_lacks gone absent]
          cases shared : object.definition.globalVariable? name with
          | none => rfl
          | some otherGlobal =>
              rw [Option.elim_some, Option.elim_some, Store.readGlobal_writeGlobal,
                if_neg (unseen otherGlobal gone lacks shared).symm]
      | some value =>
          unfold held
          rw [absent]
          rfl

/-- The new value of a variable is read, unless it is that of a length. -/
theorem held_written (live : object.deleted = false)
    (plain : store.hook? object.definition.id = some .lists → name ≠ lengthName) :
    (object.written name value).held store type name = .ok value :=
  held_of_plain live (object.find?_vars_written name value) plain

/-- The new length of a list is read, whatever has been written to the variable. -/
theorem held_written_filled (live : object.deleted = false)
    (hooked : store.hook? object.definition.id = some .lists) (list : ListStore) :
    ((object.written lengthName value).filled list).held store type lengthName =
      .ok (.integer list.count) :=
  held_of_length live (object.find?_vars_written lengthName value) hooked

end Object

/-! ## Shared locations -/

namespace Location

/-- The location is a place in the contents of an object, or their length. -/
inductive Concerns (store : Store) : Location → Nat → Prop
  | element (ref : ObjectRef) (index : Value) : Concerns store (.listIndex ref index) ref.id
  | length {ref : ObjectRef} {name : String} : IsLength store (.variable ref name) →
      Concerns store (.variable ref name) ref.id

/-- Two locations share something: they are one slot of the frame, both are the value to be
returned, they are one variable of one object, they stand for one shared variable, or they
concern the contents of one object. -/
inductive Shares (store : Store) : Location → Location → Prop
  | slot (index : Nat) : Shares store (.localVariable index) (.localVariable index)
  | result : Shares store .returnValue .returnValue
  | name {ref other : ObjectRef} (name : String) : ref.id = other.id →
      Shares store (.variable ref name) (.variable other name)
  | cell {ref other : ObjectRef} {name otherName : String} {global otherGlobal : GlobalVariable} :
      NamesShared store ref name global → NamesShared store other otherName otherGlobal →
      global.cell = otherGlobal.cell →
      Shares store (.variable ref name) (.variable other otherName)
  | contents {location other : Location} {id : Nat} : Concerns store location id →
      Concerns store other id → Shares store location other

variable {frame : Frame} {value : Value} {store after : Store} {location other : Location}
  {outcome : Except RuntimeError Frame} {next : Frame}

/-! ## Reading something else -/

/-- The frame after an assignment; a failed one does not change it. -/
def frameAfter (frame : Frame) : Except RuntimeError Frame → Frame
  | .ok next => next
  | .error _ => frame

theorem held_setLocal {index : Nat} (apart : ¬ Shares store (.localVariable index) other) :
    other.held { frame with locals := frame.locals.set index value } store =
      other.held frame store := by
  cases other with
  | localVariable slot =>
      have different : index ≠ slot := by
        rintro rfl
        exact apart (.slot index)
      rw [held, held, List.getElem?_set_ne different, outOfRange, outOfRange, List.length_set]
  | _ => rfl

theorem held_setResult (apart : ¬ Shares store .returnValue other) :
    other.held { frame with returnValue := value } store = other.held frame store := by
  cases other with
  | returnValue => exact absurd .result apart
  | _ => rfl

theorem held_writeGlobal {ref : ObjectRef} {name : String} {global : GlobalVariable}
    (names : NamesShared store ref name global)
    (apart : ¬ Shares store (.variable ref name) other) :
    other.held frame (store.writeGlobal global value) = other.held frame store := by
  rcases other with ⟨other, otherName⟩ | _ | _ | _ | _
  · have sameObject : (store.writeGlobal global value).object? other = store.object? other := rfl
    rw [held, held, sameObject]
    cases found : store.object? other with
    | none => rfl
    | some object =>
        rw [Option.elim_some, Option.elim_some]
        apply Object.held_writeGlobal
        intro otherGlobal live lacks shared same
        exact apart (.cell names ⟨object, ⟨found, live⟩, lacks, shared⟩ same)
  · rfl
  · rfl
  · rfl
  · rfl

/-- Locations that share nothing with one that is assigned to hold what they held. -/
theorem Assigned.held_eq (assigned : Assigned frame value store location outcome after)
    (apart : ¬ Shares store location other) :
    other.held (frameAfter frame outcome) after = other.held frame store := by
  cases assigned with
  | refused error => rfl
  | localVariable inRange => exact held_setLocal apart
  | returnValue => exact held_setResult apart
  | shared names => exact held_writeGlobal names apart
  | @own ref name object alive has plain =>
      apply held_modifyObject
      · rintro other otherName object rfl found here
        apply Object.held_written_of_ne
        rintro rfl
        exact apart (.name name here.symm)
      · exact fun _ _ _ _ _ _ => rfl
  | @length ref object list length alive has hooked listEq valueEq =>
      have isLength : IsLength store (.variable ref lengthName) := .intro alive has hooked listEq
      apply held_modifyObject
      · rintro other otherName object rfl found here
        have different : lengthName ≠ otherName := by
          rintro rfl
          exact apart (.name lengthName here.symm)
        exact (Object.held_filled _ fun _ _ _ => different.symm).trans
          (Object.held_written_of_ne different)
      · rintro other index object rfl found here
        exact absurd (.contents (.length isLength) (here ▸ .element other index)) apart
  | @rejected ref name object old error alive found =>
      apply held_modifyObject
      -- The write and its undoing are one change, and no name shows it.
      · rintro other otherName known rfl knownFound _
        cases alive.found.symm.trans knownFound
        exact Object.held_written_written found value otherName
      · exact fun _ _ _ _ _ _ => rfl
  | @element ref index list changed listed stored =>
      apply held_modifyObject
      · rintro other otherName object rfl found here
        apply Object.held_filled
        -- Only the length would show the new contents, and it shares them.
        rintro live has hooked rfl
        have listEq : object.list = some list := by
          rw [← listed, Store.list?, found]
          rfl
        have isLength : IsLength store (.variable other lengthName) :=
          .intro ⟨(Store.object?_congr here).trans found, live⟩ has hooked listEq
        exact apart (.contents (.element ref index) (here ▸ .length isLength))
      · rintro other otherIndex object rfl found here
        exact absurd (.contents (.element ref index) (here ▸ .element other otherIndex)) apart

/-! ## Reading what has been assigned -/

/-- What has been assigned to a location is held by it, unless the location is a length. -/
theorem Assigned.held_self (assigned : Assigned frame value store location (.ok next) after)
    (plain : ¬ IsLength store location) : location.held next after = .ok value := by
  cases assigned with
  | localVariable inRange =>
      rw [held, List.getElem?_set_self inRange]
      rfl
  | returnValue => rfl
  | @shared ref name global names =>
      rcases names with ⟨object, alive, lacks, shared⟩
      have found : (store.writeGlobal global value).object? ref = some object := alive.found
      have absent := Keyed.has_eq_false_iff.mp lacks
      rw [held, found, Option.elim_some, Object.held_of_lacks alive.live absent, shared,
        Option.elim_some, Store.readGlobal_writeGlobal, if_pos rfl]
  | @own ref name object alive has notLength =>
      rw [held, Store.object?_modifyObject, if_pos rfl, alive.found]
      exact Object.held_written alive.live notLength
  | length alive has hooked listEq valueEq =>
      exact absurd (.intro alive has hooked listEq) plain
  | @element ref index list changed listed stored =>
      rw [held, Store.list?_filled listed]
      exact ListStore.get_of_set stored

/-- A length that has been assigned to holds the integer that was assigned, or zero if this is
negative. -/
theorem Assigned.held_length (assigned : Assigned frame value store location (.ok next) after)
    (isLength : IsLength store location) :
    ∃ length, value = .integer length ∧
      location.held next after = .ok (.integer (max length 0)) := by
  cases isLength with
  | @intro ref object list alive has hooked listEq =>
      cases assigned with
      | shared names =>
          rcases names with ⟨other, otherAlive, lacks, _⟩
          cases alive.found.symm.trans otherAlive.found
          cases has.symm.trans lacks
      | own otherAlive _ notLength =>
          cases alive.found.symm.trans otherAlive.found
          exact absurd rfl (notLength hooked)
      | @length _ other otherList length otherAlive _ _ otherListEq valueEq =>
          cases alive.found.symm.trans otherAlive.found
          cases listEq.symm.trans otherListEq
          refine ⟨length, valueEq, ?_⟩
          rw [held, Store.object?_modifyObject, if_pos rfl, alive.found, ← list.count_resize length]
          exact Object.held_written_filled alive.live hooked _

theorem Assigned.plainOrLists (assigned : Assigned frame value store location outcome after)
    (plain : store.PlainOrLists) : after.PlainOrLists := by
  cases assigned with
  | refused | localVariable | returnValue | shared => exact plain
  | own | length | rejected | element =>
      apply plain.modifyObject
      intro object
      rfl

/-- In a store whose classes have no hook or that of lists, reading a location after an
assignment to it has succeeded gives the value assigned, but the length of a list is given as
an integer that is not negative.  A proc is never assigned to.  Whatever is assigned, and
whether the assignment succeeds or not, locations that share nothing with the one assigned to
read as before. -/
theorem read_after_assign (plain : store.PlainOrLists) (frame : Frame) (location : Location)
    (value : Value) (run : (location.assign frame value).runOn store = (outcome, after)) :
    (∀ next, outcome = .ok next →
      (¬ location.IsLength store → (location.read next).runOn after = (.ok value, after)) ∧
      (location.IsLength store → ∃ length, value = .integer length ∧
        (location.read next).runOn after = (.ok (.integer (max length 0)), after))) ∧
    (∀ item instance? name, location = .proc item instance? name →
      outcome = .error (.cannotAssignProc name) ∧ after = store) ∧
    ∀ other, ¬ location.Shares store other →
      ((other.read (frameAfter frame outcome)).runOn after).1 =
        ((other.read frame).runOn store).1 := by
  rcases exists_assigned frame value plain location with ⟨_, _, sameRun, assigned⟩
  cases run.symm.trans sameRun
  have stillPlain := assigned.plainOrLists plain
  refine ⟨?_, ?_, ?_⟩
  · rintro next rfl
    constructor
    · intro notLength
      rw [runOn_read next stillPlain, assigned.held_self notLength]
    · intro isLength
      rcases assigned.held_length isLength with ⟨length, valueEq, lengthHeld⟩
      exact ⟨length, valueEq, by rw [runOn_read next stillPlain, lengthHeld]⟩
  · rintro item instance? name rfl
    cases run
    exact ⟨rfl, rfl⟩
  · intro other apart
    rw [runOn_read _ stillPlain, runOn_read frame plain, assigned.held_eq apart]

/-- A store of one list, which has two elements. -/
def pairStore : Store where
  hooks := #[some .lists]
  objects := #[
    { definition := Definition.below 0 Path.listClass none
      vars := [(lengthName, .integer 0)]
      list := some { values := [.null, .text "last"] } }]

/-- A frame of a proc that does nothing, with one local variable. -/
def slotFrame : Frame :=
  .start ⟨⟨⟨0, 0⟩, "idle", [], [], []⟩, []⟩ none 1

/-- The list cannot be made shorter than empty, and the local variable does not notice. -/
theorem read_after_assign_pairStore :
    pairStore.PlainOrLists ∧
      let length : Location := .variable ⟨0, Path.listClass⟩ lengthName
      let after := ((length.assign slotFrame (.integer (-3))).runOn pairStore).2
      length.IsLength pairStore ∧
        (length.assign slotFrame (.integer (-3))).runOn pairStore = (.ok slotFrame, after) ∧
        (length.read slotFrame).runOn after = (.ok (.integer 0), after) ∧
        ¬ length.Shares pairStore (.localVariable 0) ∧
        ((read slotFrame (.localVariable 0)).runOn after).1 = .ok .null := by
  have plain : pairStore.PlainOrLists := by
    rintro ⟨_ | index, type⟩ object found
    · cases found
      exact .inr rfl
    · cases found
  refine ⟨plain, ?_⟩
  intro length after
  have isLength : length.IsLength pairStore := .intro ⟨rfl, rfl⟩ rfl rfl rfl
  have run : (length.assign slotFrame (.integer (-3))).runOn pairStore = (.ok slotFrame, after) :=
    rfl
  have apart (ref : ObjectRef) (name : String) :
      ¬ Shares pairStore (.variable ref name) (.localVariable 0) := by
    intro shares
    cases shares with
    | contents _ concerns => cases concerns
  obtain ⟨own, _, others⟩ := read_after_assign plain slotFrame length (.integer (-3)) run
  obtain ⟨_, valueEq, lengthRead⟩ := (own slotFrame rfl).2 isLength
  cases valueEq
  exact ⟨isLength, run, lengthRead, apart _ _, others (.localVariable 0) (apart _ _)⟩

end Location

end DreamWorld
