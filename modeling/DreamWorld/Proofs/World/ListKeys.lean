import DreamWorld.Proofs.World.ListIndex
import Mathlib.Data.List.Basic
import Mathlib.Data.List.Induction

/-!
# Associated keys and elements

Storing under a key makes the key an element, and removing elements or cutting a
list drops the associations of keys that are no longer elements.  Storing at a
number does not: when it overwrites the last element that is an associated key,
the key keeps its association although going through the elements no longer meets
it.  This is the only way to strand a key, and a stranded key stays so until it
becomes an element again or the list is resized.
-/

namespace DreamWorld

theorem Value.same_iff {first second : Value} :
    first.same second = true ↔ first.key = second.key :=
  beq_iff_eq

/-- Values with the same key are the same as the same values. -/
theorem Value.same_congr {first second : Value} (keyEq : first.key = second.key) :
    first.same = second.same := by
  funext other
  rw [Value.same, keyEq, Value.same]

namespace ListStore

/-- One change to a list. -/
inductive Edit where
  | set (index value : Value)
  | add (value : Value)
  | remove (value : Value)
  | resize (length : Nat)
  | copy

/-- The list after a change.  A value that cannot be stored changes nothing. -/
def edit (list : ListStore) : Edit → ListStore
  | .set index value =>
      match list.set index value with
      | .ok next => next
      | .error _ => list
  | .add value => list.add value
  | .remove value => list.remove value
  | .resize length => list.resize length
  | .copy => list

/-- The list after several changes, one after another. -/
def editAll (list : ListStore) (edits : List Edit) : ListStore :=
  edits.foldl edit list

/-- Every key that is associated is an element. -/
def KeysListed (list : ListStore) : Prop :=
  ∀ entry ∈ list.associations, list.contains entry.1 = true

/-- A key is associated but no element. -/
def Stranded (list : ListStore) (key : Value) : Prop :=
  (list.associated? key).isSome = true ∧ list.contains key = false

/-- A change overwrites the last element that is an associated key, and not with
that key. -/
inductive Strands (list : ListStore) : Edit → Value → Prop
  | overwrite {index value key element : Value} {place : Nat} :
      list.position? index = .ok (some place) → (list.associated? key).isSome = true →
      list.values[place]? = some element → key.same element = true → key.same value = false →
      (∀ (other : Nat) (found : Value), list.values[other]? = some found →
        key.same found = true → other = place) →
      Strands list (.set index value) key

/-- A change makes a key an element or drops the associations of all keys that are
none. -/
inductive Recovers (list : ListStore) : Edit → Value → Prop
  | overwrite {index value key : Value} {place : Nat} :
      list.position? index = .ok (some place) → key.same value = true →
      Recovers list (.set index value) key
  | add {value key : Value} : key.same value = true → Recovers list (.add value) key
  | resize {length : Nat} {key : Value} : Recovers list (.resize length) key

/-- Among several changes one strands a key, and none after it recovers the key. -/
def Loses (list : ListStore) (edits : List Edit) (key : Value) : Prop :=
  ∃ before change after, edits = before ++ change :: after ∧
    (list.editAll before).Strands change key ∧
    ∀ between later rest, after = between ++ later :: rest →
      ¬ (list.editAll (before ++ change :: between)).Recovers later key

variable {list : ListStore} {index value key : Value}

/-! ## Elements and associations by their keys -/

theorem contains_iff :
    list.contains key = true ↔ ∃ element ∈ list.values, key.key = element.key := by
  simp only [contains, List.any_eq_true, Value.same_iff]

theorem isSome_associated?_iff :
    (list.associated? key).isSome = true ↔ ∃ entry ∈ list.associations, key.key = entry.1.key := by
  simp only [associated?, Option.isSome_map, List.find?_isSome, Value.same_iff]

theorem keysListed_iff : list.KeysListed ↔ ∀ key, ¬ list.Stranded key := by
  constructor
  · rintro listed key ⟨associated, absent⟩
    rcases isSome_associated?_iff.mp associated with ⟨entry, entryMem, sameKey⟩
    have listedHere := listed entry entryMem
    rw [contains, Value.same_congr sameKey.symm] at listedHere
    rw [contains, listedHere] at absent
    cases absent
  · intro none entry entryMem
    by_contra absent
    exact none entry.1
      ⟨isSome_associated?_iff.mpr ⟨entry, entryMem, rfl⟩, eq_false_of_ne_true absent⟩

/-! ## One change -/

theorem exists_same_associate_iff {table : List (Value × Value)} :
    (∃ entry ∈ associate index value table, key.key = entry.1.key) ↔
      key.key = index.key ∨ ∃ entry ∈ table, key.key = entry.1.key := by
  induction table with
  | nil => simp [associate]
  | cons entry rest ih =>
      unfold associate
      split
      · rename_i taken
        rw [Value.same_iff] at taken
        simp [taken]
      · simp only [List.mem_cons, exists_eq_or_imp, ih]
        exact or_left_comm

theorem isSome_associated?_associate {values : List Value} :
    (associated? ⟨values, associate index value list.associations⟩ key).isSome = true ↔
      key.key = index.key ∨ (list.associated? key).isSome = true := by
  rw [isSome_associated?_iff, isSome_associated?_iff]
  exact exists_same_associate_iff

theorem lt_length_of_position? {place : Nat} (found : list.position? index = .ok (some place)) :
    place < list.values.length :=
  (position?_eq_ok_some_iff.mp found).2

theorem contains_eq_false_iff : list.contains key = false ↔
    ∀ (place : Nat) (element : Value), list.values[place]? = some element →
      key.same element = false := by
  simp only [contains, List.any_eq_false, List.mem_iff_getElem?, Bool.not_eq_true,
    forall_exists_index]
  constructor
  · intro absent place element found
    exact absent element place found
  · intro absent element place found
    exact absent place element found

/-- After a value is stored at a place, a key is no element exactly when it is not
that value and was an element at this place at most. -/
theorem contains_set_eq_false_iff {place : Nat} (inRange : place < list.values.length) :
    contains { list with values := list.values.set place value } key = false ↔
      key.same value = false ∧ ∀ (other : Nat) (found : Value), list.values[other]? = some found →
        key.same found = true → other = place := by
  rw [contains_eq_false_iff]
  constructor
  · intro absent
    constructor
    · exact absent place value (List.getElem?_set_self inRange)
    · intro other found foundAt present
      by_contra elsewhere
      have still := absent other found ((List.getElem?_set_ne (Ne.symm elsewhere)).trans foundAt)
      rw [present] at still
      cases still
  · rintro ⟨different, onlyHere⟩ other element elementAt
    dsimp only at elementAt
    rw [List.getElem?_set, if_pos inRange] at elementAt
    split at elementAt
    · cases elementAt
      exact different
    · rename_i elsewhere
      by_contra present
      exact elsewhere (onlyHere other element elementAt (eq_true_of_ne_false present)).symm

/-- Storing at a number strands exactly the key of which it overwrites the last
element. -/
theorem stranded_set_of_place {place : Nat} (found : list.position? index = .ok (some place)) :
    (list.edit (.set index value)).Stranded key ↔
      list.Stranded key ∧ ¬ list.Recovers (.set index value) key ∨
        list.Strands (.set index value) key := by
  have edited : list.edit (.set index value) =
      { list with values := list.values.set place value } := by
    simp only [edit, set, found]
  have inRange := lt_length_of_position? found
  rw [edited, Stranded, contains_set_eq_false_iff inRange]
  constructor
  · rintro ⟨associated, different, onlyHere⟩
    cases before : list.contains key with
    | true =>
        right
        rcases contains_iff.mp before with ⟨element, elementMem, sameKey⟩
        rcases List.mem_iff_getElem?.mp elementMem with ⟨other, elementAt⟩
        have present := Value.same_iff.mpr sameKey
        obtain rfl := onlyHere other element elementAt present
        exact .overwrite found associated elementAt present different onlyHere
    | false =>
        left
        constructor
        · exact ⟨associated, before⟩
        · intro recovers
          cases recovers with
          | overwrite _ present =>
              rw [different] at present
              cases present
  · rintro (⟨⟨associated, absent⟩, lost⟩ | strands)
    · refine ⟨associated, ?_, ?_⟩
      · by_contra present
        exact lost (.overwrite found (eq_true_of_ne_false present))
      · intro other element elementAt present
        rw [contains_eq_false_iff.mp absent other element elementAt] at present
        cases present
    · cases strands with
      | overwrite otherFound associated _ _ different onlyHere =>
          rw [found] at otherFound
          cases otherFound
          exact ⟨associated, different, onlyHere⟩

theorem contains_add : contains (list.add value) key = (list.contains key || key.same value) := by
  simp [contains, add]

/-- Storing under a key keeps that key an element, if it is one, and strands none. -/
theorem stranded_set_of_key (found : list.position? index = .ok none) :
    (list.edit (.set index value)).Stranded key ↔ list.Stranded key := by
  simp only [edit, set, found]
  cases known : (list.associated? index).isSome || list.contains index with
  | true =>
      change (associated? _ key).isSome = true ∧ list.contains key = false ↔ _
      rw [isSome_associated?_associate]
      constructor
      · rintro ⟨sameKey | associated, absent⟩
        · rw [contains, Value.same_congr sameKey] at absent
          rw [contains, absent, Bool.or_false] at known
          rw [Stranded, associated?, contains, Value.same_congr sameKey]
          exact ⟨known, absent⟩
        · exact ⟨associated, absent⟩
      · rintro ⟨associated, absent⟩
        exact ⟨.inr associated, absent⟩
  | false =>
      change (associated? _ key).isSome = true ∧ contains (list.add index) key = false ↔ _
      rw [isSome_associated?_associate, contains_add, Bool.or_eq_false_iff]
      constructor
      · rintro ⟨sameKey | associated, absent, different⟩
        · rw [Value.same_iff.mpr sameKey] at different
          cases different
        · exact ⟨associated, absent⟩
      · rintro ⟨associated, absent⟩
        refine ⟨.inr associated, absent, ?_⟩
        by_contra present
        have sameKey := Value.same_iff.mp (eq_true_of_ne_false present)
        rw [associated?, Value.same_congr sameKey, ← associated?] at associated
        rw [associated, Bool.true_or] at known
        cases known

theorem stranded_add :
    (list.edit (.add value)).Stranded key ↔
      list.Stranded key ∧ ¬ list.Recovers (.add value) key := by
  have recovers : list.Recovers (.add value) key ↔ key.same value = true := by
    constructor
    · rintro ⟨⟩
      assumption
    · exact .add
  change (list.associated? key).isSome = true ∧ contains (list.add value) key = false ↔ _
  rw [contains_add, recovers, Bool.or_eq_false_iff, Bool.not_eq_true, Stranded, and_assoc]

/-- Removing a value keeps all other elements. -/
theorem contains_remove_of_ne (different : key.key ≠ value.key) :
    contains (list.remove value) key = list.contains key := by
  unfold remove
  split
  · rw [Bool.eq_iff_iff, contains_iff, contains_iff]
    constructor
    · rintro ⟨element, elementMem, sameKey⟩
      exact ⟨element, List.mem_of_mem_eraseP elementMem, sameKey⟩
    · rintro ⟨element, elementMem, sameKey⟩
      refine ⟨element, (List.mem_eraseP_of_neg ?_).mpr elementMem, sameKey⟩
      rw [Value.same_iff, ← sameKey]
      exact Ne.symm different
  · rfl

theorem values_remove (list : ListStore) (value : Value) :
    (list.remove value).values = list.values.eraseP value.same := by
  unfold remove
  split
  · rfl
  · rename_i absent
    refine (List.eraseP_of_forall_not fun element elementMem present => ?_).symm
    exact absent (List.any_eq_true.mpr ⟨element, elementMem, present⟩)

/-- Removing a value keeps what other keys are associated with. -/
theorem associated?_remove_of_ne (different : key.key ≠ value.key) :
    (list.remove value).associated? key = list.associated? key := by
  have kept (entry : Value × Value) :
      decide ((!value.same entry.1) = true ∧ key.same entry.1 = true) = key.same entry.1 := by
    cases here : key.same entry.1 with
    | false => simp
    | true =>
        have elsewhere : value.same entry.1 = false := by
          rw [← Bool.not_eq_true, Value.same_iff, ← Value.same_iff.mp here]
          exact different.symm
        simp [elsewhere]
  unfold remove
  split
  · unfold associated?
    dsimp only
    split
    · rfl
    · simp only [List.find?_filter, kept]
  · rfl

/-- A value that is removed loses its association if no such element is left. -/
theorem associated?_remove_self (present : list.contains value = true)
    (gone : (list.remove value).contains value = false) :
    (list.remove value).associated? value = none := by
  rw [contains, values_remove] at gone
  unfold remove associated?
  rw [if_pos present]
  dsimp only
  rw [gone, if_neg Bool.false_ne_true]
  simp [List.find?_filter]

/-- A value that is removed keeps its association only as long as it is an element. -/
theorem not_stranded_remove_of_eq (sameKey : key.key = value.key)
    (present : list.contains value = true) : ¬ (list.remove value).Stranded key := by
  rintro ⟨associated, absent⟩
  rw [contains, Value.same_congr sameKey] at absent
  rw [associated?, Value.same_congr sameKey, ← associated?,
    associated?_remove_self present absent] at associated
  cases associated

theorem stranded_remove : (list.edit (.remove value)).Stranded key ↔ list.Stranded key := by
  change (list.remove value).Stranded key ↔ _
  by_cases sameKey : key.key = value.key
  · cases present : list.contains value with
    | true =>
        apply iff_of_false (not_stranded_remove_of_eq sameKey present)
        rintro ⟨_, absent⟩
        rw [contains, Value.same_congr sameKey, ← contains, present] at absent
        cases absent
    | false =>
        have unchanged : list.remove value = list := by
          rw [remove, present, if_neg Bool.false_ne_true]
        rw [unchanged]
  · rw [Stranded, contains_remove_of_ne sameKey, associated?_remove_of_ne sameKey, Stranded]

/-- Resizing a list leaves no key stranded. -/
theorem not_stranded_resize {length : Nat} : ¬ (list.edit (.resize length)).Stranded key := by
  rintro ⟨associated, absent⟩
  rcases isSome_associated?_iff.mp associated with ⟨entry, entryMem, sameKey⟩
  have listed := (List.mem_filter.mp entryMem).2
  rw [← Value.same_congr sameKey] at listed
  change contains (list.resize length) key = true at listed
  rw [edit, listed] at absent
  cases absent

theorem not_recovers_set (elsewhere : ∀ place, list.position? index ≠ .ok (some place)) :
    ¬ list.Recovers (.set index value) key := by
  intro recovers
  cases recovers with
  | overwrite found _ => exact elsewhere _ found

theorem not_strands_set (elsewhere : ∀ place, list.position? index ≠ .ok (some place)) :
    ¬ list.Strands (.set index value) key := by
  intro strands
  cases strands with
  | overwrite found _ _ _ _ _ => exact elsewhere _ found

/-- A key is stranded after a change exactly when it was before and the change does
not recover it, or when the change strands it. -/
theorem stranded_edit_iff (change : Edit) :
    (list.edit change).Stranded key ↔
      list.Stranded key ∧ ¬ list.Recovers change key ∨ list.Strands change key := by
  cases change with
  | set index value =>
      rcases found : list.position? index with error | _ | place
      · have elsewhere : ∀ place, list.position? index ≠ .ok (some place) := by simp [found]
        have unchanged : list.edit (.set index value) = list := by
          simp only [edit, set, found]
        simp [unchanged, not_recovers_set elsewhere, not_strands_set elsewhere]
      · have elsewhere : ∀ place, list.position? index ≠ .ok (some place) := by simp [found]
        rw [stranded_set_of_key found]
        simp [not_recovers_set elsewhere, not_strands_set elsewhere]
      · exact stranded_set_of_place found
  | add value =>
      have noStrand : ¬ list.Strands (.add value) key := by
        intro strands
        cases strands
      simp [stranded_add, noStrand]
  | remove value =>
      have noStrand : ¬ list.Strands (.remove value) key := by
        intro strands
        cases strands
      have noRecovery : ¬ list.Recovers (.remove value) key := by
        intro recovers
        cases recovers
      simp [stranded_remove, noStrand, noRecovery]
  | resize length =>
      have noStrand : ¬ list.Strands (.resize length) key := by
        intro strands
        cases strands
      simp [not_stranded_resize, noStrand, Recovers.resize]
  | copy =>
      have noStrand : ¬ list.Strands .copy key := by
        intro strands
        cases strands
      have noRecovery : ¬ list.Recovers .copy key := by
        intro recovers
        cases recovers
      simp [edit, noStrand, noRecovery]

/-! ## Several changes -/

theorem editAll_append_singleton (edits : List Edit) (change : Edit) :
    list.editAll (edits ++ [change]) = (list.editAll edits).edit change := by
  rw [editAll, editAll, List.foldl_append]
  rfl

/-- One more change loses a key exactly when it strands the key or does not recover
one that was lost. -/
theorem loses_append_singleton_iff {edits : List Edit} {change : Edit} :
    list.Loses (edits ++ [change]) key ↔
      list.Loses edits key ∧ ¬ (list.editAll edits).Recovers change key ∨
        (list.editAll edits).Strands change key := by
  constructor
  · rintro ⟨before, first, after, editsEq, strands, kept⟩
    rcases List.eq_nil_or_concat' after with rfl | ⟨between, last, rfl⟩
    · rcases List.append_inj' editsEq rfl with ⟨rfl, lastEq⟩
      cases lastEq
      exact .inr strands
    · rw [← List.cons_append, ← List.append_assoc] at editsEq
      rcases List.append_inj' editsEq rfl with ⟨rfl, lastEq⟩
      cases lastEq
      refine .inl ⟨⟨before, first, between, rfl, strands, ?_⟩, kept between change [] rfl⟩
      rintro front later rest rfl
      exact kept front later (rest ++ [change]) (by simp)
  · rintro (⟨⟨before, first, after, rfl, strands, kept⟩, unrecovered⟩ | strands)
    · refine ⟨before, first, after ++ [change], by simp, strands, ?_⟩
      intro between later rest afterEq
      rcases List.eq_nil_or_concat' rest with rfl | ⟨front, last, rfl⟩
      · rcases List.append_inj' afterEq rfl with ⟨rfl, lastEq⟩
        cases lastEq
        exact unrecovered
      · rw [← List.cons_append, ← List.append_assoc] at afterEq
        rcases List.append_inj' afterEq rfl with ⟨rfl, _⟩
        exact kept between later front rfl
    · refine ⟨edits, change, [], rfl, strands, ?_⟩
      intro between later rest restEq
      exact absurd restEq.symm (by simp)

/-- From a list without associations, the stranded keys are those that were lost. -/
theorem stranded_editAll_iff (values : List Value) (edits : List Edit) :
    (editAll { values } edits).Stranded key ↔ Loses { values } edits key := by
  induction edits using List.reverseRecOn with
  | nil =>
      apply iff_of_false
      · rintro ⟨associated, _⟩
        cases associated
      · rintro ⟨before, change, after, editsEq, _⟩
        simp at editsEq
  | append_singleton edits change ih =>
      rw [editAll_append_singleton, stranded_edit_iff, loses_append_singleton_iff, ih]

/-- Starting from any values, the associated keys are all elements exactly when no
change has overwritten the last element that was an associated key without the key
having been recovered later. -/
theorem keysListed_editAll_iff (values : List Value) (edits : List Edit) :
    (editAll { values } edits).KeysListed ↔ ∀ key, ¬ Loses { values } edits key := by
  simp only [keysListed_iff, stranded_editAll_iff]

/-- Storing at the first place after storing under a key leaves the key associated
but no element. -/
theorem not_forall_keysListed :
    ¬ ∀ (values : List Value) (edits : List Edit), (editAll { values } edits).KeysListed := by
  intro always
  have listed := always [] [.set (.text "a") (.integer 1), .set (.integer 1) (.integer 5)]
  have absent := listed (.text "a", .integer 1) (by decide)
  revert absent
  decide

end ListStore

end DreamWorld
