import DreamWorld.Proofs.World.IndexedAccess
import DreamWorld.Proofs.World.ListContents

/-!
# The order in which keys came

A list that starts empty and is only stored to under keys is a table.  Going through its elements
meets every key once, in the order in which the keys were first stored under, and each key is
associated with what was stored under it last.  For in such a list a key is an element exactly if
it is associated, so storing under it a second time does not append it again.
-/

namespace DreamWorld

/-- Values that are the same are keys of the table alike. -/
theorem Value.isKey_congr {first second : Value} (keyEq : first.key = second.key) :
    first.isKey = second.isKey := by
  revert keyEq
  cases first <;> cases second <;> simp [key, isKey]

namespace ListStore

/-- Stores values at indices, one after another.  The first index that is refused ends this. -/
def setAll (list : ListStore) (writes : List (Value × Value)) : Except RuntimeError ListStore :=
  writes.foldlM (fun list write => list.set write.1 write.2) list

/-- The list holds what storing values under keys makes of an empty list: the keys, each where it
occurs first, and for each key the last value. -/
structure Tabulates (list : ListStore) (writes : List (Value × Value)) : Prop where
  values_eq : list.values = (combine {} (writes.map Prod.fst)).values
  associated?_eq : ∀ key : Value, list.associated? key =
    (writes.reverse.find? fun write => key.same write.1).map Prod.snd
  /-- Exactly the elements are associated. -/
  contains_eq : ∀ key, list.contains key = (list.associated? key).isSome

variable {list changed : ListStore} {writes : List (Value × Value)} {index value key : Value}

theorem tabulates_nil : Tabulates {} [] :=
  ⟨rfl, fun _ => rfl, fun _ => rfl⟩

/-- Storing under a key never fails. -/
theorem exists_set_of_isKey (isKey : index.isKey = true) (list : ListStore) (value : Value) :
    ∃ changed, list.set index value = .ok changed := by
  unfold set
  rw [position?_eq_ok_none_iff.mpr isKey]
  exact ⟨_, rfl⟩

/-- After a value has been stored under a key, the key is associated with it, and other keys with
what they were. -/
theorem Stored.associated?_eq (stored : list.Stored index value changed)
    (isKey : index.isKey = true) (key : Value) :
    changed.associated? key = if key.same index = true then some value else list.associated? key := by
  cases stored with
  | element denotes => exact absurd denotes (not_denotes_of_isKey isKey _)
  | known _ _ | new _ _ =>
      split
      · rename_i here
        rw [associated?, Value.same_congr (Value.same_iff.mp here), ← associated?,
          associated?_associate]
      · rename_i elsewhere
        rw [associated?_associate_of_ne (eq_false_of_ne_true elsewhere)]

/-- Storing under a key appends the key, unless it is an element already. -/
theorem Stored.values_eq (stored : list.Stored index value changed) (isKey : index.isKey = true)
    (listed : (list.associated? index).isSome = list.contains index) :
    changed.values = if list.contains index = true then list.values else list.values ++ [index] := by
  cases stored with
  | element denotes => exact absurd denotes (not_denotes_of_isKey isKey _)
  | known _ known =>
      rw [listed, Bool.or_self] at known
      rw [if_pos known]
  | new _ unknown =>
      rw [listed, Bool.or_self] at unknown
      rw [if_neg (Bool.eq_false_iff.mp unknown)]

theorem combine_append_singleton (list : ListStore) (others : List Value) (value : Value) :
    list.combine (others ++ [value]) =
      if (list.combine others).contains value then list.combine others
      else (list.combine others).add value := by
  unfold combine
  rw [List.foldl_append]
  rfl

namespace Tabulates

variable (holds : list.Tabulates writes)

include holds

/-- One more key. -/
theorem stored (stored : list.Stored index value changed) (isKey : index.isKey = true) :
    changed.Tabulates (writes ++ [(index, value)]) := by
  have valuesEq := stored.values_eq isKey (holds.contains_eq index).symm
  have associatedEq := stored.associated?_eq isKey
  have sameContains : (combine {} (writes.map Prod.fst)).contains index = list.contains index := by
    rw [contains, ← holds.values_eq, contains]
  refine ⟨?_, fun key => ?_, fun key => ?_⟩
  · rw [valuesEq, List.map_append, List.map_singleton, combine_append_singleton, sameContains]
    split
    · exact holds.values_eq
    · exact congrArg (· ++ [index]) holds.values_eq
  · rw [associatedEq, List.reverse_append, List.reverse_singleton, List.singleton_append,
      List.find?_cons, holds.associated?_eq]
    cases key.same index <;> rfl
  · rw [associatedEq, contains, valuesEq]
    cases here : key.same index with
    | true =>
        split
        · rename_i present
          rw [contains, ← Value.same_congr (Value.same_iff.mp here)] at present
          exact present
        · simp [here]
    | false =>
        rw [if_neg Bool.false_ne_true, ← holds.contains_eq key]
        split
        · rfl
        · simp [contains, here]

theorem get_of_last {before after : List (Value × Value)}
    (writesEq : writes = before ++ (index, value) :: after)
    (last : ∀ later ∈ after, index.same later.1 = false) (isKey : index.isKey = true)
    (here : key.same index = true) : list.get key = .ok value := by
  have sameKey := Value.same_iff.mp here
  have passed : after.reverse.find? (fun write => index.same write.1) = none := by
    rw [List.find?_eq_none]
    intro later laterMem
    rw [last later (List.mem_reverse.mp laterMem)]
    exact Bool.false_ne_true
  have reflexive : index.same index = true := Value.same_iff.mpr rfl
  rw [get_of_isKey ((Value.isKey_congr sameKey).trans isKey), holds.associated?_eq,
    Value.same_congr sameKey, writesEq, List.reverse_append, List.reverse_cons,
    List.find?_append, List.find?_append, passed, List.find?_singleton, if_pos reflexive]
  rfl

theorem get_of_absent (isKey : key.isKey = true)
    (absent : ∀ write ∈ writes, key.same write.1 = false) : list.get key = .ok .null := by
  have unfound : writes.reverse.find? (fun write => key.same write.1) = none := by
    rw [List.find?_eq_none]
    intro write writeMem
    rw [absent write (List.mem_reverse.mp writeMem)]
    exact Bool.false_ne_true
  rw [get_of_isKey isKey, holds.associated?_eq, unfound]
  rfl

end Tabulates

/-- An empty list that values are stored to under keys tabulates them. -/
theorem exists_tabulates (keys : ∀ write ∈ writes, write.1.isKey = true) :
    ∃ list, setAll {} writes = .ok list ∧ list.Tabulates writes := by
  induction writes using List.reverseRecOn with
  | nil => exact ⟨{}, rfl, tabulates_nil⟩
  | append_singleton writes write ih =>
      have isKey := keys write (List.mem_append_right writes List.mem_cons_self)
      rcases ih fun earlier earlierMem => keys earlier (List.mem_append_left _ earlierMem) with
        ⟨list, run, holds⟩
      rcases exists_set_of_isKey isKey list write.2 with ⟨changed, accepted⟩
      refine ⟨changed, ?_, holds.stored (stored_of_set accepted) isKey⟩
      unfold setAll at run ⊢
      rw [List.foldlM_append, run]
      exact (bind_pure _).trans accepted

/-- Let values be stored under keys in a list that is empty at first.  Then nothing is refused.
The elements are the keys, each once, in the order in which they were first stored under.  Every
key gives the value that was stored under it last, and a key that nothing was stored under gives
null. -/
theorem setAll_keys (writes : List (Value × Value))
    (keys : ∀ write ∈ writes, write.1.isKey = true) :
    ∃ list, setAll {} writes = .ok list ∧
      list.values = (writes.map Prod.fst).eraseDupsBy Value.same ∧
      (∀ before index value after, writes = before ++ (index, value) :: after →
        (∀ later ∈ after, index.same later.1 = false) →
        ∀ key : Value, key.same index = true → list.get key = .ok value) ∧
      ∀ key : Value, key.isKey = true → (∀ write ∈ writes, key.same write.1 = false) →
        list.get key = .ok .null := by
  rcases exists_tabulates keys with ⟨list, run, holds⟩
  refine ⟨list, run, ?_, ?_, fun key => holds.get_of_absent⟩
  · rw [holds.values_eq, combine_eq_addAll]
    simp [addAll, contains]
  · rintro before index value after writesEq last key here
    have isKey := keys (index, value) (writesEq ▸ List.mem_append_right before List.mem_cons_self)
    exact holds.get_of_last writesEq last isKey here

/-- A key that is stored under again keeps its place and gives the new value. -/
theorem setAll_keys_deck :
    let writes : List (Value × Value) := [(.text "ace", .integer 11), (.text "king", .integer 13),
      (.text "ace", .integer 14)]
    (∀ write ∈ writes, write.1.isKey = true) ∧
      ∃ list, setAll {} writes = .ok list ∧ list.values = [.text "ace", .text "king"] ∧
        list.get (.text "ace") = .ok (.integer 14) ∧ list.get (.text "king") = .ok (.integer 13) ∧
        list.get (.text "queen") = .ok .null := by
  intro writes
  have keys : ∀ write ∈ writes, write.1.isKey = true := by decide
  rcases setAll_keys writes keys with ⟨list, run, valuesEq, lasts, others⟩
  exact ⟨keys, list, run, valuesEq.trans (by decide),
    lasts [_, _] _ _ [] rfl (by simp) _ (by decide),
    lasts [_] _ _ [_] rfl (by decide) _ (by decide), others _ rfl (by decide)⟩

end ListStore

end DreamWorld
