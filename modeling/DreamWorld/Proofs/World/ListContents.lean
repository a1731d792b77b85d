import DreamWorld.Proofs.World.ListKeys

/-!
# What is left of lists

Adding and removing values, one after another, as lists of elements: removing takes the first
element that is the value, combining adds what is new, each value once, and masking keeps what
is among the values.  An association is dropped exactly if its key was an element and is none
any more.
-/

namespace DreamWorld.ListStore

variable {list left : ListStore} {value key : Value} {others : List Value}

/-- The associations are kept, except for those of keys that were elements and are none any
more. -/
def KeepsKeys (list left : ListStore) : Prop :=
  ∀ key, left.associated? key =
    if list.contains key = true ∧ left.contains key = false then none else list.associated? key

/-- Elements are gone, and nothing else than their associations with them. -/
structure Sheds (list left : ListStore) : Prop where
  contains : ∀ key, left.contains key = true → list.contains key = true
  keepsKeys : list.KeepsKeys left

theorem Sheds.refl (list : ListStore) : list.Sheds list := by
  refine ⟨fun _ => id, fun key => ?_⟩
  rw [if_neg]
  rintro ⟨present, absent⟩
  exact Bool.false_ne_true (absent.symm.trans present)

theorem Sheds.trans {middle : ListStore} (first : list.Sheds middle) (second : middle.Sheds left) :
    list.Sheds left := by
  refine ⟨fun key present => first.contains key (second.contains key present), fun key => ?_⟩
  rw [second.keepsKeys key, first.keepsKeys key]
  cases kept : middle.contains key with
  | true => simp [first.contains key kept]
  | false =>
      have gone : left.contains key = false := by
        rw [← Bool.not_eq_true]
        intro present
        exact Bool.false_ne_true (kept.symm.trans (second.contains key present))
      simp [gone]

/-! ## Removing -/

/-- As long as an element that is the value is left, no association is dropped. -/
theorem associations_remove_of_contains (kept : (list.remove value).contains value = true) :
    (list.remove value).associations = list.associations := by
  rw [contains, values_remove] at kept
  unfold remove
  split
  · exact if_pos kept
  · rfl

theorem sheds_remove (list : ListStore) (value : Value) : list.Sheds (list.remove value) := by
  constructor
  · intro key present
    rcases contains_iff.mp present with ⟨element, elementMem, sameKey⟩
    rw [values_remove] at elementMem
    exact contains_iff.mpr ⟨element, List.mem_of_mem_eraseP elementMem, sameKey⟩
  · intro key
    by_cases sameKey : key.key = value.key
    · rw [contains, contains, associated?, associated?, Value.same_congr sameKey, ← contains,
        ← contains, ← associated?, ← associated?]
      cases kept : (list.remove value).contains value with
      | true => simp [associated?, associations_remove_of_contains kept]
      | false =>
          cases present : list.contains value with
          | true => simp [associated?_remove_self present kept]
          | false => simp [remove, present]
    · rw [associated?_remove_of_ne sameKey, contains_remove_of_ne sameKey]
      simp

theorem values_removeAll (list : ListStore) (others : List Value) :
    (list.removeAll others).values =
      others.foldl (fun values other => values.eraseP other.same) list.values := by
  unfold removeAll
  induction others generalizing list with
  | nil => rfl
  | cons other rest ih => rw [List.foldl_cons, ih, values_remove, List.foldl_cons]

theorem sheds_removeAll (list : ListStore) (others : List Value) :
    list.Sheds (list.removeAll others) := by
  unfold removeAll
  induction others generalizing list with
  | nil => exact .refl list
  | cons other rest ih => exact (list.sheds_remove other).trans (ih _)

/-! ## Masking -/

theorem foldl_eraseP_cons {values : List Value}
    (different : ∀ other ∈ others, other.same value = false) :
    others.foldl (fun values other => values.eraseP other.same) (value :: values) =
      value :: others.foldl (fun values other => values.eraseP other.same) values := by
  induction others generalizing values with
  | nil => rfl
  | cons other rest ih =>
      rcases List.forall_mem_cons.mp different with ⟨otherDiffers, restDiffer⟩
      rw [List.foldl_cons, List.eraseP_cons_of_neg (Bool.eq_false_iff.mp otherDiffers),
        ih restDiffer, List.foldl_cons]

/-- Taking away, one after another, all elements that have a property leaves the others. -/
theorem foldl_eraseP_filter {drops : Value → Bool} (values : List Value)
    (dropsAlike : ∀ first second, first.key = second.key → drops first = drops second) :
    (values.filter drops).foldl (fun values other => values.eraseP other.same) values =
      values.filter fun value => !drops value := by
  induction values with
  | nil => rfl
  | cons value rest ih =>
      cases dropped : drops value with
      | true =>
          have reflexive : value.same value = true := Value.same_iff.mpr rfl
          rw [List.filter_cons_of_pos dropped, List.foldl_cons,
            List.eraseP_cons_of_pos reflexive, ih, List.filter_cons_of_neg (by simp [dropped])]
      | false =>
          have different : ∀ other ∈ rest.filter drops, other.same value = false := by
            intro other otherMem
            rw [← Bool.not_eq_true, Value.same_iff]
            intro sameKey
            have otherDropped := (List.mem_filter.mp otherMem).2
            rw [dropsAlike _ _ sameKey, dropped] at otherDropped
            cases otherDropped
          rw [List.filter_cons_of_neg (Bool.eq_false_iff.mp dropped), foldl_eraseP_cons different,
            ih, List.filter_cons_of_pos (by simp [dropped])]

theorem values_mask (list : ListStore) (others : List Value) :
    (list.mask others).values = list.values.filter fun value => others.any value.same := by
  have alike (first second : Value) (sameKey : first.key = second.key) :
      (!others.any first.same) = !others.any second.same := by
    rw [Value.same_congr sameKey]
  rw [mask, values_removeAll, foldl_eraseP_filter list.values alike]
  simp only [Bool.not_not]

/-! ## Adding -/

theorem keepsKeys_addAll (list : ListStore) (others : List Value) :
    list.KeepsKeys (list.addAll others) := by
  intro key
  rw [if_neg]
  · rfl
  · rintro ⟨present, absent⟩
    rw [contains, addAll, List.any_append, ← contains, present] at absent
    cases absent

/-- Combining adds the values that are no elements, each at its first occurrence. -/
theorem combine_eq_addAll (list : ListStore) (others : List Value) :
    list.combine others =
      list.addAll ((others.filter fun other => !list.contains other).eraseDupsBy Value.same) := by
  unfold combine
  induction others generalizing list with
  | nil => simp [addAll]
  | cons other rest ih =>
      rw [List.foldl_cons, ih]
      cases present : list.contains other with
      | true => simp [present]
      | false =>
          have stillNew (value : Value) : (!(list.add other).contains value) =
              (decide (value.same other = false) && !list.contains value) := by
            rw [contains_add]
            cases value.same other <;> simp
          rw [if_neg Bool.false_ne_true, List.filter_cons_of_pos (by simp [present]),
            List.eraseDupsBy_cons, List.filter_filter]
          simp only [stillNew]
          simp only [addAll, add, List.append_assoc, List.singleton_append]

end DreamWorld.ListStore
