import DreamWorld.Keyed
import Mathlib.Data.List.Nodup

/-!
# Laws of tables

A look-up sees the last value written under its name.  Writing under a name that
is not in use adds one entry and moves no other, so a table that is only ever
written to in this way has each name once, and its entries are exactly those that
were written.  Any writing keeps the names in order.
-/

namespace DreamWorld.Keyed

universe u

variable {α : Type u}

/-- A look-up after a write sees the value written, or what was there before. -/
theorem find?_insert (table : Keyed α) (name other : String) (value : α) :
    Keyed.find? (table.insert name value) other =
      if name = other then some value else Keyed.find? table other := by
  induction table with
  | nil =>
      by_cases same : name = other <;> simp [Keyed.insert, Keyed.find?, same]
  | cons entry rest ih =>
      unfold Keyed.find? at ih ⊢
      rw [Keyed.insert]
      split
      · rename_i taken
        subst taken
        by_cases same : entry.1 = other <;> simp [same]
      · rename_i free
        split
        · by_cases same : name = other <;> simp [List.find?_cons, same]
        · by_cases here : entry.1 = other
          · have different : name ≠ other := fun same => free (same.trans here.symm)
            simp [here, different]
          · simpa [List.find?_cons, here] using ih

theorem has_of_find? {table : Keyed α} {name : String} {value : α}
    (found : Keyed.find? table name = some value) : Keyed.has table name = true := by
  rw [Keyed.has, found]
  rfl

theorem has_eq_false_iff {table : Keyed α} {name : String} :
    Keyed.has table name = false ↔ Keyed.find? table name = none := by
  rw [Keyed.has, Option.isSome_eq_false_iff, Option.isNone_iff_eq_none]

theorem has_eq_true_iff (table : Keyed α) (name : String) :
    Keyed.has table name = true ↔ ∃ value, (name, value) ∈ table := by
  simp only [Keyed.has, Keyed.find?, Option.isSome_map, List.find?_isSome, beq_iff_eq]
  constructor
  · rintro ⟨entry, entryMem, rfl⟩
    exact ⟨entry.2, entryMem⟩
  · rintro ⟨value, entryMem⟩
    exact ⟨(name, value), entryMem, rfl⟩

theorem mem_names_iff {table : Keyed α} {name : String} :
    name ∈ table.names ↔ Keyed.has table name = true := by
  simp only [has_eq_true_iff, Keyed.names, List.mem_map, Prod.exists, exists_and_right,
    exists_eq_right]

/-- Among entries with distinct names a look-up finds exactly the entry of its
name. -/
theorem find?_eq_some_iff {table : Keyed α} (distinct : table.names.Nodup)
    (name : String) (value : α) :
    Keyed.find? table name = some value ↔ (name, value) ∈ table := by
  induction table with
  | nil => simp [Keyed.find?]
  | cons entry rest ih =>
      rcases List.nodup_cons.mp distinct with ⟨fresh, distinctRest⟩
      unfold Keyed.find? at ih ⊢
      by_cases here : entry.1 = name
      · subst here
        have absent : (entry.1, value) ∉ rest := fun valueMem =>
          fresh (List.mem_map.mpr ⟨_, valueMem, rfl⟩)
        simp only [List.find?_cons, beq_self_eq_true, Option.map_some, Option.some.injEq,
          List.mem_cons, absent, or_false]
        constructor
        · rintro rfl
          rfl
        · intro entryEq
          exact congrArg Prod.snd entryEq.symm
      · have other : (name, value) ≠ entry := fun entryEq =>
          here (congrArg Prod.fst entryEq).symm
        simpa [List.find?_cons, here, other] using ih distinctRest

/-! ## Writing under a new name -/

/-- Writing under a new name adds one entry. -/
theorem insert_perm {table : Keyed α} {name : String} (fresh : Keyed.has table name = false)
    (value : α) : (table.insert name value).Perm ((name, value) :: table) := by
  induction table with
  | nil => exact .refl _
  | cons entry rest ih =>
      have absent : ∀ found, (name, found) ∉ entry :: rest := fun found foundMem => by
        rw [(has_eq_true_iff (entry :: rest) name).mpr ⟨found, foundMem⟩] at fresh
        contradiction
      have different : name ≠ entry.1 := fun same =>
        absent entry.2 (same ▸ List.mem_cons_self)
      have freshRest : Keyed.has rest name = false := by
        rw [Bool.eq_false_iff, ne_eq, has_eq_true_iff]
        rintro ⟨found, foundMem⟩
        exact absent found (List.mem_cons_of_mem entry foundMem)
      rw [Keyed.insert, if_neg different]
      split
      · exact .refl _
      · exact ((ih freshRest).cons entry).trans (.swap (name, value) entry rest)

theorem mem_insert_iff {table : Keyed α} {name : String} (fresh : Keyed.has table name = false)
    (value : α) (entry : String × α) :
    entry ∈ table.insert name value ↔ entry = (name, value) ∨ entry ∈ table := by
  rw [(insert_perm fresh value).mem_iff, List.mem_cons]

theorem names_insert_nodup {table : Keyed α} {name : String}
    (fresh : Keyed.has table name = false) (value : α) (distinct : table.names.Nodup) :
    (table.insert name value).names.Nodup := by
  have reordered := (insert_perm fresh value).map Prod.fst
  apply reordered.nodup_iff.mpr
  apply List.nodup_cons.mpr
  apply And.intro _ distinct
  intro nameMem
  rcases List.mem_map.mp nameMem with ⟨entry, entryMem, rfl⟩
  have taken := (has_eq_true_iff table entry.1).mpr ⟨entry.2, entryMem⟩
  rw [fresh] at taken
  contradiction

/-! ## The order of names -/

/-- The names of a table stand in strictly ascending order. -/
def Ordered (table : Keyed α) : Prop :=
  table.names.Pairwise (· < ·)

theorem Ordered.nodup {table : Keyed α} (ordered : table.Ordered) : table.names.Nodup := by
  apply List.Pairwise.imp _ ordered
  rintro first _ before rfl
  exact String.lt_irrefl first before

theorem mem_names_insert_iff {table : Keyed α} {name other : String} {value : α} :
    other ∈ (table.insert name value).names ↔ other = name ∨ other ∈ table.names := by
  rw [mem_names_iff, mem_names_iff, Keyed.has, find?_insert]
  by_cases same : name = other
  · simp [same]
  · simp [same, Ne.symm same, Keyed.has]

/-- The names of a table that is written over another one come to those of the other one. -/
theorem mem_names_overlay_iff {lower upper : Keyed α} {name : String} :
    name ∈ (Keyed.overlay lower upper).names ↔ name ∈ lower.names ∨ name ∈ upper.names := by
  induction upper generalizing lower with
  | nil => exact (or_iff_left List.not_mem_nil).symm
  | cons entry rest ih =>
      have written : Keyed.overlay lower (entry :: rest) =
          Keyed.overlay (lower.insert entry.1 entry.2) rest := rfl
      rw [written, ih, mem_names_insert_iff, or_comm (a := name = entry.1), or_assoc]
      exact or_congr_right List.mem_cons.symm

/-- Writing keeps names in order. -/
theorem Ordered.insert {table : Keyed α} (ordered : table.Ordered) (name : String) (value : α) :
    Ordered (Keyed.insert name value table) := by
  induction table with
  | nil => exact List.pairwise_singleton _ _
  | cons entry rest ih =>
      rcases List.pairwise_cons.mp ordered with ⟨above, orderedRest⟩
      rw [Keyed.insert]
      split
      · rename_i same
        exact List.pairwise_cons.mpr ⟨same ▸ above, orderedRest⟩
      · rename_i different
        split
        · rename_i before
          refine List.pairwise_cons.mpr ⟨?_, ordered⟩
          exact List.forall_mem_cons.mpr
            ⟨before, fun other mem => String.lt_trans before (above other mem)⟩
        · rename_i notBefore
          -- Names are compared in full, so one that is neither equal nor before comes after.
          have after : entry.1 < name := by
            rw [← String.not_le]
            exact fun notAfter => different (String.le_antisymm notAfter notBefore)
          refine List.pairwise_cons.mpr ⟨?_, ih orderedRest⟩
          intro other mem
          rcases mem_names_insert_iff.mp mem with rfl | inRest
          · exact after
          · exact above other inRest

theorem Ordered.overlay {lower : Keyed α} (ordered : lower.Ordered) (upper : Keyed α) :
    Ordered (Keyed.overlay lower upper) := by
  induction upper generalizing lower with
  | nil => exact ordered
  | cons entry rest ih => exact ih (ordered.insert entry.1 entry.2)

theorem ordered_nil : Ordered ([] : Keyed α) :=
  List.Pairwise.nil

theorem ordered_ofPairs (pairs : List (String × α)) : Ordered (Keyed.ofPairs pairs) :=
  ordered_nil.overlay pairs

/-- Writing brings no other entry in. -/
theorem eq_or_mem_of_mem_insert {table : Keyed α} {name : String} {value : α}
    {entry : String × α} (mem : entry ∈ Keyed.insert name value table) :
    entry = (name, value) ∨ entry ∈ table := by
  induction table with
  | nil => exact .inl (List.mem_singleton.mp mem)
  | cons first rest ih =>
      unfold Keyed.insert at mem
      split at mem
      · exact (List.mem_cons.mp mem).imp_right (List.mem_cons_of_mem first)
      · split at mem
        · exact List.mem_cons.mp mem
        · rcases List.mem_cons.mp mem with rfl | inRest
          · exact .inr List.mem_cons_self
          · exact (ih inRest).imp_right (List.mem_cons_of_mem first)

theorem mem_or_mem_of_mem_overlay {lower upper : Keyed α} {entry : String × α}
    (mem : entry ∈ Keyed.overlay lower upper) : entry ∈ lower ∨ entry ∈ upper := by
  induction upper generalizing lower with
  | nil => exact .inl mem
  | cons first rest ih =>
      rcases ih mem with written | inRest
      · rcases eq_or_mem_of_mem_insert written with rfl | inLower
        · exact .inr List.mem_cons_self
        · exact .inl inLower
      · exact .inr (List.mem_cons_of_mem first inRest)

/-- The table of a list of pairs holds only these. -/
theorem mem_of_mem_ofPairs {pairs : List (String × α)} {entry : String × α}
    (mem : entry ∈ Keyed.ofPairs pairs) : entry ∈ pairs :=
  (mem_or_mem_of_mem_overlay (mem : entry ∈ Keyed.overlay [] pairs)).resolve_left
    List.not_mem_nil

/-- Writing under a name past all others adds an entry at the end. -/
theorem insert_eq_append {table : Keyed α} {name : String}
    (last : ∀ other ∈ table.names, other < name) (value : α) :
    Keyed.insert name value table = table ++ [(name, value)] := by
  induction table with
  | nil => rfl
  | cons entry rest ih =>
      rcases List.forall_mem_cons.mp last with ⟨after, lastRest⟩
      have different : name ≠ entry.1 := fun same => String.lt_irrefl name (same ▸ after)
      have notBefore : ¬ name < entry.1 := fun before =>
        String.lt_irrefl name (String.lt_trans before after)
      rw [Keyed.insert, if_neg different, if_neg notBefore, ih lastRest]
      rfl

theorem overlay_eq_append {lower upper : Keyed α} (ordered : Ordered (lower ++ upper)) :
    Keyed.overlay lower upper = lower ++ upper := by
  induction upper generalizing lower with
  | nil => exact (List.append_nil lower).symm
  | cons entry rest ih =>
      have last : ∀ other ∈ lower.names, other < entry.1 := by
        unfold Ordered Keyed.names at ordered
        rw [List.map_append, List.pairwise_append] at ordered
        exact fun other mem => ordered.2.2 other mem entry.1 List.mem_cons_self
      have step : Keyed.overlay lower (entry :: rest) =
          Keyed.overlay (Keyed.insert entry.1 entry.2 lower) rest := rfl
      rw [step, insert_eq_append last, ih]
      · simp
      · simpa using ordered

/-- A table in order is the table of its own entries. -/
theorem ofPairs_eq_self {table : Keyed α} (ordered : table.Ordered) :
    Keyed.ofPairs table = table :=
  overlay_eq_append (show Ordered ([] ++ table) from ordered)

/-- A look-up in a table laid over another one sees the upper one first. -/
theorem find?_overlay {upper : Keyed α} (distinct : upper.names.Nodup) (lower : Keyed α)
    (name : String) :
    Keyed.find? (Keyed.overlay lower upper) name =
      (Keyed.find? upper name).or (Keyed.find? lower name) := by
  induction upper generalizing lower with
  | nil => rfl
  | cons entry rest ih =>
      rcases List.nodup_cons.mp distinct with ⟨fresh, distinctRest⟩
      refine (ih distinctRest _).trans ?_
      rw [find?_insert]
      by_cases here : entry.1 = name
      · have absent : Keyed.find? rest name = none := by
          rw [← Option.not_isSome_iff_eq_none]
          exact fun has => fresh (here ▸ mem_names_iff.mpr has)
        rw [if_pos here, absent]
        simp [Keyed.find?, here]
      · rw [if_neg here]
        simp [Keyed.find?, here]

/-- Values that stand under distinct names, each under its own, are listed once. -/
theorem values_nodup {table : Keyed α} (distinct : table.names.Nodup) (nameOf : α → String)
    (named : ∀ entry ∈ table, nameOf entry.2 = entry.1) : (table.map Prod.snd).Nodup := by
  apply (List.Nodup.of_map Prod.fst distinct).map_on
  intro first firstMem second secondMem valueEq
  have nameEq : first.1 = second.1 := by
    rw [← named first firstMem, ← named second secondMem, valueEq]
  exact Prod.ext nameEq valueEq

/-! ## Tables that answer alike -/

/-- Tables in order that answer every look-up alike are equal. -/
theorem Ordered.ext {first second : Keyed α} (firstOrdered : first.Ordered)
    (secondOrdered : second.Ordered)
    (alike : ∀ name, Keyed.find? first name = Keyed.find? second name) : first = second := by
  have sameEntries : ∀ entry, entry ∈ first ↔ entry ∈ second := by
    rintro ⟨name, value⟩
    rw [← find?_eq_some_iff firstOrdered.nodup, ← find?_eq_some_iff secondOrdered.nodup, alike]
  have reordered : first.Perm second :=
    (List.perm_ext_iff_of_nodup (List.Nodup.of_map Prod.fst firstOrdered.nodup)
      (List.Nodup.of_map Prod.fst secondOrdered.nodup)).mpr sameEntries
  apply reordered.eq_of_pairwise _ (List.pairwise_map.mp firstOrdered)
    (List.pairwise_map.mp secondOrdered)
  intro entry other _ _ before after
  exact absurd (String.lt_trans before after) (String.lt_irrefl entry.1)

/-! ## Taking a write back -/

/-- To forget a name forgets also what has just been written under it. -/
theorem erase_insert (table : Keyed α) (name : String) (value : α) :
    Keyed.erase (table.insert name value) name = table.erase name := by
  unfold Keyed.erase
  induction table with
  | nil => simp [Keyed.insert]
  | cons entry rest ih =>
      rw [Keyed.insert]
      split
      · rename_i same
        simp [same]
      · split
        · simp
        · rw [List.filter_cons, List.filter_cons, ih]

theorem erase_eq_self {table : Keyed α} {name : String} (fresh : Keyed.has table name = false) :
    table.erase name = table := by
  apply List.filter_eq_self.mpr
  intro entry entryMem
  rw [Bool.not_eq_true', beq_eq_false_iff_ne]
  rintro rfl
  rw [(has_eq_true_iff table entry.1).mpr ⟨entry.2, entryMem⟩] at fresh
  cases fresh

/-- A look-up after a name has been forgotten sees what was there before, but not that name. -/
theorem find?_erase (table : Keyed α) (name other : String) :
    Keyed.find? (table.erase name) other =
      if name = other then none else Keyed.find? table other := by
  unfold Keyed.find? Keyed.erase
  rw [List.find?_filter]
  by_cases here : name = other
  · have never (entry : String × α) :
        decide ((!(entry.1 == name)) = true ∧ (entry.1 == other) = true) = false := by
      simp [here]
    simp only [never, if_pos here]
    simp
  · have same (entry : String × α) :
        decide ((!(entry.1 == name)) = true ∧ (entry.1 == other) = true) = (entry.1 == other) := by
      by_cases found : entry.1 = other
      · simp [found, Ne.symm here]
      · simp [found]
    simp only [same, if_neg here]

/-- What stood under a name and is written there again is found as before. -/
theorem find?_insert_insert {table : Keyed α} {name : String} {old : α}
    (found : Keyed.find? table name = some old) (value : α) (other : String) :
    Keyed.find? ((table.insert name value).insert name old) other = Keyed.find? table other := by
  rw [find?_insert, find?_insert]
  by_cases here : name = other
  · rw [if_pos here, ← here, found]
  · rw [if_neg here, if_neg here]

end DreamWorld.Keyed
