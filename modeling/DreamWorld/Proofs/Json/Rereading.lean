import DreamWorld.Proofs.Json.Compact
import DreamWorld.Proofs.Json.Reading
import DreamWorld.Proofs.Keyed

/-!
# Reading what was written

A reader and a writer fit together if what the reader has read from a sound value is read
again from what the writer makes of it.  Readers of free values fit with writing the value
as it is: objects are in the order of their keys already, and no key of them is the reserved
one.
-/

namespace DreamWorld.Json

/-! ## Readers of lists -/

section

variable {α β : Type} {read : α → Option β} {write : β → α} {items : List α} {values : List β}

/-- Each value that is read from a list is read from one of its items. -/
theorem exists_of_mem_mapM (run : items.mapM read = some values) :
    ∀ value ∈ values, ∃ item ∈ items, read item = some value := by
  induction items generalizing values with
  | nil =>
      cases run
      exact List.forall_mem_nil _
  | cons item rest ih =>
      simp only [List.mapM_cons, Option.bind_eq_bind, Option.bind_eq_some_iff, Option.pure_def,
        Option.some.injEq] at run
      rcases run with ⟨first, firstRead, others, othersRead, rfl⟩
      refine List.forall_mem_cons.mpr ⟨⟨item, List.mem_cons_self, firstRead⟩, ?_⟩
      intro value mem
      rcases ih othersRead value mem with ⟨source, sourceMem, sourceRead⟩
      exact ⟨source, List.mem_cons_of_mem item sourceMem, sourceRead⟩

theorem mapM_map_eq_some (reads : ∀ value ∈ values, read (write value) = some value) :
    (values.map write).mapM read = some values := by
  induction values with
  | nil => rfl
  | cons value rest ih =>
      rcases List.forall_mem_cons.mp reads with ⟨valueRead, restRead⟩
      simp [List.mapM_cons, valueRead, ih restRead]

end

/-- What is read from a sound value has only literals when it is written, and is read again
from what is written. -/
def Rereads {α : Type} (read : Raw → Option α) (write : α → Value) : Prop :=
  ∀ raw value, raw.Sound → read raw = some value →
    (write value).Literal ∧ read (write value).toRaw = some value

section

variable {α : Type} {read : Raw → Option α} {write : α → Value}

/-- The items of an array are read again, if each of them is. -/
theorem Rereads.items (rereads : Rereads read write) {items : List Raw} {values : List α}
    (sound : (Raw.array items).Sound) (run : items.mapM read = some values) :
    (Value.array (values.map write)).Literal ∧
      (rawItems (values.map write)).mapM read = some values := by
  have each : ∀ value ∈ values,
      (write value).Literal ∧ read (write value).toRaw = some value := by
    intro value mem
    rcases exists_of_mem_mapM run value mem with ⟨item, itemMem, itemRead⟩
    exact rereads item value (Raw.every_array_iff.mp sound item itemMem) itemRead
  rw [rawItems_eq_map, List.map_map]
  refine ⟨.array ?_, mapM_map_eq_some fun value mem => (each value mem).2⟩
  rw [List.forall_mem_map]
  exact fun value mem => (each value mem).1

/-- The entry that a member of an object is read as. -/
def entryOf? (read : Raw → Option α) (member : Option String × Raw) : Option (String × α) := do
  return (← member.1, ← read member.2)

theorem entryOf?_eq_some_iff {member : Option String × Raw} {entry : String × α} :
    entryOf? read member = some entry ↔
      member.1 = some entry.1 ∧ read member.2 = some entry.2 := by
  rcases entry with ⟨key, value⟩
  simp [entryOf?, Option.bind_eq_some_iff]

/-- The members of an object as a table writes them. -/
def tableMembers (write : α → Value) (table : Keyed α) : List (String × Value) :=
  table.map fun entry => (entry.1, write entry.2)

theorem tableMembers_id (table : Keyed Value) : tableMembers id table = table :=
  List.map_id table

/-- The table that the members of an object are read as is read again, if each value is.  It
does not have the reserved key. -/
theorem Rereads.members (rereads : Rereads read write) {members : List (Option String × Raw)}
    {entries : List (String × α)} (sound : (Raw.object members).Sound)
    (run : members.mapM (entryOf? read) = some entries) :
    (Value.object (tableMembers write (Keyed.ofPairs entries))).Literal ∧
      (∀ member ∈ rawMembers (tableMembers write (Keyed.ofPairs entries)),
        member.1 ≠ some numberKey) ∧
      ((rawMembers (tableMembers write (Keyed.ofPairs entries))).mapM (entryOf? read)).map
        Keyed.ofPairs = some (Keyed.ofPairs entries) := by
  have each : ∀ entry ∈ Keyed.ofPairs entries, entry.1 ≠ numberKey ∧
      (write entry.2).Literal ∧ read (write entry.2).toRaw = some entry.2 := by
    intro entry mem
    rcases exists_of_mem_mapM run entry (Keyed.mem_of_mem_ofPairs mem) with
      ⟨member, memberMem, memberRead⟩
    rcases entryOf?_eq_some_iff.mp memberRead with ⟨keyEq, valueRead⟩
    rcases Raw.every_object_iff.mp sound member memberMem with ⟨unmarked, valueSound⟩
    refine ⟨?_, rereads _ _ valueSound valueRead⟩
    intro marked
    exact unmarked (keyEq.trans (congrArg some marked))
  rw [rawMembers_eq_map, tableMembers, List.map_map]
  refine ⟨.object ?_, ?_, ?_⟩
  · rw [List.forall_mem_map]
    exact fun entry mem => (each entry mem).2.1
  · rw [List.forall_mem_map]
    exact fun entry mem marked => (each entry mem).1 (Option.some.inj marked)
  · rw [mapM_map_eq_some fun entry mem => entryOf?_eq_some_iff.mpr ⟨rfl, (each entry mem).2.2⟩,
      Option.map_some, Keyed.ofPairs_eq_self (Keyed.ordered_ofPairs entries)]

end

/-! ## Free values -/

namespace Value

/-- An object that does not begin with the reserved key is no number. -/
theorem startsWithNumberKey_eq_false {members : List (Option String × Raw)}
    (unmarked : ∀ member ∈ members, member.1 ≠ some numberKey) :
    startsWithNumberKey members = false := by
  rcases members with _ | ⟨⟨_ | key, _⟩, _⟩
  · rfl
  · rfl
  · simpa [startsWithNumberKey] using unmarked _ List.mem_cons_self

theorem ofRaw?_object (depth : Nat) {members : List (Option String × Raw)}
    (unmarked : ∀ member ∈ members, member.1 ≠ some numberKey) :
    ofRaw? (depth + 1) (.object members) =
      ((members.mapM (entryOf? (ofRaw? depth))).map Keyed.ofPairs).map .object := by
  rw [ofRaw?, startsWithNumberKey_eq_false unmarked, if_neg Bool.false_ne_true, Option.map_map]
  rfl

/-- A number that an object of the reserved key spells is a literal of the fixed form. -/
theorem literal_of_markedNumber? {members : List (Option String × Raw)} {value : Value}
    (marked : markedNumber? members = some value) : value.Literal := by
  unfold markedNumber? at marked
  split at marked
  · rcases Option.map_eq_some_iff.mp marked with ⟨kept, whole, rfl⟩
    unfold Token.wholeNumber? at whole
    split at whole
    · rename_i scanned
      cases whole
      apply Literal.number
      rw [String.toList_ofList]
      exact Token.isLiteral_of_scanNumber? scanned
    · cases whole
  · cases marked

/-- The numbers within a value stay the literals that they were written with. -/
theorem literal_of_ofRaw? {depth : Nat} {raw : Raw} {value : Value} (literal : raw.Literal)
    (read : ofRaw? depth raw = some value) : value.Literal := by
  induction depth using Nat.strongRecOn generalizing raw value with
  | _ depth ih =>
      cases raw with
      | null =>
          rw [ofRaw?] at read
          cases read
          exact .null
      | bool flag =>
          rw [ofRaw?] at read
          cases read
          exact .bool flag
      | number kept =>
          rw [ofRaw?] at read
          cases read
          cases literal with
          | number isLiteral => exact .number isLiteral
      | text content =>
          rw [ofRaw?] at read
          rcases Option.map_eq_some_iff.mp read with ⟨known, _, rfl⟩
          exact .text known
      | array items =>
          cases depth with
          | zero =>
              rw [ofRaw?] at read
              cases read
          | succ depth =>
              rw [ofRaw?] at read
              rcases Option.map_eq_some_iff.mp read with ⟨values, run, rfl⟩
              apply Literal.array
              intro value mem
              rcases exists_of_mem_mapM run value mem with ⟨item, itemMem, itemRead⟩
              exact ih depth (Nat.lt_succ_self depth) (Raw.every_array_iff.mp literal item itemMem)
                itemRead
      | object members =>
          cases depth with
          | zero =>
              rw [ofRaw?] at read
              cases read
          | succ depth =>
              rw [ofRaw?] at read
              split at read
              · exact literal_of_markedNumber? read
              · rcases Option.map_eq_some_iff.mp read with ⟨entries, run, rfl⟩
                apply Literal.object
                intro entry mem
                rcases exists_of_mem_mapM run entry (Keyed.mem_of_mem_ofPairs mem) with
                  ⟨member, memberMem, memberRead⟩
                have valueRead := (entryOf?_eq_some_iff.mp memberRead).2
                exact ih depth (Nat.lt_succ_self depth)
                  (Raw.every_object_iff.mp literal member memberMem).2 valueRead

theorem literal_of_parse? {text : String} {value : Value} (parsed : parse? text = some value) :
    value.Literal := by
  rcases Option.bind_eq_some_iff.mp parsed with ⟨raw, rawParsed, read⟩
  exact literal_of_ofRaw? (Raw.literal_of_parse? rawParsed) read

/-- A free value is read again from its own text. -/
theorem rereads_ofRaw? (depth : Nat) : Rereads (ofRaw? depth) id := by
  induction depth using Nat.strongRecOn with
  | _ depth ih =>
      intro raw value sound read
      cases raw with
      | null =>
          rw [ofRaw?] at read
          cases read
          exact ⟨.null, by rw [id, toRaw, ofRaw?]⟩
      | bool flag =>
          rw [ofRaw?] at read
          cases read
          exact ⟨.bool flag, by rw [id, toRaw, ofRaw?]⟩
      | number literal =>
          rw [ofRaw?] at read
          cases read
          cases sound with
          | number isLiteral => exact ⟨.number isLiteral, by rw [id, toRaw, ofRaw?]⟩
      | text content =>
          rw [ofRaw?] at read
          rcases Option.map_eq_some_iff.mp read with ⟨known, rfl, rfl⟩
          exact ⟨.text known, by rw [id, toRaw, ofRaw?, Option.map_some]⟩
      | array items =>
          cases depth with
          | zero =>
              rw [ofRaw?] at read
              cases read
          | succ depth =>
              rw [ofRaw?] at read
              rcases Option.map_eq_some_iff.mp read with ⟨values, run, rfl⟩
              rcases (ih depth (Nat.lt_succ_self depth)).items sound run with ⟨literal, again⟩
              rw [List.map_id] at literal again
              exact ⟨literal, by rw [id, toRaw, ofRaw?, again, Option.map_some]⟩
      | object members =>
          cases depth with
          | zero =>
              rw [ofRaw?] at read
              cases read
          | succ depth =>
              have unmarked : ∀ member ∈ members, member.1 ≠ some numberKey :=
                fun member mem => (Raw.every_object_iff.mp sound member mem).1
              rw [ofRaw?_object depth unmarked, Option.map_map] at read
              rcases Option.map_eq_some_iff.mp read with ⟨entries, run, rfl⟩
              obtain ⟨literal, stillUnmarked, again⟩ :=
                (ih depth (Nat.lt_succ_self depth)).members sound run
              rw [tableMembers_id] at literal stillUnmarked again
              refine ⟨literal, ?_⟩
              change ofRaw? (depth + 1) (.object (rawMembers (Keyed.ofPairs entries))) = _
              rw [ofRaw?_object depth stillUnmarked, again]
              rfl

end Value

end DreamWorld.Json
