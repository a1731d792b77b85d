import DreamWorld.Proofs.Document.Lineage
import DreamWorld.Proofs.Tree.Declared

/-!
# Rearranged documents

Two documents are rearranged from each other if the records beside one another stand in
another order, at any depth, and nothing else differs.  The records that names reach in
the one and in the other document are rearranged from each other, at different places in
general.
-/

namespace DreamWorld.Document.ClassRecord

/-- A record without the records within it. -/
def alone (record : ClassRecord) : ClassRecord :=
  { record with children := none }

theorem sizeOf_lt_of_mem_inner {record inner : ClassRecord} (mem : inner ∈ record.inner) :
    sizeOf inner < sizeOf record := by
  rcases record with ⟨name, parent, vars, globals, procs, initProc, _ | records⟩
  · cases mem
  · have smaller := List.sizeOf_lt_of_mem mem
    simp only [ClassRecord.inner, Option.getD_some] at smaller
    simp only [mk.sizeOf_spec, Option.some.sizeOf_spec]
    omega

/-- Two records agree in everything but the order of the records within them and, in the
same way, within those.  The records within one are matched with those within the other. -/
inductive Rearranged : ClassRecord → ClassRecord → Prop
  | intro {first second : ClassRecord} (matching : List (ClassRecord × ClassRecord)) :
      first.alone = second.alone →
      first.inner.Perm (matching.map Prod.fst) → second.inner.Perm (matching.map Prod.snd) →
      (∀ pair ∈ matching, Rearranged pair.1 pair.2) → Rearranged first second

namespace Rearranged

variable {first second record : ClassRecord} {names : List String} {place : Nat}

theorem symm (rearranged : first.Rearranged second) : second.Rearranged first := by
  induction rearranged with
  | intro matching aloneEq firstPerm secondPerm _ ih =>
      refine .intro (matching.map Prod.swap) aloneEq.symm ?_ ?_ ?_
      · rw [List.map_map]
        exact secondPerm
      · rw [List.map_map]
        exact firstPerm
      · intro pair pairMem
        rcases List.mem_map.mp pairMem with ⟨matched, matchedMem, rfl⟩
        exact ih matched matchedMem

theorem alone_eq (rearranged : first.Rearranged second) : first.alone = second.alone := by
  cases rearranged with
  | intro _ aloneEq _ _ _ => exact aloneEq

/-- What only depends on the record itself agrees. -/
theorem apply_eq {α : Type} (rearranged : first.Rearranged second) (part : ClassRecord → α)
    (alone_part : ∀ record, part record.alone = part record) : part first = part second := by
  rw [← alone_part, rearranged.alone_eq, alone_part]

/-- Each record directly within the one has its match directly within the other. -/
theorem exists_inner (rearranged : first.Rearranged second) (mem : record ∈ first.inner) :
    ∃ other ∈ second.inner, record.Rearranged other := by
  cases rearranged with
  | intro matching _ firstPerm secondPerm rearrangedAll =>
      rcases List.mem_map.mp (firstPerm.mem_iff.mp mem) with ⟨pair, pairMem, rfl⟩
      exact ⟨pair.2, secondPerm.mem_iff.mpr (List.mem_map_of_mem pairMem),
        rearrangedAll pair pairMem⟩

/-- Names that reach a record in the one document reach a rearranged one in the other. -/
theorem exists_reaches (rearranged : first.Rearranged second)
    (reached : first.Reaches names place record) :
    ∃ otherPlace other, second.Reaches names otherPlace other ∧ record.Rearranged other := by
  induction reached with
  | outermost => exact ⟨0, second, .outermost, rearranged⟩
  | @within names outer enclosing record before after _ innerEq ih =>
      rcases ih with ⟨otherOuter, otherEnclosing, otherReached, enclosingRearranged⟩
      have mem : record ∈ enclosing.inner := by
        rw [innerEq]
        exact List.mem_append_right before List.mem_cons_self
      rcases enclosingRearranged.exists_inner mem with ⟨other, otherMem, recordRearranged⟩
      rcases List.append_of_mem otherMem with ⟨otherBefore, otherAfter, otherInnerEq⟩
      rw [recordRearranged.apply_eq name fun _ => rfl]
      exact ⟨_, other, .within otherReached otherInnerEq, recordRearranged⟩

/-- A record is rearranged from itself. -/
theorem refl (record : ClassRecord) : record.Rearranged record := by
  refine .intro (record.inner.map fun inner => (inner, inner)) rfl ?_ ?_ ?_
  · simp [Function.comp_def]
  · simp [Function.comp_def]
  · intro pair pairMem
    rcases List.mem_map.mp pairMem with ⟨inner, innerMem, rfl⟩
    exact refl inner
termination_by sizeOf record
decreasing_by exact sizeOf_lt_of_mem_inner innerMem

/-- Records that differ in the order of the records directly within them. -/
theorem of_perm (aloneEq : first.alone = second.alone) (perm : first.inner.Perm second.inner) :
    first.Rearranged second := by
  refine .intro (second.inner.map fun inner => (inner, inner)) aloneEq ?_ ?_ ?_
  · simpa [Function.comp_def] using perm
  · simp [Function.comp_def]
  · intro pair pairMem
    rcases List.mem_map.mp pairMem with ⟨inner, _, rfl⟩
    exact refl inner

end Rearranged

/-! ## Two orders of one document -/

def catRecord : ClassRecord where
  name := "cat"
  procs := some [("Call", [{ bytecode := some [2] }])]

def dogRecord : ClassRecord where
  name := "dog"
  vars := some [("legs", .number "4")]

def animalRecord : ClassRecord where
  name := "animal"
  procs := some [("Call", [{ bytecode := some [1] }])]
  children := some [catRecord, dogRecord]

def toolRecord : ClassRecord where
  name := "tool"

/-- A class that inherits from another one on the second level. -/
def sphinxRecord : ClassRecord where
  name := "sphinx"
  parent := some "/animal/cat"
  procs := some [("Call", [{ bytecode := some [3] }])]

def menagerieDocument : ClassRecord where
  name := ""
  children := some [animalRecord, toolRecord, sphinxRecord]

/-- The same classes in another order, on both levels. -/
def shuffledMenagerieDocument : ClassRecord where
  name := ""
  children := some
    [toolRecord, { animalRecord with children := some [dogRecord, catRecord] }, sphinxRecord]

theorem rearranged_menagerieDocument :
    menagerieDocument.Rearranged shuffledMenagerieDocument := by
  let shuffledAnimal : ClassRecord := { animalRecord with children := some [dogRecord, catRecord] }
  have animals : animalRecord.Rearranged shuffledAnimal := .of_perm rfl (.swap _ _ _)
  refine .intro [(animalRecord, shuffledAnimal), (toolRecord, toolRecord),
    (sphinxRecord, sphinxRecord)] rfl (.refl _) (.swap _ _ _) ?_
  simp only [List.forall_mem_cons]
  exact ⟨animals, .refl _, .refl _, List.forall_mem_nil _⟩

end DreamWorld.Document.ClassRecord
