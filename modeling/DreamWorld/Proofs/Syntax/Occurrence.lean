import DreamWorld.Proofs.Syntax.Outline
import Mathlib.Data.List.Nodup

/-!
# Occurrences of nodes

A node may occur in a syntax tree several times.  An occurrence is named by its address: which part
to take on each level on the way down to it.  Listing a node before what it owns, part by part,
lists each occurrence once, and the occurrences below one of them stand together behind it.
-/

namespace DreamWorld.Syntax

/-- A node where it stands in a tree: its address, the nodes that it is a part of, from the
outermost on, and the node itself. -/
structure Occurrence where
  address : List Nat
  owners : List Node
  node : Node

/-- The same node in a tree of which its own tree is one part. -/
def Occurrence.within (index : Nat) (owner : Node) (occurrence : Occurrence) : Occurrence :=
  { occurrence with
    address := index :: occurrence.address
    owners := owner :: occurrence.owners }

/-- An outline has a node at an address. -/
inductive Outline.Has : Outline → Occurrence → Prop
  | head {head : Node} {parts : List Outline} : Has (.node head parts) ⟨[], [], head⟩
  | part {head : Node} {parts : List Outline} {index : Nat} {part : Outline}
      {occurrence : Occurrence} :
      parts[index]? = some part → Has part occurrence →
      Has (.node head parts) (occurrence.within index head)

mutual

/-- All occurrences in an outline, each before those below it. -/
def Outline.occurrences : Outline → List Occurrence
  | .node head parts => ⟨[], [], head⟩ :: occurrencesFrom head 0 parts

/-- All occurrences in some parts of a node, of which the first has the given index. -/
def occurrencesFrom (owner : Node) (index : Nat) : List Outline → List Occurrence
  | [] => []
  | part :: rest =>
      part.occurrences.map (·.within index owner) ++ occurrencesFrom owner (index + 1) rest

end

mutual

/-- How many nodes of a kind an outline has. -/
def Outline.count (kind : NodeKind) : Outline → Nat
  | .node head parts => (if head.kind = kind then 1 else 0) + countAll kind parts

def countAll (kind : NodeKind) : List Outline → Nat
  | [] => 0
  | part :: rest => part.count kind + countAll kind rest

end

variable {outline : Outline} {occurrence other : Occurrence} {owner : Node} {index : Nat}

mutual

theorem Outline.mem_occurrences_iff : (outline : Outline) → (occurrence : Occurrence) →
    (occurrence ∈ outline.occurrences ↔ outline.Has occurrence)
  | .node head parts, occurrence => by
      rw [Outline.occurrences, List.mem_cons, mem_occurrencesFrom_iff]
      constructor
      · rintro (rfl | ⟨index, part, below, found, has, rfl⟩)
        · exact .head
        · rw [Nat.zero_add]
          exact .part found has
      · intro has
        cases has with
        | head => exact .inl rfl
        | @part _ _ index part below found has =>
            exact .inr ⟨index, part, below, found, has, by rw [Nat.zero_add]⟩

theorem mem_occurrencesFrom_iff (owner : Node) : (start : Nat) → (parts : List Outline) →
    (occurrence : Occurrence) → (occurrence ∈ occurrencesFrom owner start parts ↔
      ∃ (index : Nat) (part : Outline) (below : Occurrence),
        parts[index]? = some part ∧ part.Has below ∧
        occurrence = below.within (start + index) owner)
  | start, [], occurrence => by simp [occurrencesFrom]
  | start, part :: rest, occurrence => by
      rw [occurrencesFrom, List.mem_append, List.mem_map,
        mem_occurrencesFrom_iff owner (start + 1) rest]
      constructor
      · rintro (⟨below, mem, rfl⟩ | ⟨index, other, below, found, has, rfl⟩)
        · exact ⟨0, part, below, rfl, (part.mem_occurrences_iff below).mp mem, rfl⟩
        · exact ⟨index + 1, other, below, found, has, by rw [Nat.add_right_comm, Nat.add_assoc]⟩
      · rintro ⟨index, other, below, found, has, rfl⟩
        cases index with
        | zero =>
            cases found
            exact .inl ⟨below, (part.mem_occurrences_iff below).mpr has, rfl⟩
        | succ index =>
            exact .inr ⟨index, other, below, found, has, by rw [Nat.add_right_comm, Nat.add_assoc]⟩

end

/-! ## Every address once -/

mutual

theorem Outline.addresses_nodup : (outline : Outline) →
    (outline.occurrences.map Occurrence.address).Nodup
  | .node head parts => by
      rw [Outline.occurrences, List.map_cons, List.nodup_cons]
      refine ⟨?_, addressesFrom_nodup head 0 parts⟩
      simp only [List.mem_map, mem_occurrencesFrom_iff]
      rintro ⟨_, ⟨index, part, below, _, _, rfl⟩, addressEq⟩
      cases addressEq

theorem addressesFrom_nodup (owner : Node) : (start : Nat) → (parts : List Outline) →
    ((occurrencesFrom owner start parts).map Occurrence.address).Nodup
  | start, [] => List.nodup_nil
  | start, part :: rest => by
      rw [occurrencesFrom, List.map_append, List.map_map, List.nodup_append]
      refine ⟨?_, addressesFrom_nodup owner (start + 1) rest, ?_⟩
      · have shifted := part.addresses_nodup.map (List.cons_injective (a := start))
        rwa [List.map_map] at shifted
      · simp only [List.mem_map, mem_occurrencesFrom_iff]
        rintro _ ⟨first, _, rfl⟩ _ ⟨_, ⟨index, other, below, _, _, rfl⟩, rfl⟩ addressEq
        have indexEq := (List.cons.inj addressEq).1
        omega

end

/-! ## What stands below an occurrence -/

theorem occurrencesFrom_append (owner : Node) (start : Nat) (first second : List Outline) :
    occurrencesFrom owner start (first ++ second) =
      occurrencesFrom owner start first ++ occurrencesFrom owner (start + first.length) second := by
  induction first generalizing start with
  | nil => rfl
  | cons part rest ih =>
      rw [List.cons_append, occurrencesFrom, ih, occurrencesFrom, List.append_assoc,
        List.length_cons, Nat.add_right_comm, Nat.add_assoc]

/-- The occurrences in one part of a node stand together. -/
theorem exists_occurrences_part (head : Node) {parts : List Outline} {part : Outline}
    (found : parts[index]? = some part) :
    ∃ front back, (Outline.node head parts).occurrences =
      front ++ part.occurrences.map (·.within index head) ++ back := by
  obtain ⟨inBounds, rfl⟩ := List.getElem?_eq_some_iff.mp found
  have split : parts = parts.take index ++ parts[index] :: parts.drop (index + 1) := by
    rw [← List.drop_eq_getElem_cons inBounds, List.take_append_drop]
  refine ⟨⟨[], [], head⟩ :: occurrencesFrom head 0 (parts.take index),
    occurrencesFrom head (index + 1) (parts.drop (index + 1)), ?_⟩
  conv_lhs => rw [Outline.occurrences, split, occurrencesFrom_append, occurrencesFrom]
  simp [List.length_take_of_le (Nat.le_of_lt inBounds)]

/-- An occurrence and all those below it stand together, itself in front. -/
theorem Outline.Has.exists_below (has : outline.Has occurrence) :
    ∃ before within after, outline.occurrences = before ++ occurrence :: within ++ after ∧
      ∀ other ∈ outline.occurrences, occurrence.address <+: other.address ↔
        other ∈ occurrence :: within := by
  induction has with
  | @head head parts =>
      refine ⟨[], occurrencesFrom head 0 parts, [], by simp [Outline.occurrences], ?_⟩
      intro other mem
      exact iff_of_true List.nil_prefix mem
  | @part head parts index part occurrence found has ih =>
      rcases ih with ⟨before, within, after, partEq, belowIff⟩
      rcases exists_occurrences_part head found with ⟨front, back, listed⟩
      refine ⟨front ++ before.map (·.within index head), within.map (·.within index head),
        after.map (·.within index head) ++ back, by simp [listed, partEq], ?_⟩
      intro other mem
      change _ ↔ other ∈ (occurrence :: within).map (·.within index head)
      rw [List.mem_map]
      constructor
      · intro below
        cases (Outline.mem_occurrences_iff _ _).mp mem with
        | head => exact absurd (List.prefix_nil.mp below) (List.cons_ne_nil _ _)
        | @part _ _ otherIndex otherPart inner otherFound innerHas =>
            rcases List.cons_prefix_cons.mp below with ⟨rfl, innerBelow⟩
            rw [found] at otherFound
            cases otherFound
            have innerMem := (Outline.mem_occurrences_iff _ _).mpr innerHas
            exact ⟨inner, (belowIff inner innerMem).mp innerBelow, rfl⟩
      · rintro ⟨inner, innerMem, rfl⟩
        have innerListed : inner ∈ part.occurrences := by
          rw [partEq]
          exact List.mem_append_left _ (List.mem_append_right _ innerMem)
        exact List.cons_prefix_cons.mpr ⟨rfl, (belowIff inner innerListed).mpr innerMem⟩

/-- The owners of an occurrence are the nodes at the addresses on the way to it. -/
theorem Outline.Has.mem_owners_iff (has : outline.Has occurrence) {node : Node} :
    node ∈ occurrence.owners ↔ ∃ above, outline.Has above ∧ above.node = node ∧
      above.address <+: occurrence.address ∧ above.address ≠ occurrence.address := by
  induction has with
  | head =>
      refine iff_of_false List.not_mem_nil ?_
      rintro ⟨above, _, _, below, different⟩
      exact different (List.prefix_nil.mp below)
  | @part head parts index part occurrence found has ih =>
      rw [Occurrence.within, List.mem_cons, ih]
      constructor
      · rintro (rfl | ⟨above, aboveHas, rfl, below, different⟩)
        · exact ⟨_, .head, rfl, List.nil_prefix, (List.cons_ne_nil _ _).symm⟩
        · refine ⟨_, .part found aboveHas, rfl, List.cons_prefix_cons.mpr ⟨rfl, below⟩, ?_⟩
          exact fun same => different (List.cons.inj same).2
      · rintro ⟨above, aboveHas, rfl, below, different⟩
        cases aboveHas with
        | head => exact .inl rfl
        | @part _ _ otherIndex otherPart inner otherFound innerHas =>
            rcases List.cons_prefix_cons.mp below with ⟨rfl, innerBelow⟩
            rw [found] at otherFound
            cases otherFound
            exact .inr ⟨inner, innerHas, rfl, innerBelow,
              fun same => different (congrArg (otherIndex :: ·) same)⟩

/-- An occurrence in the outline of a node is the node itself or a part of its owner. -/
theorem Outline.Has.exists_owner {root : Node} (has : root.outline.Has occurrence) :
    (occurrence.address = [] ∧ occurrence.node = root) ∨
      ∃ owner index, root.outline.Has owner ∧ occurrence.address = owner.address ++ [index] ∧
        owner.node.parts[index]? = some occurrence.node.outline := by
  generalize outlineEq : root.outline = outline at has
  induction has generalizing root with
  | head =>
      cases outlineEq
      exact .inl ⟨rfl, rfl⟩
  | @part head _ index part occurrence found has ih =>
      cases outlineEq
      have listed := found
      rw [head.parts_eq, List.getElem?_map, Option.map_eq_some_iff] at listed
      rcases listed with ⟨child, _, rfl⟩
      rcases ih rfl with ⟨addressEq, rfl⟩ | ⟨owner, inner, ownerHas, addressEq, partEq⟩
      · refine .inr ⟨_, index, .head, ?_, found⟩
        rw [Occurrence.within, addressEq]
        rfl
      · refine .inr ⟨_, inner, .part found ownerHas, ?_, partEq⟩
        rw [Occurrence.within, addressEq]
        rfl

/-! ## Counting -/

mutual

theorem Outline.count_eq (kind : NodeKind) : (outline : Outline) →
    outline.count kind = outline.occurrences.countP (·.node.kind == kind)
  | .node head parts => by
      rw [Outline.count, countAll_eq kind head 0, Outline.occurrences, List.countP_cons,
        Nat.add_comm]
      simp only [beq_iff_eq]

theorem countAll_eq (kind : NodeKind) (owner : Node) : (start : Nat) → (parts : List Outline) →
    countAll kind parts = (occurrencesFrom owner start parts).countP (·.node.kind == kind)
  | _, [] => rfl
  | start, part :: rest => by
      rw [countAll, part.count_eq kind, countAll_eq kind owner (start + 1) rest, occurrencesFrom,
        List.countP_append, List.countP_map]
      rfl

end

end DreamWorld.Syntax
