import DreamWorld.Tree.Load
import Mathlib.Data.List.Basic

/-!
# The records of a document in order

A document lists its records in the order in which they are written: each record
before the records within it, and these before the next record beside it.  The
place of a record is the number of records before it.  Following names from the
outermost record, each to a record directly within the one before, reaches a
record at its place.

The list of placed records that a tree is built from is this order without the
outermost record.
-/

namespace DreamWorld.Document

mutual

/-- All records of a document, in the order in which they are written. -/
def ClassRecord.preorder : ClassRecord → List ClassRecord
  | ⟨name, parent, vars, globals, procs, initProc, children⟩ =>
      ⟨name, parent, vars, globals, procs, initProc, children⟩ :: preorderWithin children

/-- The records of an optional list and all records within them. -/
def preorderWithin : Option (List ClassRecord) → List ClassRecord
  | none => []
  | some records => preorderAll records

/-- The records of a list, each followed by all records within it. -/
def preorderAll : List ClassRecord → List ClassRecord
  | [] => []
  | record :: rest => record.preorder ++ preorderAll rest

end

/-- Following names from the outermost record of a document leads to a record,
which has so many records before it. -/
inductive ClassRecord.Reaches (document : ClassRecord) :
    List String → Nat → ClassRecord → Prop
  | outermost : Reaches document [] 0 document
  | within {names : List String} {outer : Nat} {enclosing record : ClassRecord}
      {before after : List ClassRecord} :
      Reaches document names outer enclosing →
      enclosing.inner = before ++ record :: after →
      Reaches document (names ++ [record.name]) (outer + 1 + (preorderAll before).length) record

/-- The record at a place lies directly within the record at the place `outer`. -/
def ClassRecord.Within (document : ClassRecord) (outer place : Nat) (record : ClassRecord) :
    Prop :=
  ∃ names enclosing before after, document.Reaches names outer enclosing ∧
    enclosing.inner = before ++ record :: after ∧
    place = outer + 1 + (preorderAll before).length

/-! ## The order by its parts -/

theorem ClassRecord.preorder_eq (record : ClassRecord) :
    record.preorder = record :: preorderAll record.inner := by
  rcases record with ⟨name, parent, vars, globals, procs, initProc, children⟩
  cases children <;> rfl

@[simp]
theorem preorderAll_nil : preorderAll [] = [] :=
  rfl

@[simp]
theorem preorderAll_cons (record : ClassRecord) (rest : List ClassRecord) :
    preorderAll (record :: rest) = record.preorder ++ preorderAll rest :=
  rfl

@[simp]
theorem preorderAll_append (first second : List ClassRecord) :
    preorderAll (first ++ second) = preorderAll first ++ preorderAll second := by
  induction first with
  | nil => rfl
  | cons record rest ih => simp [ih]

theorem ClassRecord.placedWithin_eq (place : Nat) (record : ClassRecord) :
    record.placedWithin place = placedRecords place (place + 1) record.inner := by
  rcases record with ⟨name, parent, vars, globals, procs, initProc, children⟩
  cases children <;> rfl

mutual

private theorem placedWithin_map_record (place : Nat) : (record : ClassRecord) →
    (record.placedWithin place).map PlacedRecord.record = preorderAll record.inner
  | ⟨_, _, _, _, _, _, none⟩ => rfl
  | ⟨_, _, _, _, _, _, some records⟩ => placedRecords_map_record place (place + 1) records

/-- The placed records of a list are all records of it, in their order. -/
theorem placedRecords_map_record (outer next : Nat) : (records : List ClassRecord) →
    (placedRecords outer next records).map PlacedRecord.record = preorderAll records
  | [] => rfl
  | record :: rest => by
      have within := placedWithin_map_record next record
      have after := placedRecords_map_record outer
        (next + 1 + (record.placedWithin next).length) rest
      simp [placedRecords, record.preorder_eq, within, after]

end

@[simp]
theorem length_placedRecords (outer next : Nat) (records : List ClassRecord) :
    (placedRecords outer next records).length = (preorderAll records).length := by
  rw [← placedRecords_map_record outer next, List.length_map]

/-- The order of a document is its outermost record and then its placed records. -/
theorem ClassRecord.preorder_eq_cons_placed (document : ClassRecord) :
    document.preorder = document :: (document.placedWithin 0).map PlacedRecord.record := by
  rw [placedWithin_eq, placedRecords_map_record, preorder_eq]

theorem ClassRecord.length_preorder (record : ClassRecord) (place : Nat) :
    record.preorder.length = (record.placedWithin place).length + 1 := by
  rw [preorder_eq, placedWithin_eq, length_placedRecords, List.length_cons]

theorem placedRecords_append (outer next : Nat) (first second : List ClassRecord) :
    placedRecords outer next (first ++ second) =
      placedRecords outer next first ++
        placedRecords outer (next + (preorderAll first).length) second := by
  induction first generalizing next with
  | nil => simp [placedRecords]
  | cons record rest ih =>
      have shifted : next + 1 + (record.placedWithin next).length + (preorderAll rest).length =
          next + (preorderAll (record :: rest)).length := by
        rw [preorderAll_cons, List.length_append, record.length_preorder next]
        omega
      rw [List.cons_append, placedRecords, ih, shifted, placedRecords]
      simp

/-! ## Placed records are the records within others -/

/-- The records within a reached record stand together in the list of placed
records, from its own place on. -/
theorem ClassRecord.Reaches.placed_infix {document record : ClassRecord} {names : List String}
    {place : Nat} (reached : document.Reaches names place record) :
    ∃ front back, document.placedWithin 0 = front ++ record.placedWithin place ++ back ∧
      front.length = place := by
  induction reached with
  | outermost => exact ⟨[], [], by simp, rfl⟩
  | @within names outer enclosing record before after _ innerEq ih =>
      rcases ih with ⟨front, back, placedEq, frontLength⟩
      let place := outer + 1 + (preorderAll before).length
      refine ⟨front ++ placedRecords outer (outer + 1) before ++ [⟨outer, record⟩],
        placedRecords outer (place + 1 + (record.placedWithin place).length) after ++ back,
        ?_, ?_⟩
      · rw [placedEq, enclosing.placedWithin_eq, innerEq, placedRecords_append, placedRecords]
        simp [place]
      · simp only [List.length_append, frontLength, length_placedRecords, List.length_singleton]
        omega

/-- A record within another one is listed at its place. -/
theorem ClassRecord.Within.getElem?_placed {document record : ClassRecord} {outer place : Nat}
    (within : document.Within outer place record) :
    (document.placedWithin 0)[place - 1]? = some ⟨outer, record⟩ := by
  rcases within with ⟨names, enclosing, before, after, reached, innerEq, rfl⟩
  rcases reached.placed_infix with ⟨front, back, placedEq, frontLength⟩
  have index : outer + 1 + (preorderAll before).length - 1 =
      (front ++ placedRecords outer (outer + 1) before).length := by
    simp only [List.length_append, frontLength, length_placedRecords]
    omega
  rw [placedEq, enclosing.placedWithin_eq, innerEq, placedRecords_append, placedRecords, index]
  simp only [← List.append_assoc, List.cons_append]
  simp

mutual

private theorem within_of_placedWithin {document : ClassRecord} : (record : ClassRecord) →
    (names : List String) → (place index outer : Nat) → (inner : ClassRecord) →
    document.Reaches names place record →
    (record.placedWithin place)[index]? = some ⟨outer, inner⟩ →
    document.Within outer (place + index + 1) inner
  | ⟨_, _, _, _, _, _, none⟩ => by
      intro names place index outer inner _ listed
      simp [ClassRecord.placedWithin, placedChildren] at listed
  | ⟨_, _, _, _, _, _, some records⟩ => by
      intro names place index outer inner reached listed
      rw [Nat.add_right_comm]
      exact within_of_placedRecords records names place (place + 1) index outer _ [] inner reached
        rfl rfl listed

-- The records of `before` stand in front of those still to be listed, so the next place
-- is known although `Reaches` counts from the enclosing record.
private theorem within_of_placedRecords {document : ClassRecord} :
    (records : List ClassRecord) → (names : List String) → (place next index outer : Nat) →
    (enclosing : ClassRecord) → (before : List ClassRecord) → (inner : ClassRecord) →
    document.Reaches names place enclosing →
    enclosing.inner = before ++ records → next = place + 1 + (preorderAll before).length →
    (placedRecords place next records)[index]? = some ⟨outer, inner⟩ →
    document.Within outer (next + index) inner
  | [] => by
      intro names place next index outer enclosing before inner _ _ _ listed
      simp [placedRecords] at listed
  | record :: rest => by
      intro names place next index outer enclosing before inner reached innerEq nextEq listed
      have within := nextEq ▸ ClassRecord.Reaches.within reached innerEq
      rw [placedRecords, List.cons_append] at listed
      cases index with
      | zero =>
          simp only [List.getElem?_cons_zero, Option.some.injEq, PlacedRecord.mk.injEq] at listed
          rcases listed with ⟨rfl, rfl⟩
          exact ⟨names, enclosing, before, rest, reached, innerEq, nextEq⟩
      | succ index =>
          rw [List.getElem?_cons_succ, List.getElem?_append] at listed
          split at listed
          · exact within_of_placedWithin record _ next index outer inner within listed
          · rename_i past
            have restNext : next + 1 + (record.placedWithin next).length =
                place + 1 + (preorderAll (before ++ [record])).length := by
              simp only [preorderAll_append, preorderAll_cons, preorderAll_nil, List.append_nil,
                List.length_append, record.length_preorder next]
              omega
            have found := within_of_placedRecords rest names place _ _ outer enclosing
              (before ++ [record]) inner reached (by simp [innerEq]) restNext listed
            rwa [show next + 1 + (record.placedWithin next).length +
              (index - (record.placedWithin next).length) = next + (index + 1) by omega] at found

end

/-- The placed records are exactly the records within others, by their places. -/
theorem ClassRecord.getElem?_placed_eq_some_iff {document record : ClassRecord}
    {outer index : Nat} :
    (document.placedWithin 0)[index]? = some ⟨outer, record⟩ ↔
      document.Within outer (index + 1) record := by
  constructor
  · intro listed
    simpa using within_of_placedWithin document [] 0 index outer record .outermost listed
  · intro within
    exact within.getElem?_placed

/-! ## Reached records and their places -/

namespace ClassRecord

variable {document record : ClassRecord} {names : List String} {outer place : Nat}

theorem Within.outer_lt (within : document.Within outer place record) : outer < place := by
  rcases within with ⟨names, enclosing, before, after, reached, innerEq, rfl⟩
  omega

/-- Only the outermost record has place zero. -/
theorem Within.exists_place_eq_succ (within : document.Within outer place record) :
    ∃ index, place = index + 1 :=
  Nat.exists_eq_succ_of_ne_zero (Nat.ne_of_gt (Nat.zero_lt_of_lt within.outer_lt))

/-- A place belongs to one record within one other. -/
theorem Within.unique {otherOuter : Nat} {other : ClassRecord}
    (first : document.Within outer place record)
    (second : document.Within otherOuter place other) : outer = otherOuter ∧ record = other := by
  have listedEq := first.getElem?_placed.symm.trans second.getElem?_placed
  simpa using listedEq

/-- One name further down from the enclosing record. -/
theorem Within.reaches (within : document.Within outer place record) :
    ∃ names enclosing, document.Reaches names outer enclosing ∧
      document.Reaches (names ++ [record.name]) place record := by
  rcases within with ⟨names, enclosing, before, after, reached, innerEq, rfl⟩
  exact ⟨names, enclosing, reached, .within reached innerEq⟩

/-- A reached record is the outermost one or lies directly within a reached one. -/
theorem Reaches.cases_place (reached : document.Reaches names place record) :
    (names = [] ∧ place = 0 ∧ record = document) ∨
      ∃ outerNames outer enclosing, names = outerNames ++ [record.name] ∧
        document.Reaches outerNames outer enclosing ∧ document.Within outer place record := by
  cases reached with
  | outermost => exact .inl ⟨rfl, rfl, rfl⟩
  | within enclosingReached innerEq =>
      exact .inr ⟨_, _, _, rfl, enclosingReached, _, _, _, _, enclosingReached, innerEq, rfl⟩

/-- A place belongs to one record, which one list of names reaches. -/
theorem Reaches.unique {otherNames : List String} {other : ClassRecord}
    (first : document.Reaches names place record)
    (second : document.Reaches otherNames place other) : names = otherNames ∧ record = other := by
  induction place using Nat.strongRecOn generalizing names otherNames record other with
  | _ place ih =>
      rcases first.cases_place with ⟨rfl, rfl, rfl⟩ | ⟨outerNames, outer, enclosing, rfl, up, down⟩
      · rcases second.cases_place with ⟨rfl, _, rfl⟩ | ⟨_, _, _, _, _, down⟩
        · exact ⟨rfl, rfl⟩
        · exact absurd down.outer_lt (Nat.not_lt_zero _)
      · rcases second.cases_place with ⟨_, rfl, _⟩ | ⟨otherOuter, _, _, rfl, otherUp, otherDown⟩
        · exact absurd down.outer_lt (Nat.not_lt_zero _)
        · rcases down.unique otherDown with ⟨rfl, rfl⟩
          exact ⟨by rw [(ih outer down.outer_lt up otherUp).1], rfl⟩

/-- A reached record stands at its place in the order of the document. -/
theorem Reaches.getElem?_preorder (reached : document.Reaches names place record) :
    document.preorder[place]? = some record := by
  rw [preorder_eq_cons_placed]
  rcases reached.cases_place with ⟨_, rfl, rfl⟩ | ⟨_, outer, _, _, _, within⟩
  · rfl
  · rcases within.exists_place_eq_succ with ⟨index, rfl⟩
    simpa using ⟨_, within.getElem?_placed, rfl⟩

/-- Every record of a document is reached. -/
theorem exists_reaches_of_getElem? (listed : document.preorder[place]? = some record) :
    ∃ names, document.Reaches names place record := by
  rw [preorder_eq_cons_placed] at listed
  cases place with
  | zero =>
      obtain rfl := Option.some.inj listed
      exact ⟨[], .outermost⟩
  | succ index =>
      rw [List.getElem?_cons_succ, List.getElem?_map, Option.map_eq_some_iff] at listed
      rcases listed with ⟨⟨outer, _⟩, placed, rfl⟩
      rcases (getElem?_placed_eq_some_iff.mp placed).reaches with ⟨names, _, _, reached⟩
      exact ⟨_, reached⟩

end ClassRecord

end DreamWorld.Document
