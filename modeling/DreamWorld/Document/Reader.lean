import DreamWorld.Document.Record

/-!
# Reading documents

A record is written as an object or as an array of its parts in their order.  In
an object unknown keys are passed over, whatever stands under them, and a known
key may occur once.  In an array trailing parts may be missing, but nothing may
follow the last one.  Null stands for an absent part where the part is optional.
-/

namespace DreamWorld.Document

open Json (Raw Value)

/-! ## Parts of records -/

/-- The known members of an object, if every key has content and no known key is
repeated. -/
def knownMembers? (keys : List String) :
    List (Option String × Raw) → Option (List (String × Raw))
  | [] => some []
  | (none, _) :: _ => none
  | (some key, value) :: rest =>
      match knownMembers? keys rest with
      | none => none
      | some found =>
          if !keys.contains key then some found
          else if (found.lookup key).isSome then none
          else some ((key, value) :: found)

/-- The parts of a record under their keys, in either way of writing it. -/
def parts? (keys : List String) : Raw → Option (List (String × Raw))
  | .object members => knownMembers? keys members
  | .array items => if items.length ≤ keys.length then some (keys.zip items) else none
  | _ => none

/-- A string with content. -/
def text? : Raw → Option String
  | .text content => content
  | _ => none

/-- A plain numeral of digits, up to a limit. -/
def natural? (limit : Nat) : Raw → Option Nat
  | .number literal =>
      if literal.toList.all Char.isDigit then
        (String.toNat? literal).filter (· ≤ limit)
      else none
  | _ => none

/-- A part that must be present. -/
def required? {α : Type} (read : Raw → Option α) : Option Raw → Option α
  | some raw => read raw
  | none => none

/-- A part that may be absent or null. -/
def optional? {α : Type} (read : Raw → Option α) : Option Raw → Option (Option α)
  | none | some .null => some none
  | some raw => (read raw).map some

/-- The elements of an array, if containers may still nest. -/
def items? {α : Type} (read : Nat → Raw → Option α) : Nat → Raw → Option (List α)
  | depth + 1, .array items => items.mapM (read depth)
  | _, _ => none

/-- A table of an object, if containers may still nest.  Of a repeated key the
last value counts, but every value must be readable. -/
def table? {α : Type} (read : Nat → Raw → Option α) : Nat → Raw → Option (Keyed α)
  | depth + 1, .object members =>
      (members.mapM fun (member : Option String × Raw) => do
        return (← member.1, ← read depth member.2)).map Keyed.ofPairs
  | _, _ => none

/-! ## Records -/

/-- An argument record. -/
def ArgumentRecord.ofRaw? : Nat → Raw → Option ArgumentRecord
  | 0, _ => none
  | _ + 1, raw => do
      let parts ← parts? argumentKeys raw
      let name ← required? text? (parts.lookup "name")
      let kinds ← ((parts.lookup "type").elim (some 0) (natural? 4294967295))
      return { name, kinds := UInt32.ofNat kinds }

/-- One byte of code. -/
def byte? (raw : Raw) : Option UInt8 :=
  (natural? 255 raw).map UInt8.ofNat

/-- A proc record. -/
def ProcRecord.ofRaw? : Nat → Raw → Option ProcRecord
  | 0, _ => none
  | depth + 1, raw => do
      let parts ← parts? procKeys raw
      let bytecode ← optional? (items? (fun _ => byte?) depth) (parts.lookup "bytecode")
      let arguments ← optional? (items? ArgumentRecord.ofRaw? depth) (parts.lookup "arguments")
      return { bytecode, arguments }

/-- A class record, with room for containers of `depth` levels. -/
def ClassRecord.ofRaw? (depth : Nat) (raw : Raw) : Option ClassRecord :=
  match depth with
  | 0 => none
  | depth + 1 => do
      let parts ← parts? classKeys raw
      let name ← required? text? (parts.lookup "name")
      let parent ← optional? text? (parts.lookup "parent")
      let vars ← optional? (table? Value.ofRaw? depth) (parts.lookup "variables")
      let globals ← optional? (table? Value.ofRaw? depth) (parts.lookup "globalVariables")
      let procs ← optional? (table? (items? ProcRecord.ofRaw?) depth) (parts.lookup "procs")
      let initProc ← optional? (ProcRecord.ofRaw? depth) (parts.lookup "initProc")
      let children ←
        match parts.lookup "children" with
        | none | some .null => some none
        | some (.array items) =>
            match depth with
            | 0 => none
            | depth + 1 => (items.mapM (ClassRecord.ofRaw? depth)).map some
        | some _ => none
      return { name, parent, vars, globals, procs, initProc, children }
termination_by structural depth

/-- The record of a text. -/
def ClassRecord.parse? (text : String) : Option ClassRecord :=
  (Raw.parse? text).bind (ClassRecord.ofRaw? Json.depthLimit)

end DreamWorld.Document
