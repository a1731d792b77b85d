import DreamWorld.Document.Printer
import DreamWorld.Document.Reader
import DreamWorld.Proofs.Json.Rereading
import Mathlib

/-!
# Writing a document and reading it again

A record that was read from a text can be written, and the text that is written is read as
the same record.  This is put together from the parts of records: each reader of a part fits
with the way the part is written.
-/

namespace DreamWorld.Document

open Json (Raw Value Rereads rawItems rawMembers tableMembers numberKey)

/-! ## Parts of records -/

section

variable {keys : List String} {raw : Raw} {members : List (String × Value)} {key other : String}

/-- The known members of an object are members of it. -/
theorem mem_of_mem_knownMembers? {members : List (Option String × Raw)}
    {parts : List (String × Raw)} (found : knownMembers? keys members = some parts) :
    ∀ part ∈ parts, (some part.1, part.2) ∈ members := by
  induction members generalizing parts with
  | nil =>
      cases found
      exact List.forall_mem_nil _
  | cons member rest ih =>
      rcases member with ⟨_ | key, value⟩
      · cases found
      · rw [knownMembers?] at found
        cases restFound : knownMembers? keys rest with
        | none =>
            rw [restFound] at found
            cases found
        | some restParts =>
            have inRest := ih restFound
            rw [restFound] at found
            dsimp only at found
            split at found
            · cases found
              exact fun part mem => List.mem_cons_of_mem _ (inRest part mem)
            · split at found
              · cases found
              · cases found
                refine List.forall_mem_cons.mpr ⟨List.mem_cons_self, ?_⟩
                exact fun part mem => List.mem_cons_of_mem _ (inRest part mem)

/-- The parts of a sound value are sound. -/
theorem sound_of_parts? {parts : List (String × Raw)} (sound : raw.Sound)
    (found : parts? keys raw = some parts) {part : Raw} (listed : parts.lookup key = some part) :
    part.Sound := by
  obtain ⟨before, after, rfl, _⟩ := List.lookup_eq_some_iff.mp listed
  have mem : (key, part) ∈ before ++ (key, part) :: after :=
    List.mem_append_right before List.mem_cons_self
  unfold parts? at found
  split at found
  · exact (Raw.every_object_iff.mp sound _ (mem_of_mem_knownMembers? found _ mem)).2
  · split at found
    · rw [← Option.some.inj found] at mem
      exact Raw.every_array_iff.mp sound part (List.of_mem_zip mem).2
    · cases found
  · cases found

/-- The parts of a record as they are read from its members. -/
def writtenParts (members : List (String × Value)) : List (String × Raw) :=
  members.map fun member => (member.1, member.2.toRaw)

theorem lookup_writtenParts (members : List (String × Value)) (key : String) :
    (writtenParts members).lookup key = (members.lookup key).map Value.toRaw := by
  induction members with
  | nil => rfl
  | cons member rest ih =>
      rw [writtenParts, List.map_cons, List.lookup_cons, List.lookup_cons]
      cases key == member.1 with
      | true => rfl
      | false => exact ih

/-- Members with some of the known keys, each once, are read as parts. -/
theorem parts?_toRaw (distinct : keys.Nodup) (known : (members.map Prod.fst).Sublist keys) :
    parts? keys (Value.object members).toRaw = some (writtenParts members) := by
  change knownMembers? keys (rawMembers members) = _
  have ownDistinct := known.nodup distinct
  have ownKnown : ∀ member ∈ members, member.1 ∈ keys := fun member mem =>
    known.subset (List.mem_map_of_mem mem)
  clear known
  induction members with
  | nil => rfl
  | cons member rest ih =>
      rcases member with ⟨key, value⟩
      rcases List.nodup_cons.mp ownDistinct with ⟨fresh, restDistinct⟩
      rcases List.forall_mem_cons.mp ownKnown with ⟨keyKnown, restKnown⟩
      have unlisted : (writtenParts rest).lookup key = none := by
        rw [lookup_writtenParts, Option.map_eq_none_iff, List.lookup_eq_none_iff]
        intro listed mem
        rw [bne_iff_ne]
        rintro rfl
        exact fresh (List.mem_map.mpr ⟨listed, mem, rfl⟩)
      rw [rawMembers, knownMembers?, ih restDistinct restKnown]
      dsimp only
      rw [unlisted, if_neg (by simpa using keyKnown), if_neg (by simp)]
      rfl

/-! ### Optional parts -/

variable {α : Type} {read : Raw → Option α} {write : α → Value} {part : Option α}

theorem keys_present_sublist (key : String) (write : α → Value) (part : Option α) :
    ((present key write part).map Prod.fst).Sublist [key] := by
  cases part with
  | none => exact List.nil_sublist _
  | some _ => exact .refl _

theorem lookup_present (key other : String) (write : α → Value) (part : Option α) :
    (present key write part).lookup other = if other = key then part.map write else none := by
  cases part with
  | none => simp [present]
  | some value =>
      rw [present, List.lookup_cons, List.lookup_nil]
      by_cases same : other = key
      · rw [if_pos same, beq_iff_eq.mpr same, Option.map_some]
      · rw [if_neg same, beq_eq_false_iff_ne.mpr same]

theorem optional?_of_ne_null (present : raw ≠ .null) :
    optional? read (some raw) = (read raw).map some := by
  cases raw <;> first | rfl | exact absurd rfl present

/-- An optional part is read again, if the part is and is never written as null. -/
theorem rereads_optional (rereads : Rereads read write) (notNull : ∀ value, write value ≠ .null)
    {source : Option Raw} (sound : ∀ raw, source = some raw → raw.Sound)
    (partRead : optional? read source = some part) (key : String) :
    (∀ member ∈ present key write part, member.2.Literal) ∧
      optional? read ((part.map write).map Value.toRaw) = some part := by
  cases part with
  | none => exact ⟨List.forall_mem_nil _, rfl⟩
  | some value =>
      unfold optional? at partRead
      split at partRead
      · cases partRead
      · cases partRead
      · rename_i raw _
        rcases Option.map_eq_some_iff.mp partRead with ⟨same, valueRead, sameEq⟩
        cases sameEq
        rcases rereads raw value (sound raw rfl) valueRead with ⟨literal, again⟩
        have written : (write value).toRaw ≠ .null := by
          have kept := notNull value
          cases valueEq : write value <;> simp_all [Value.toRaw]
        refine ⟨List.forall_mem_singleton.mpr literal, ?_⟩
        rw [Option.map_some, Option.map_some, optional?_of_ne_null written, again, Option.map_some]

end

/-! ## Readers of parts -/

theorem rereads_text : Rereads text? .text := by
  intro raw content _ read
  unfold text? at read
  split at read
  · cases read
    exact ⟨.text content, rfl⟩
  · cases read

/-- A natural number within the limit is read again from its numeral. -/
theorem natural?_numeral {limit value : Nat} (inLimit : value ≤ limit) :
    natural? limit (numeral value).toRaw = some value := by
  have digits : (Nat.repr value).toList.all Char.isDigit = true := by
    rw [Nat.repr_eq_ofList_toDigits, String.toList_ofList, List.all_eq_true]
    exact (Json.Token.isDigits_toDigits value).2
  unfold numeral Value.toRaw natural?
  dsimp only
  rw [if_pos digits, Nat.toNat?_repr]
  simp [inLimit]

theorem literal_numeral (value : Nat) : (numeral value).Literal :=
  .number (Json.Token.isLiteral_repr value)

theorem rereads_byte : Rereads byte? fun byte => numeral byte.toNat := by
  intro raw byte _ _
  refine ⟨literal_numeral byte.toNat, ?_⟩
  rw [byte?, natural?_numeral (Nat.le_of_lt_succ byte.toNat_lt), Option.map_some,
    UInt8.ofNat_toNat]

section

variable {α : Type} {read : Nat → Raw → Option α} {write : α → Value} {depth : Nat}

/-- The elements of an array are read again, if each of them is. -/
theorem rereads_items (rereads : ∀ smaller, smaller < depth → Rereads (read smaller) write) :
    Rereads (items? read depth) fun values => .array (values.map write) := by
  intro raw values sound itemsRead
  unfold items? at itemsRead
  split at itemsRead
  · rename_i smaller items
    rcases (rereads smaller (Nat.lt_succ_self smaller)).items sound itemsRead with
      ⟨literal, again⟩
    exact ⟨literal, again⟩
  · cases itemsRead

/-- The table of an object is read again, if each of its values is. -/
theorem rereads_table (rereads : ∀ smaller, smaller < depth → Rereads (read smaller) write) :
    Rereads (table? read depth) fun table => .object (tableMembers write table) := by
  intro raw table sound tableRead
  unfold table? at tableRead
  split at tableRead
  · rename_i smaller members
    rcases Option.map_eq_some_iff.mp tableRead with ⟨entries, run, rfl⟩
    obtain ⟨literal, _, again⟩ :=
      (rereads smaller (Nat.lt_succ_self smaller)).members sound run
    exact ⟨literal, again⟩
  · cases tableRead

end

/-! ## Records -/

/-- Arguments are read again from what is written. -/
theorem rereads_argument (depth : Nat) :
    Rereads (ArgumentRecord.ofRaw? depth) ArgumentRecord.toJson := by
  intro raw argument _ read
  cases depth with
  | zero => cases read
  | succ depth =>
      have partsRead : parts? argumentKeys argument.toJson.toRaw = some (writtenParts
          [("name", .text argument.name), ("type", numeral argument.kinds.toNat)]) :=
        parts?_toRaw (by decide) (.refl _)
      have kinds := natural?_numeral (Nat.le_of_lt_succ argument.kinds.toNat_lt)
      constructor
      · refine .object (List.forall_mem_cons.mpr ⟨.text _, List.forall_mem_singleton.mpr ?_⟩)
        exact literal_numeral _
      · rw [ArgumentRecord.ofRaw?, partsRead]
        simp only [Option.bind_eq_bind, Option.bind_some, lookup_writtenParts]
        have nameListed : List.lookup "name" [("name", Value.text argument.name),
            ("type", numeral argument.kinds.toNat)] = some (.text argument.name) := rfl
        have kindsListed : List.lookup "type" [("name", Value.text argument.name),
            ("type", numeral argument.kinds.toNat)] = some (numeral argument.kinds.toNat) := rfl
        rw [nameListed, kindsListed, Option.map_some, Option.map_some, Option.elim_some, kinds]
        simp [required?, text?, Value.toRaw]

/-- Procs are read again from what is written. -/
theorem rereads_proc (depth : Nat) : Rereads (ProcRecord.ofRaw? depth) ProcRecord.toJson := by
  intro raw proc sound read
  cases depth with
  | zero => cases read
  | succ depth =>
      simp only [ProcRecord.ofRaw?, Option.bind_eq_bind, Option.bind_eq_some_iff,
        Option.pure_def, Option.some.injEq] at read
      obtain ⟨parts, partsRead, bytecode, bytecodeRead, arguments, argumentsRead, rfl⟩ := read
      obtain ⟨bytecodeLiteral, bytecodeAgain⟩ :=
        rereads_optional (rereads_items fun _ _ => rereads_byte) (fun _ => nofun)
          (fun _ => sound_of_parts? sound partsRead) bytecodeRead "bytecode"
      obtain ⟨argumentsLiteral, argumentsAgain⟩ :=
        rereads_optional (rereads_items fun smaller _ => rereads_argument smaller)
          (fun _ => nofun) (fun _ => sound_of_parts? sound partsRead) argumentsRead "arguments"
      have written : parts? procKeys (ProcRecord.toJson ⟨bytecode, arguments⟩).toRaw =
          some (writtenParts _) := parts?_toRaw (by decide) (by
            rw [List.map_append]
            exact (keys_present_sublist _ _ _).append (keys_present_sublist _ _ _))
      constructor
      · exact .object (List.forall_mem_append.mpr ⟨bytecodeLiteral, argumentsLiteral⟩)
      · rw [ProcRecord.ofRaw?, written]
        simp only [lookup_writtenParts, List.lookup_append, lookup_present, reduceIte,
          String.reduceEq, Option.or_none, Option.none_or, Option.bind_eq_bind, Option.bind_some,
          bytecodeAgain, argumentsAgain, Option.pure_def]

theorem toJsonAll_eq_map (records : List ClassRecord) :
    toJsonAll records = records.map ClassRecord.toJson := by
  induction records with
  | nil => rfl
  | cons record rest ih => exact congrArg (record.toJson :: ·) ih

theorem childrenMember_eq_present (children : Option (List ClassRecord)) :
    childrenMember children =
      present "children" (fun records => .array (records.map ClassRecord.toJson)) children := by
  cases children with
  | none => rfl
  | some records => rw [childrenMember, toJsonAll_eq_map, present]

/-- The records within a record are read as an optional part. -/
theorem ofRaw?_succ (depth : Nat) (raw : Raw) :
    ClassRecord.ofRaw? (depth + 1) raw = do
      let parts ← parts? classKeys raw
      let name ← required? text? (parts.lookup "name")
      let parent ← optional? text? (parts.lookup "parent")
      let vars ← optional? (table? Value.ofRaw? depth) (parts.lookup "variables")
      let globals ← optional? (table? Value.ofRaw? depth) (parts.lookup "globalVariables")
      let procs ← optional? (table? (items? ProcRecord.ofRaw?) depth) (parts.lookup "procs")
      let initProc ← optional? (ProcRecord.ofRaw? depth) (parts.lookup "initProc")
      let children ← optional? (items? ClassRecord.ofRaw? depth) (parts.lookup "children")
      return { name, parent, vars, globals, procs, initProc, children } := by
  rw [ClassRecord.ofRaw?]
  congr 1
  funext parts
  iterate 6
    congr 1
    funext
  rcases parts.lookup "children" with _ | (_ | _ | _ | _ | items | _)
  all_goals first | rfl | (cases depth <;> rfl)

/-- Tables of constants are read again from what is written. -/
theorem rereads_constants (depth : Nat) :
    Rereads (table? Value.ofRaw? depth) Value.object := by
  have rereads : Rereads (table? Value.ofRaw? depth) fun table =>
      .object (tableMembers id table) :=
    rereads_table fun smaller _ => Value.rereads_ofRaw? smaller
  simpa only [Json.tableMembers_id] using rereads

/-- Tables of procs are read again from what is written. -/
theorem rereads_procs (depth : Nat) :
    Rereads (table? (items? ProcRecord.ofRaw?) depth) procTable :=
  rereads_table fun _ _ => rereads_items fun smaller _ => rereads_proc smaller

/-- The members that are written of a record. -/
def ClassRecord.members (record : ClassRecord) : List (String × Value) :=
  present "name" .text (some record.name) ++ present "parent" .text record.parent ++
    present "variables" .object record.vars ++
    present "globalVariables" .object record.globals ++
    present "procs" procTable record.procs ++
    present "initProc" ProcRecord.toJson record.initProc ++
    present "children" (fun records => .array (records.map ClassRecord.toJson)) record.children

theorem ClassRecord.toJson_eq (record : ClassRecord) : record.toJson = .object record.members := by
  rcases record with ⟨name, parent, vars, globals, procs, initProc, children⟩
  rw [ClassRecord.toJson, childrenMember_eq_present]
  rfl

theorem ClassRecord.parts?_members (record : ClassRecord) :
    parts? classKeys record.toJson.toRaw = some (writtenParts record.members) := by
  rw [record.toJson_eq]
  apply parts?_toRaw (by decide)
  simp only [ClassRecord.members, List.map_append]
  have inOrder : classKeys = ["name"] ++ ["parent"] ++ ["variables"] ++ ["globalVariables"] ++
    ["procs"] ++ ["initProc"] ++ ["children"] := rfl
  rw [inOrder]
  repeat' apply List.Sublist.append
  all_goals first | exact .refl _ | exact keys_present_sublist _ _ _

/-- Class records are read again from what is written. -/
theorem rereads_class (depth : Nat) :
    Rereads (ClassRecord.ofRaw? depth) ClassRecord.toJson := by
  induction depth using Nat.strongRecOn with
  | _ depth ih =>
      intro raw record sound read
      cases depth with
      | zero =>
          rw [ClassRecord.ofRaw?] at read
          cases read
      | succ depth =>
          rw [ofRaw?_succ] at read
          simp only [Option.bind_eq_bind, Option.bind_eq_some_iff, Option.pure_def,
            Option.some.injEq] at read
          obtain ⟨parts, partsRead, name, nameRead, parent, parentRead, vars, varsRead, globals,
            globalsRead, procs, procsRead, initProc, initProcRead, children, childrenRead, rfl⟩ :=
            read
          have partSound {key : String} {part : Raw} (listed : parts.lookup key = some part) :=
            sound_of_parts? sound partsRead listed
          obtain ⟨parentLiteral, parentAgain⟩ := rereads_optional rereads_text (fun _ => nofun)
            (fun _ => partSound) parentRead "parent"
          obtain ⟨varsLiteral, varsAgain⟩ := rereads_optional (rereads_constants depth)
            (fun _ => nofun) (fun _ => partSound) varsRead "variables"
          obtain ⟨globalsLiteral, globalsAgain⟩ := rereads_optional (rereads_constants depth)
            (fun _ => nofun) (fun _ => partSound) globalsRead "globalVariables"
          obtain ⟨procsLiteral, procsAgain⟩ := rereads_optional (rereads_procs depth)
            (fun _ => nofun) (fun _ => partSound) procsRead "procs"
          obtain ⟨initProcLiteral, initProcAgain⟩ := rereads_optional (rereads_proc depth)
            (fun _ => nofun) (fun _ => partSound) initProcRead "initProc"
          obtain ⟨childrenLiteral, childrenAgain⟩ := rereads_optional
            (rereads_items fun smaller before => ih smaller (Nat.lt_succ_of_lt before))
            (fun _ => nofun) (fun _ => partSound) childrenRead "children"
          constructor
          · rw [ClassRecord.toJson_eq]
            refine .object ?_
            simp only [ClassRecord.members, List.forall_mem_append]
            have nameLiteral : ∀ member ∈ present "name" Value.text (some name),
                member.2.Literal := List.forall_mem_singleton.mpr (.text name)
            exact ⟨⟨⟨⟨⟨⟨nameLiteral, parentLiteral⟩, varsLiteral⟩, globalsLiteral⟩, procsLiteral⟩,
              initProcLiteral⟩, childrenLiteral⟩
          · have nameAgain :
                required? text? (((some name).map Value.text).map Value.toRaw) = some name := rfl
            rw [ofRaw?_succ, ClassRecord.parts?_members]
            simp only [ClassRecord.members, lookup_writtenParts, List.lookup_append,
              lookup_present, reduceIte, String.reduceEq, Option.or_none, Option.none_or,
              Option.bind_eq_bind, Option.bind_some, nameAgain, parentAgain, varsAgain,
              globalsAgain, procsAgain, initProcAgain, childrenAgain, Option.pure_def]

/-! ## Texts -/

/-- If a record is read from a text in which no object has the reserved key, the text that is
written for the record is read as the same record. -/
theorem ClassRecord.parse?_toText {text : String} {record : ClassRecord}
    (parsed : ClassRecord.parse? text = some record)
    (unmarked : ∀ raw, Raw.parse? text = some raw → raw.Unmarked) :
    ClassRecord.parse? record.toText = some record := by
  rcases Option.bind_eq_some_iff.mp parsed with ⟨raw, rawParsed, read⟩
  have sound := (Raw.literal_of_parse? rawParsed).sound (unmarked raw rawParsed)
  rcases rereads_class Json.depthLimit raw record sound read with ⟨literal, again⟩
  rw [ClassRecord.parse?, ClassRecord.toText, literal.parse?_eq, Option.bind_some, again]

/-- A text with blanks, escapes, a repeated key, an unknown key, records written as arrays and
a literal that is not kept as it is written. -/
def crateText : String :=
  "\x7b \"name\": \"\", \"extra\": [1], \"parent\": null,\n" ++
  " \"variables\": \x7b\"size\": 1.5E3, \"label\": \"\\u0041\\n\", \"size\": 2E1\x7d,\n" ++
  " \"procs\": \x7b\"Open\": [[[1, 2]], \x7b\x7d]\x7d, \"children\": [[\"lid\"]] \x7d"

/-- What the text spells. -/
def crateRaw : Raw :=
  .object [(some "name", .text (some "")), (some "extra", .array [.number "1"]),
    (some "parent", .null),
    (some "variables", .object [(some "size", .number "1.5e+3"),
      (some "label", .text (some "A\n")), (some "size", .number "2e+1")]),
    (some "procs", .object [(some "Open", .array
      [.array [.array [.number "1", .number "2"]], .object []])]),
    (some "children", .array [.array [.text (some "lid")]])]

def crateRecord : ClassRecord where
  name := ""
  vars := some [("label", .text "A\n"), ("size", .number "2e+1")]
  procs := some [("Open", [{ bytecode := some [1, 2] }, {}])]
  children := some [{ name := "lid" }]

/-- The record of the sample, which its text does not write as a writer would, is read again
from what is written. -/
theorem ClassRecord.parse?_toText_crateText :
    ClassRecord.parse? crateText = some crateRecord ∧
      ClassRecord.parse? crateRecord.toText = some crateRecord := by
  have spelled : Raw.parse? crateText = some crateRaw := by cbv
  have parsed : ClassRecord.parse? crateText = some crateRecord := by
    rw [ClassRecord.parse?, spelled]
    cbv
  refine ⟨parsed, parse?_toText parsed ?_⟩
  intro raw rawParsed
  rw [spelled] at rawParsed
  cases rawParsed
  simp [Raw.Unmarked, crateRaw, Raw.every_array_iff, Raw.every_object_iff, Raw.Every.number,
    Raw.Every.text, Raw.Every.null, numberKey]

end DreamWorld.Document
