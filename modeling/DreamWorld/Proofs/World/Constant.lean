import DreamWorld.Proofs.Json.Rereading
import DreamWorld.Proofs.Json.Spelling
import DreamWorld.Proofs.Number.Integer
import DreamWorld.Proofs.World.LoadAction

/-!
# Which constants have a value

Every number that a text can write has a value: a float if it is written with a point, and
otherwise an integer, which is exact where that is possible and the greatest integer where
it is not.  Any other constant has a value if it is a string, an object of one of the tags,
or an object that names a resource which the loader finds.  The loader is asked for nothing
but this resource, and once.
-/

namespace DreamWorld

open Json.Token (IsDigits)
open Numeral (placeValue)

variable {σ : Type}

/-- A loader that also remembers what it was asked for, in order. -/
def ResourceLoader.recording (loader : ResourceLoader σ) : ResourceLoader (σ × List String) where
  load path memory :=
    let answered := loader.load path memory.1
    (answered.1, answered.2, memory.2 ++ [path])

namespace Constant

variable {json : Json.Value} {members : Keyed Json.Value} {tag other : Nat}
  {path literal : String}

/-! ## Constants and the loader -/

/-- A text that spells a natural number of 64 bits. -/
def IsWord (value : Nat) (literal : String) : Prop :=
  (∃ digits, (literal.toList = digits ∨ literal.toList = '+' :: digits) ∧ IsDigits digits ∧
    placeValue digits = value) ∧ value < 2 ^ 64

/-- The members of an object of a tag. -/
def HasTag (members : Keyed Json.Value) (tag : Nat) : Prop :=
  ∃ literal, members.find? "type" = some (.number literal) ∧ IsWord tag literal

/-- An object that names a resource to load. -/
def Requests (json : Json.Value) (path : String) : Prop :=
  ∃ members : Keyed Json.Value, json = .object members ∧ HasTag members 0 ∧
    members.find? "resourcePath" = some (.text path)

/-- A constant other than a number that has a value whatever a loader knows. -/
inductive Settled : Json.Value → Prop
  | text (content : String) : Settled (.text content)
  | null {members : Keyed Json.Value} : HasTag members 1 → Settled (.object members)
  | path {members : Keyed Json.Value} {content : String} :
      HasTag members 2 → members.find? "value" = some (.text content) →
      Settled (.object members)
  | noResource {members : Keyed Json.Value} :
      HasTag members 0 → members.find? "resourcePath" = some .null → Settled (.object members)

theorem isWord_iff : tag? (.number literal) = some tag ↔ IsWord tag literal := by
  rw [tag?, Option.filter_eq_some_iff, Numeral.readNatural?_eq_some_iff, decide_eq_true_iff]
  rfl

theorem hasTag_iff : (members.find? "type").bind tag? = some tag ↔ HasTag members tag := by
  rw [Option.bind_eq_some_iff]
  constructor
  · rintro ⟨value, found, tagged⟩
    cases value with
    | number literal => exact ⟨literal, found, isWord_iff.mp tagged⟩
    | null | bool | text | array | object => cases tagged
  · rintro ⟨literal, found, isWord⟩
    exact ⟨_, found, isWord_iff.mpr isWord⟩

theorem HasTag.unique (hasTag : HasTag members tag) (hasOther : HasTag members other) :
    tag = other := by
  rw [← hasTag_iff] at hasTag hasOther
  exact Option.some.inj (hasTag.symm.trans hasOther)

theorem Requests.unique {next : String} (requests : Requests json path)
    (requestsNext : Requests json next) : path = next := by
  rcases requests with ⟨members, rfl, _, found⟩
  rcases requestsNext with ⟨_, ⟨⟩, _, foundNext⟩
  cases found.symm.trans foundNext
  rfl

theorem settled_object_iff (hasTag : HasTag members tag) :
    Settled (.object members) ↔
      tag = 1 ∨ (tag = 2 ∧ ∃ content, members.find? "value" = some (.text content)) ∨
        (tag = 0 ∧ members.find? "resourcePath" = some .null) := by
  constructor
  · intro settled
    cases settled with
    | null other => exact .inl (hasTag.unique other)
    | path other found => exact .inr (.inl ⟨hasTag.unique other, _, found⟩)
    | noResource other found => exact .inr (.inr ⟨hasTag.unique other, found⟩)
  · rintro (rfl | ⟨rfl, content, found⟩ | ⟨rfl, found⟩)
    · exact .null hasTag
    · exact .path hasTag found
    · exact .noResource hasTag found

theorem Requests.not_settled (requests : Requests json path) : ¬ Settled json := by
  rcases requests with ⟨members, rfl, hasTag, found⟩
  rw [settled_object_iff hasTag, found]
  simp

/-! ## Tagged objects -/

theorem decode_of_resourceTag (hasTag : HasTag members 0) (loader : ResourceLoader σ) :
    decode loader (.object members) =
      match members.find? "resourcePath" with
      | some (.text path) => return .resource (← loadResource loader path)
      | some .null => return .null
      | some _ => throw .invalidResourcePath
      | none => throw (.missingProperty "resourcePath") := by
  rw [decode, ofMembers, hasTag_iff.mpr hasTag]
  exact if_pos rfl

theorem decode_of_pathTag (hasTag : HasTag members 2) (loader : ResourceLoader σ) :
    decode loader (.object members) =
      match members.find? "value" with
      | some (.text path) => return .path (Path.parse path)
      | _ => throw (.missingProperty "value") := by
  rw [decode, ofMembers, hasTag_iff.mpr hasTag]
  rfl

/-- An object that names a resource is what the loader answers for it. -/
theorem run_decode_of_requests (requests : Requests json path) (loader : ResourceLoader σ)
    (memory : σ) :
    (decode loader json).run memory =
      (((loader.load path memory).1.map Value.resource).mapError LoadError.resource,
        (loader.load path memory).2) := by
  rcases requests with ⟨members, rfl, hasTag, found⟩
  have asked : (loadResource loader path).run memory =
      ((loader.load path memory).1.mapError LoadError.resource, (loader.load path memory).2) := by
    unfold loadResource ExceptT.run
    beta_reduce
    rcases loader.load path memory with ⟨_ | _, last⟩ <;> rfl
  rw [decode_of_resourceTag hasTag, found]
  dsimp only
  rcases loaded : loader.load path memory with ⟨error | resource, last⟩
  · rw [loaded] at asked
    rw [LoadAction.run_bind_of_error asked]
    rfl
  · rw [loaded] at asked
    rw [LoadAction.run_bind_of_ok asked]
    rfl

/-- A constant that runs to one outcome without the loader. -/
def RunsTo (json : Json.Value) (outcome : Except LoadError Value) : Prop :=
  ∀ {τ : Type} (loader : ResourceLoader τ) (memory : τ),
    (decode loader json).run memory = (outcome, memory)

/-- A constant has a value without the loader, or fails without it. -/
def Decides (json : Json.Value) : Prop :=
  (Settled json ∧ ∃ value, RunsTo json (.ok value)) ∨
    (¬ Settled json ∧ ∃ error, RunsTo json (.error error))

/-- Objects of the tag of resources, by what they have in place of a path. -/
theorem decides_of_resourceTag (hasTag : HasTag members 0)
    (noRequest : ∀ path, ¬ Requests (.object members) path) : Decides (.object members) := by
  unfold Decides RunsTo
  simp only [decode_of_resourceTag hasTag]
  rw [settled_object_iff hasTag]
  cases found : members.find? "resourcePath" with
  | none => exact .inr ⟨by simp, .missingProperty "resourcePath", fun _ _ => rfl⟩
  | some value =>
      cases value with
      | text path => exact absurd ⟨members, rfl, hasTag, found⟩ (noRequest path)
      | null => exact .inl ⟨.inr (.inr ⟨rfl, rfl⟩), .null, fun _ _ => rfl⟩
      | number | bool | array | object =>
          exact .inr ⟨by simp, .invalidResourcePath, fun _ _ => rfl⟩

/-- Objects of the tag of paths, by whether they have a string in place of a path. -/
theorem decides_of_pathTag (hasTag : HasTag members 2) : Decides (.object members) := by
  unfold Decides RunsTo
  simp only [decode_of_pathTag hasTag]
  rw [settled_object_iff hasTag]
  split
  · rename_i content found
    exact .inl ⟨.inr (.inl ⟨rfl, content, found⟩), .path (Path.parse content), fun _ _ => rfl⟩
  · rename_i notText
    refine .inr ⟨?_, .missingProperty "value", fun _ _ => rfl⟩
    rintro (null | ⟨_, content, found⟩ | ⟨resource, _⟩)
    · cases null
    · exact notText content found
    · cases resource

/-- Objects of any other tag. -/
theorem decides_of_otherTag (hasTag : HasTag members tag) (notResource : tag ≠ 0)
    (notPath : tag ≠ 2) : Decides (.object members) := by
  have tagged := hasTag_iff.mpr hasTag
  unfold Decides
  rw [settled_object_iff hasTag]
  by_cases null : tag = 1
  · refine .inl ⟨.inl null, .null, fun loader memory => ?_⟩
    rw [decode, ofMembers, tagged]
    dsimp only
    rw [if_neg (show tag ≠ resourceTag from notResource), if_pos (show tag = nullTag from null)]
    rfl
  · refine .inr ⟨by simp [null, notResource, notPath], .invalidVariableType tag, ?_⟩
    intro τ loader memory
    rw [decode, ofMembers, tagged]
    dsimp only
    rw [if_neg (show tag ≠ resourceTag from notResource), if_neg (show tag ≠ nullTag from null),
      if_neg (show tag ≠ pathTag from notPath)]
    rfl

theorem decides_object (members : Keyed Json.Value)
    (noRequest : ∀ path, ¬ Requests (.object members) path) : Decides (.object members) := by
  cases tagged : (members.find? "type").bind tag? with
  | some tag =>
      have hasTag := hasTag_iff.mp tagged
      by_cases resource : tag = 0
      · exact decides_of_resourceTag (resource ▸ hasTag) noRequest
      · by_cases path : tag = 2
        · exact decides_of_pathTag (path ▸ hasTag)
        · exact decides_of_otherTag hasTag resource path
  | none =>
      have untagged (tag : Nat) : ¬ HasTag members tag := by
        rw [← hasTag_iff, tagged]
        nofun
      refine .inr ⟨fun settled => ?_, .missingProperty "type", fun loader memory => ?_⟩
      · cases settled with
        | null hasTag | path hasTag _ | noResource hasTag _ => exact untagged _ hasTag
      · rw [decode, ofMembers, tagged]
        rfl

/-- Any constant but a number that asks for no resource has its value, or fails, without the
loader. -/
theorem decides_of_noRequest (notNumber : ∀ literal, json ≠ .number literal)
    (noRequest : ∀ path, ¬ Requests json path) : Decides json := by
  cases json with
  | number literal => exact absurd rfl (notNumber literal)
  | text content => exact .inl ⟨.text content, .text content, fun _ _ => rfl⟩
  | null => exact .inr ⟨nofun, .invalidValueKind "null", fun _ _ => rfl⟩
  | bool value => exact .inr ⟨nofun, .invalidValueKind "bool", fun _ _ => rfl⟩
  | array items => exact .inr ⟨nofun, .invalidValueKind "array", fun _ _ => rfl⟩
  | object members => exact decides_object members noRequest

/-! ## Numbers -/

/-- What a number without a fraction stands for exactly, if it has no exponent and its value
is that of an integer of 32 bits, and the greatest of these integers otherwise. -/
def saturatedValue (number : Json.NumberSpelling) : Int :=
  if number.exponent = none ∧ -2 ^ 31 ≤ number.wholeValue ∧ number.wholeValue ≤ 2 ^ 31 - 1
  then number.wholeValue
  else 2 ^ 31 - 1

/-- What a written number is read as: a float if it has a fraction, and otherwise an
integer, which is exact if there is no exponent and the value fits. -/
theorem ofLiteral_literal (number : Json.NumberSpelling) :
    ofLiteral number.literal =
      if number.fraction.isSome then .ok (.float number.numeral.toSingle)
      else .ok (.integer (integerOfLiteral number.literal.toList)) := by
  have contains : number.literal.toList.contains '.' = number.fraction.isSome := by
    rw [Bool.eq_iff_iff, List.contains_iff_mem, number.point_mem_literal_iff]
  rw [ofLiteral, contains]
  split
  · rw [number.read?_literal]
  · rfl

/-- An exact value that does not fit gives way to the greatest integer. -/
theorem toInt_getD_ofInt? (value : Int) :
    ((Integer.ofInt? value).getD (Int32.ofInt Integer.greatest)).toInt =
      if -2 ^ 31 ≤ value ∧ value ≤ 2 ^ 31 - 1 then value else 2 ^ 31 - 1 := by
  have inRange : (Integer.ofInt? value).isSome = true ↔
      -2 ^ 31 ≤ value ∧ value ≤ 2 ^ 31 - 1 := Integer.isSome_ofInt?_iff
  rw [← if_congr inRange rfl rfl]
  cases fits : Integer.ofInt? value with
  | none => rfl
  | some result => exact Integer.ofInt?_eq_some_iff.mp fits

theorem toInt_integerOfLiteral (number : Json.NumberSpelling)
    (noFraction : number.fraction = none) :
    (integerOfLiteral number.literal.toList).toInt = saturatedValue number := by
  rw [integerOfLiteral, number.readInteger?_literal noFraction, saturatedValue]
  cases number.exponent with
  | none => simpa using toInt_getD_ofInt? number.wholeValue
  | some exponent => rfl

/-- A written number always has a value, and the loader is not asked for it. -/
theorem run_decode_literal (number : Json.NumberSpelling) (loader : ResourceLoader σ)
    (memory : σ) :
    ∃ value, (decode loader (.number number.literal)).run memory = (.ok value, memory) ∧
      ((∃ single, value = .float single) ↔ '.' ∈ number.text.toList) ∧
      ('.' ∉ number.text.toList → ∃ integer, value = .integer integer ∧
        integer.toInt = saturatedValue number) := by
  have outcome := ofLiteral_literal number
  have runs : (decode loader (.number number.literal)).run memory =
      (ofLiteral number.literal, memory) := rfl
  rw [runs, outcome, number.point_mem_text_iff]
  cases fraction : number.fraction with
  | some digits => exact ⟨_, rfl, by simp, by simp⟩
  | none => exact ⟨_, rfl, by simp, fun _ => ⟨_, rfl, toInt_integerOfLiteral number fraction⟩⟩

/-- The numbers that a value may hold are the literals of written numbers. -/
theorem literal_number_iff :
    Json.Value.Literal (.number literal) ↔
      ∃ number : Json.NumberSpelling, number.literal = literal := by
  have spelled : Json.Token.IsLiteral literal.toList ↔
      ∃ number : Json.NumberSpelling, number.literal.toList = literal.toList :=
    Json.NumberSpelling.isLiteral_iff
  simp only [String.toList_inj] at spelled
  rw [← spelled]
  constructor
  · intro holds
    cases holds with
    | number isLiteral => exact isLiteral
  · exact .number

/-! ## Every constant -/

theorem exists_runsTo (noRequest : ∀ path, ¬ Requests json path) :
    ∃ outcome, RunsTo json outcome := by
  by_cases number : ∃ literal, json = .number literal
  · rcases number with ⟨literal, rfl⟩
    exact ⟨ofLiteral literal, fun _ _ => rfl⟩
  · rcases decides_of_noRequest (fun literal same => number ⟨literal, same⟩) noRequest with
      ⟨_, value, runs⟩ | ⟨_, error, runs⟩
    · exact ⟨.ok value, runs⟩
    · exact ⟨.error error, runs⟩

/-- A loader that remembers what it was asked for shows that the resource which a constant
requests is asked for once, and nothing else is. -/
theorem run_decode_recording (loader : ResourceLoader σ) (memory : σ) (json : Json.Value)
    (asked : List String) :
    ∃ requested, (decode loader.recording json).run (memory, asked) =
        (((decode loader json).run memory).1, ((decode loader json).run memory).2,
          asked ++ requested) ∧
      (∀ path, Requests json path → requested = [path]) ∧
      ((∀ path, ¬ Requests json path) → requested = []) := by
  by_cases requested : ∃ path, Requests json path
  · rcases requested with ⟨path, requests⟩
    refine ⟨[path], ?_, ?_, fun none => absurd requests (none path)⟩
    · rw [run_decode_of_requests requests, run_decode_of_requests requests]
      rfl
    · intro other requestsOther
      rw [requests.unique requestsOther]
  · have noRequest : ∀ path, ¬ Requests json path := fun path requests =>
      requested ⟨path, requests⟩
    rcases exists_runsTo noRequest with ⟨outcome, runs⟩
    refine ⟨[], ?_, fun path requests => absurd requests (noRequest path), fun _ => rfl⟩
    rw [runs, runs, List.append_nil]

/-- A constant other than a number has a value exactly if it is settled or requests a
resource that the loader finds. -/
theorem run_decode_eq_ok_iff (loader : ResourceLoader σ) (memory : σ)
    (notNumber : ∀ literal, json ≠ .number literal) :
    (∃ value last, (decode loader json).run memory = (.ok value, last)) ↔
      Settled json ∨
        ∃ path resource, Requests json path ∧ (loader.load path memory).1 = .ok resource := by
  by_cases requested : ∃ path, Requests json path
  · rcases requested with ⟨path, requests⟩
    rw [run_decode_of_requests requests, or_iff_right requests.not_settled]
    constructor
    · rintro ⟨value, last, run⟩
      cases loaded : (loader.load path memory).1 with
      | ok resource => exact ⟨path, resource, requests, loaded⟩
      | error error =>
          rw [loaded] at run
          cases run
    · rintro ⟨other, resource, requestsOther, loaded⟩
      rw [← requests.unique requestsOther] at loaded
      rw [loaded]
      exact ⟨_, _, rfl⟩
  · have noRequest : ∀ path, ¬ Requests json path := fun path requests =>
      requested ⟨path, requests⟩
    have noneLoaded : ¬ ∃ path resource, Requests json path ∧
        (loader.load path memory).1 = .ok resource := by
      rintro ⟨path, _, requests, _⟩
      exact noRequest path requests
    rw [or_iff_left noneLoaded]
    rcases decides_of_noRequest notNumber noRequest with
      ⟨settled, value, runs⟩ | ⟨unsettled, error, runs⟩
    · exact iff_of_true ⟨value, memory, runs loader memory⟩ settled
    · refine iff_of_false ?_ unsettled
      rintro ⟨value, last, run⟩
      rw [runs] at run
      cases run

/-- The numbers within a value that is read from a text are literals of written numbers, and
each of these literals is read.  Every number that a text can write has a value: a float exactly
if it is written with a point, and otherwise an integer, exact if it has no exponent and fits,
and else the greatest one.  Any other constant has a value exactly if it is settled or requests
a resource that the loader finds.  The loader is asked for a requested resource only, and
once. -/
theorem decode_spec (loader : ResourceLoader σ) (memory : σ) :
    ((∀ text json, Json.Value.parse? text = some json → json.Literal) ∧
      ∀ literal, Json.Value.Literal (.number literal) ↔
        ∃ number : Json.NumberSpelling, number.literal = literal) ∧
    (∀ number : Json.NumberSpelling,
      Json.Value.parse? number.text = some (.number number.literal) ∧
      ∃ value, (decode loader (.number number.literal)).run memory = (.ok value, memory) ∧
        ((∃ single, value = .float single) ↔ '.' ∈ number.text.toList) ∧
        ('.' ∉ number.text.toList → ∃ integer, value = .integer integer ∧
          integer.toInt = saturatedValue number)) ∧
    (∀ json, (∀ literal, json ≠ .number literal) →
      ((∃ value last, (decode loader json).run memory = (.ok value, last)) ↔
        Settled json ∨
          ∃ path resource, Requests json path ∧ (loader.load path memory).1 = .ok resource)) ∧
    (∀ json asked, ∃ requested, (decode loader.recording json).run (memory, asked) =
        (((decode loader json).run memory).1, ((decode loader json).run memory).2,
          asked ++ requested) ∧
      (∀ path, Requests json path → requested = [path]) ∧
      ((∀ path, ¬ Requests json path) → requested = [])) :=
  ⟨⟨fun _ _ parsed => Json.Value.literal_of_parse? parsed, fun _ => literal_number_iff⟩,
    fun number => ⟨number.parse?_text, run_decode_literal number loader memory⟩,
    fun _ notNumber => run_decode_eq_ok_iff loader memory notNumber,
    run_decode_recording loader memory⟩

/-- An object that names the resource `icons/mob.dmi`. -/
def iconConstant : Json.Value :=
  .object [("resourcePath", .text "icons/mob.dmi"), ("type", .number "0")]

theorem decode_spec_iconConstant :
    Requests iconConstant "icons/mob.dmi" ∧
      ∃ last, (decode (fileLoader "res").recording iconConstant).run ({}, []) =
        (.ok (.resource ⟨"icons/mob.dmi", "res/icons/mob.dmi"⟩), last, ["icons/mob.dmi"]) := by
  have requests : Requests iconConstant "icons/mob.dmi" :=
    ⟨_, rfl, hasTag_iff.mp (by decide), rfl⟩
  rcases (decode_spec (fileLoader "res") {}).2.2.2 iconConstant [] with ⟨requested, run, once, _⟩
  rw [once _ requests] at run
  exact ⟨requests, _, run⟩

end Constant

end DreamWorld
