import DreamWorld.Json.Basic
import DreamWorld.Json.Printer
import DreamWorld.Proofs.Json.Literal
import DreamWorld.Proofs.Json.Quote

/-!
# Compact texts

The text of a value is read as this value, as it is written there: cutting the text up gives
tokens from which the machine builds the value and nothing else.  The numbers of the value
must be literals as the reader keeps them.
-/

namespace DreamWorld.Json

open Token (IsLiteral scanFrom)

/-! ## Values as they are written -/

mutual

/-- A value as its text writes it. -/
def Value.toRaw : Value → Raw
  | .null => .null
  | .bool value => .bool value
  | .number literal => .number literal
  | .text content => .text (some content)
  | .array items => .array (rawItems items)
  | .object members => .object (rawMembers members)

def rawItems : List Value → List Raw
  | [] => []
  | item :: rest => item.toRaw :: rawItems rest

def rawMembers : List (String × Value) → List (Option String × Raw)
  | [] => []
  | (key, value) :: rest => (some key, value.toRaw) :: rawMembers rest

/-- The tokens of the text of a value. -/
def Value.tokens : Value → List Token
  | .null => [.null]
  | .bool value => [.bool value]
  | .number literal => [.number literal]
  | .text content => [.text (some content)]
  | .array items => .openArray :: List.intercalate [.comma] (itemTokens items) ++ [.closeArray]
  | .object members =>
      .openObject :: List.intercalate [.comma] (memberTokens members) ++ [.closeObject]

def itemTokens : List Value → List (List Token)
  | [] => []
  | item :: rest => item.tokens :: itemTokens rest

def memberTokens : List (String × Value) → List (List Token)
  | [] => []
  | (key, value) :: rest => (.text (some key) :: .colon :: value.tokens) :: memberTokens rest

end

/-- The numbers of a value are literals as the reader keeps them. -/
inductive Value.Literal : Value → Prop
  | null : Literal .null
  | bool (value : Bool) : Literal (.bool value)
  | number {literal : String} : IsLiteral literal.toList → Literal (.number literal)
  | text (content : String) : Literal (.text content)
  | array {items : List Value} : (∀ item ∈ items, Literal item) → Literal (.array items)
  | object {members : List (String × Value)} :
      (∀ member ∈ members, Literal member.2) → Literal (.object members)

theorem rawItems_eq_map (items : List Value) : rawItems items = items.map Value.toRaw := by
  induction items with
  | nil => rfl
  | cons item rest ih => exact congrArg (item.toRaw :: ·) ih

theorem rawMembers_eq_map (members : List (String × Value)) :
    rawMembers members = members.map fun member => (some member.1, member.2.toRaw) := by
  induction members with
  | nil => rfl
  | cons member rest ih => exact congrArg (_ :: ·) ih

theorem itemTokens_eq_map (items : List Value) : itemTokens items = items.map Value.tokens := by
  induction items with
  | nil => rfl
  | cons item rest ih => exact congrArg (item.tokens :: ·) ih

theorem memberTokens_eq_map (members : List (String × Value)) :
    memberTokens members =
      members.map fun member => .text (some member.1) :: .colon :: member.2.tokens := by
  induction members with
  | nil => rfl
  | cons member rest ih => exact congrArg (_ :: ·) ih

theorem textsOf_eq_map (items : List Value) : textsOf items = items.map Value.toText := by
  induction items with
  | nil => rfl
  | cons item rest ih => exact congrArg (item.toText :: ·) ih

theorem memberTexts_eq_map (members : List (String × Value)) :
    memberTexts members =
      members.map fun member => quote member.1 ++ ":" ++ member.2.toText := by
  induction members with
  | nil => rfl
  | cons member rest ih => exact congrArg (_ :: ·) ih

/-- Separated parts are the first one and then the others, each after a separator. -/
theorem intercalate_cons {α : Type} (separator : α) (first : List α) (later : List (List α)) :
    List.intercalate [separator] (first :: later) =
      first ++ later.flatMap (separator :: ·) := by
  induction later generalizing first with
  | nil => simp [List.intercalate]
  | cons second rest ih =>
      rw [List.flatMap_cons, List.cons_append, ← ih second]
      simp [List.intercalate]

/-! ## Cutting a text up -/

namespace Token

/-- A text that a comma or a bracket follows, or nothing. -/
def Closes (rest : List Char) : Prop :=
  ∀ c ∈ rest.head?, c = ',' ∨ c = ']' ∨ c = '\x7d'

/-- A text is cut up into tokens, whatever stands before it, if it is closed. -/
def Scans (chars : List Char) (tokens : List Token) : Prop :=
  ∀ rest found, Closes rest →
    scanFrom (chars ++ rest) found = scanFrom rest (tokens.reverse ++ found)

variable {c : Char} {chars rest left : List Char} {token : Token} {found : List Token}

theorem Closes.endsNumber (closes : Closes rest) : EndsNumber rest := by
  intro c mem
  rcases closes c mem with rfl | rfl | rfl <;> decide

theorem scanFrom_cons (notBlank : isBlank c = false) (next : next? (c :: rest) = some (token, left))
    (found : List Token) : scanFrom (c :: rest) found = scanFrom left (token :: found) := by
  rw [scanFrom, if_neg (by simp [notBlank])]
  split
  · rename_i same
    rw [next] at same
    cases same
    rfl
  · rename_i none
    rw [next] at none
    cases none

theorem scanFrom_quote (content : String) (rest : List Char) (found : List Token) :
    scanFrom ((quote content).toList ++ rest) found =
      scanFrom rest (.text (some content) :: found) := by
  rcases scanUnits_quote content with ⟨units, contentEq, scanned⟩
  have textEq : (quote content).toList ++ rest =
      '"' :: (content.toList.flatMap escape ++ '"' :: rest) := by
    simp [quote]
  rw [textEq]
  apply scanFrom_cons rfl
  change (scanUnits _ []).map _ = _
  rw [scanned, Option.map_some, ← contentEq]

/-- A literal is not taken for any other token. -/
theorem next?_of_isLiteral {literal : List Char} (isLiteral : IsLiteral literal)
    (ends : EndsNumber rest) :
    next? (literal ++ rest) = some (.number (String.ofList literal), rest) := by
  have scanned := scanNumber?_append isLiteral ends
  rcases isLiteral.exists_first with ⟨first, more, rfl, begins⟩
  exact next?_of_scanNumber? begins scanned

theorem scans_literal {literal : String} (isLiteral : IsLiteral literal.toList) :
    Scans literal.toList [.number literal] := by
  intro rest found closes
  have next := next?_of_isLiteral isLiteral closes.endsNumber
  rcases isLiteral.exists_first with ⟨first, more, literalEq, begins⟩
  rw [String.ofList_toList] at next
  rw [literalEq] at next ⊢
  exact scanFrom_cons (isBlank_of_begins begins) next found

theorem scans_quote (content : String) :
    Scans (quote content).toList [.text (some content)] :=
  fun rest found _ => scanFrom_quote content rest found

/-- Parts that are separated by commas are cut up one after another. -/
theorem scans_intercalate {parts : List (List Char)} {tokenLists : List (List Token)}
    (scans : List.Forall₂ Scans parts tokenLists) :
    Scans (List.intercalate [','] parts) (List.intercalate [.comma] tokenLists) := by
  cases scans with
  | nil => exact fun _ _ _ => rfl
  | @cons first firstTokens later laterTokens firstScans laterScans =>
      rw [intercalate_cons, intercalate_cons]
      induction laterScans generalizing first firstTokens with
      | nil => simpa using firstScans
      | @cons second secondTokens rest restTokens secondScans _ ih =>
          intro left found closes
          have closed : Closes ((second :: rest).flatMap (',' :: ·) ++ left) := by
            rintro c ⟨⟩
            exact .inl rfl
          have restScans := ih secondScans left (.comma :: firstTokens.reverse ++ found) closes
          rw [List.append_assoc, firstScans _ _ closed, List.flatMap_cons, List.cons_append,
            List.cons_append, scanFrom_cons rfl rfl]
          refine restScans.trans ?_
          simp

/-- What is cut up alone is cut up between brackets as well. -/
theorem scans_bracketed {opening closing : Char} {openToken closeToken : Token}
    {tokens : List Token}
    (opens : ∀ rest found, scanFrom (opening :: rest) found = scanFrom rest (openToken :: found))
    (ends : ∀ rest found, scanFrom (closing :: rest) found = scanFrom rest (closeToken :: found))
    (bracket : closing = ']' ∨ closing = '\x7d') (scans : Scans chars tokens) :
    Scans (opening :: chars ++ [closing]) (openToken :: tokens ++ [closeToken]) := by
  intro rest found _
  have closes : Closes (closing :: rest) := by
    rintro c ⟨⟩
    exact .inr bracket
  rw [List.append_assoc, List.cons_append, List.singleton_append, opens, scans _ _ closes, ends]
  simp

end Token

open Token (Closes Scans scanFrom_cons)

/-! ## Building a value -/

namespace Raw

variable {tokens : List Token} {raw : Raw}

/-- The machine builds a value of tokens where a value may come, and goes on with the value
in its place. -/
def Builds (tokens : List Token) (raw : Raw) : Prop :=
  ∀ stack rest, run? (.value stack) (tokens ++ rest) = run? (place raw stack) rest

/-- A value is built of at least one token, and it does not begin by closing an array. -/
theorem Builds.exists_first (builds : Builds tokens raw) :
    ∃ first more, tokens = first :: more ∧ first ≠ .closeArray := by
  have built : run? (.value []) tokens = some (.complete raw) := by
    simpa [place, run?] using builds [] []
  cases tokens with
  | nil => cases built
  | cons first more =>
      refine ⟨first, more, rfl, ?_⟩
      rintro rfl
      cases built

/-- The first item of an array is built as any other value. -/
theorem Builds.run?_firstItem (builds : Builds tokens raw) (stack : List Frame)
    (rest : List Token) :
    run? (.firstItem stack) (tokens ++ rest) =
      run? (place raw (.array [] :: stack)) rest := by
  rw [← builds]
  rcases builds.exists_first with ⟨first, more, rfl, opens⟩
  cases first <;> first | rfl | exact absurd rfl opens

/-- The later items of an array are built one after another. -/
theorem run?_laterItems {tokenLists : List (List Token)} {items : List Raw}
    (builds : List.Forall₂ Builds tokenLists items) (done : List Raw) (stack : List Frame)
    (rest : List Token) :
    run? (.afterItem done stack)
        (tokenLists.flatMap (.comma :: ·) ++ .closeArray :: rest) =
      run? (place (.array (done.reverse ++ items)) stack) rest := by
  induction builds generalizing done with
  | nil => simp [run?, step?]
  | @cons tokens item laterTokens laterItems itemBuilds _ ih =>
      rw [List.flatMap_cons, List.append_assoc, List.cons_append, run?]
      dsimp only [step?]
      rw [itemBuilds, place, ih]
      simp

theorem builds_array {tokenLists : List (List Token)} {items : List Raw}
    (builds : List.Forall₂ Builds tokenLists items) :
    Builds (.openArray :: List.intercalate [.comma] tokenLists ++ [.closeArray])
      (.array items) := by
  intro stack rest
  cases builds with
  | nil => rfl
  | cons itemBuilds laterBuilds =>
      rw [intercalate_cons, List.cons_append, List.cons_append, run?]
      dsimp only [step?, start?]
      rw [List.append_assoc, List.append_assoc, itemBuilds.run?_firstItem, place,
        List.singleton_append, run?_laterItems laterBuilds]
      rfl

/-- The tokens of a key and of a value. -/
def BuildsMember (tokens : List Token) (member : Option String × Raw) : Prop :=
  ∃ valueTokens, tokens = .text member.1 :: .colon :: valueTokens ∧ Builds valueTokens member.2

/-- The later members of an object are built one after another. -/
theorem run?_laterMembers {tokenLists : List (List Token)} {members : List (Option String × Raw)}
    (builds : List.Forall₂ BuildsMember tokenLists members) (done : List (Option String × Raw))
    (stack : List Frame) (rest : List Token) :
    run? (.afterMember done stack)
        (tokenLists.flatMap (.comma :: ·) ++ .closeObject :: rest) =
      run? (place (.object (done.reverse ++ members)) stack) rest := by
  induction builds generalizing done with
  | nil => simp [run?, step?]
  | @cons tokens member laterTokens laterMembers memberBuilds _ ih =>
      rcases memberBuilds with ⟨valueTokens, rfl, valueBuilds⟩
      rw [List.flatMap_cons, List.append_assoc]
      simp only [List.cons_append, run?, step?]
      rw [valueBuilds, place, ih]
      simp

theorem builds_object {tokenLists : List (List Token)} {members : List (Option String × Raw)}
    (builds : List.Forall₂ BuildsMember tokenLists members) :
    Builds (.openObject :: List.intercalate [.comma] tokenLists ++ [.closeObject])
      (.object members) := by
  intro stack rest
  cases builds with
  | nil => rfl
  | cons memberBuilds laterBuilds =>
      rcases memberBuilds with ⟨valueTokens, rfl, valueBuilds⟩
      rw [intercalate_cons]
      simp only [List.cons_append, List.append_assoc, run?, step?, start?]
      rw [valueBuilds, place, List.nil_append, run?_laterMembers laterBuilds]
      rfl

end Raw

/-! ## Values -/

namespace Value

variable {value : Value}

theorem toList_toText_array (items : List Value) :
    (Value.array items).toText.toList =
      '[' :: List.intercalate [','] (items.map fun item => item.toText.toList) ++ [']'] := by
  simp [toText, commaSeparated, String.toList_intercalate, textsOf_eq_map, Function.comp_def]

theorem toList_toText_object (members : List (String × Value)) :
    (Value.object members).toText.toList =
      '\x7b' :: List.intercalate [','] (members.map fun member =>
        (quote member.1).toList ++ ':' :: member.2.toText.toList) ++ ['\x7d'] := by
  simp [toText, commaSeparated, String.toList_intercalate, memberTexts_eq_map,
    Function.comp_def]

/-- The text of a value is cut up into its tokens. -/
theorem Literal.scans (literal : value.Literal) : Scans value.toText.toList value.tokens := by
  induction literal with
  | null => exact fun _ _ _ => scanFrom_cons rfl rfl _
  | bool value => cases value <;> exact fun _ _ _ => scanFrom_cons rfl rfl _
  | number isLiteral => exact Token.scans_literal isLiteral
  | text content => exact Token.scans_quote content
  | @array items _ ih =>
      rw [toList_toText_array, tokens, itemTokens_eq_map]
      apply Token.scans_bracketed (fun _ => scanFrom_cons rfl rfl) (fun _ => scanFrom_cons rfl rfl)
        (by decide)
      apply Token.scans_intercalate
      rw [List.forall₂_map_left_iff, List.forall₂_map_right_iff, List.forall₂_same]
      exact ih
  | @object members _ ih =>
      rw [toList_toText_object, tokens, memberTokens_eq_map]
      apply Token.scans_bracketed (fun _ => scanFrom_cons rfl rfl) (fun _ => scanFrom_cons rfl rfl)
        (by decide)
      apply Token.scans_intercalate
      rw [List.forall₂_map_left_iff, List.forall₂_map_right_iff, List.forall₂_same]
      intro member mem rest found closes
      rw [List.append_assoc, Token.scanFrom_quote, List.cons_append, scanFrom_cons rfl rfl,
        ih member mem rest _ closes]
      simp

/-- The tokens of the text of a value build the value. -/
theorem Literal.builds (literal : value.Literal) : Raw.Builds value.tokens value.toRaw := by
  induction literal with
  | null | bool | number | text => exact fun _ _ => rfl
  | @array items _ ih =>
      rw [tokens, toRaw, itemTokens_eq_map, rawItems_eq_map]
      apply Raw.builds_array
      rw [List.forall₂_map_left_iff, List.forall₂_map_right_iff, List.forall₂_same]
      exact ih
  | @object members _ ih =>
      rw [tokens, toRaw, memberTokens_eq_map, rawMembers_eq_map]
      apply Raw.builds_object
      rw [List.forall₂_map_left_iff, List.forall₂_map_right_iff, List.forall₂_same]
      exact fun member mem => ⟨_, rfl, ih member mem⟩

/-- The text of a value is read as the value, as it is written there. -/
theorem Literal.parse?_eq (literal : value.Literal) :
    Raw.parse? value.toText = some value.toRaw := by
  have scanned := literal.scans [] [] (by simp [Closes])
  rw [List.append_nil, List.append_nil, Token.scanFrom, List.reverse_reverse] at scanned
  have built := literal.builds [] []
  rw [List.append_nil] at built
  rw [Raw.parse?, Token.scan?, scanned, Option.bind_some, Raw.ofTokens?, built]
  rfl

end Value

end DreamWorld.Json
