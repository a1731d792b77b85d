import DreamWorld.Json.Basic
import DreamWorld.Proofs.Json.Literal

/-!
# What is read from texts

Every number that is read from a text, at any depth, is a literal of the fixed form.  The
scanner keeps only such literals, and the machine that builds values only puts values
together that it has met before.
-/

namespace DreamWorld.Json

open Token (IsLiteral)

namespace Raw

/-- All literals and all keys within a value, at any depth, satisfy conditions. -/
inductive Every (literals : String → Prop) (keys : Option String → Prop) : Raw → Prop
  | null : Every literals keys .null
  | bool (value : Bool) : Every literals keys (.bool value)
  | number {literal : String} : literals literal → Every literals keys (.number literal)
  | text (content : Option String) : Every literals keys (.text content)
  | array {items : List Raw} :
      (∀ item ∈ items, Every literals keys item) → Every literals keys (.array items)
  | object {members : List (Option String × Raw)} :
      (∀ member ∈ members, keys member.1) → (∀ member ∈ members, Every literals keys member.2) →
      Every literals keys (.object members)

/-- The numbers within a value are literals as the reader keeps them. -/
def Literal (raw : Raw) : Prop :=
  raw.Every (fun literal => IsLiteral literal.toList) fun _ => True

/-- No object within a value has the reserved key. -/
def Unmarked (raw : Raw) : Prop :=
  raw.Every (fun _ => True) fun key => key ≠ some numberKey

/-- A value that meets both conditions. -/
def Sound (raw : Raw) : Prop :=
  raw.Every (fun literal => IsLiteral literal.toList) fun key => key ≠ some numberKey

theorem Literal.sound {raw : Raw} (literal : raw.Literal) (unmarked : raw.Unmarked) :
    raw.Sound := by
  induction literal with
  | null => exact .null
  | bool value => exact .bool value
  | number isLiteral => exact .number isLiteral
  | text content => exact .text content
  | array _ ih =>
      cases unmarked with
      | array unmarkedItems => exact .array fun item mem => ih item mem (unmarkedItems item mem)
  | object _ _ ih =>
      cases unmarked with
      | object keys unmarkedMembers =>
          exact .object keys fun member mem => ih member mem (unmarkedMembers member mem)

variable {literals : String → Prop} {keys : Option String → Prop}

theorem every_array_iff {items : List Raw} :
    Every literals keys (.array items) ↔ ∀ item ∈ items, Every literals keys item := by
  constructor
  · intro every
    cases every with
    | array everyItem => exact everyItem
  · exact .array

theorem every_object_iff {members : List (Option String × Raw)} :
    Every literals keys (.object members) ↔
      ∀ member ∈ members, keys member.1 ∧ Every literals keys member.2 := by
  constructor
  · intro every
    cases every with
    | object keysHold everyMember =>
        exact fun member mem => ⟨keysHold member mem, everyMember member mem⟩
  · exact fun every =>
      .object (fun member mem => (every member mem).1) fun member mem => (every member mem).2

end Raw

/-! ## Tokens -/

namespace Token

/-- If a token is a number, its literal has the fixed form. -/
def Kept (token : Token) : Prop :=
  ∀ literal, token = .number literal → IsLiteral literal.toList

theorem kept_of_next? {input rest : List Char} {token : Token}
    (next : next? input = some (token, rest)) : token.Kept := by
  rintro literal rfl
  unfold next? at next
  split at next
  case h_11 =>
    rcases Option.map_eq_some_iff.mp next with ⟨⟨kept, _⟩, scanned, same⟩
    cases same
    rw [String.toList_ofList]
    exact isLiteral_of_scanNumber? scanned
  case h_10 =>
    rcases Option.map_eq_some_iff.mp next with ⟨_, _, same⟩
    cases same
  all_goals cases next

theorem kept_of_scanFrom {input : List Char} {found tokens : List Token}
    (scanned : scanFrom input found = some tokens) (kept : ∀ token ∈ found, token.Kept) :
    ∀ token ∈ tokens, token.Kept := by
  fun_induction scanFrom input found with
  | case1 found =>
      cases scanned
      simpa using kept
  | case2 c rest found blank ih => exact ih scanned kept
  | case3 c rest found nonBlank token left next ih =>
      apply ih scanned
      exact List.forall_mem_cons.mpr ⟨kept_of_next? next, kept⟩
  | case4 => cases scanned

end Token

/-! ## The machine -/

namespace Raw

/-- The values that an open container holds. -/
def Frame.values : Frame → List Raw
  | .array items => items
  | .object members _ => members.map Prod.snd

/-- The values that the machine holds. -/
def State.values : State → List Raw
  | .value stack | .firstItem stack | .firstKey stack => stack.flatMap Frame.values
  | .key members stack | .colon members _ stack | .afterMember members stack =>
      members.map Prod.snd ++ stack.flatMap Frame.values
  | .afterItem items stack => items ++ stack.flatMap Frame.values
  | .complete finished => [finished]

variable {state next : State} {token : Token} {tokens : List Token} {stack : List Frame}
  {raw : Raw}

/-- The machine holds nothing but values of such literals. -/
def State.Kept (state : State) : Prop :=
  ∀ raw ∈ state.values, raw.Literal

theorem kept_place (literal : raw.Literal)
    (kept : ∀ held ∈ stack.flatMap Frame.values, held.Literal) : (place raw stack).Kept := by
  rcases stack with _ | ⟨_ | _, stack⟩
  · exact List.forall_mem_singleton.mpr literal
  · exact List.forall_mem_cons.mpr ⟨literal, kept⟩
  · exact List.forall_mem_cons.mpr ⟨literal, kept⟩

theorem kept_of_start? (started : start? stack token = some next) (tokenKept : token.Kept)
    (kept : ∀ held ∈ stack.flatMap Frame.values, held.Literal) : next.Kept := by
  cases token with
  | null =>
      cases started
      exact kept_place .null kept
  | bool value =>
      cases started
      exact kept_place (.bool value) kept
  | number literal =>
      cases started
      exact kept_place (.number (tokenKept literal rfl)) kept
  | text content =>
      cases started
      exact kept_place (.text content) kept
  | openArray | openObject =>
      cases started
      exact kept
  | closeArray | closeObject | colon | comma => cases started

theorem kept_of_step? (stepped : step? state token = some next) (tokenKept : token.Kept)
    (kept : state.Kept) : next.Kept := by
  unfold step? at stepped
  split at stepped
  case h_1 | h_3 => exact kept_of_start? stepped tokenKept kept
  case h_2 =>
    cases stepped
    exact kept_place (every_array_iff.mpr (List.forall_mem_nil _)) kept
  case h_4 =>
    cases stepped
    exact kept_place (every_object_iff.mpr (List.forall_mem_nil _)) kept
  case h_5 | h_6 | h_7 | h_8 | h_10 =>
    cases stepped
    exact kept
  case h_9 items stack =>
    cases stepped
    rcases List.forall_mem_append.mp kept with ⟨itemsKept, stackKept⟩
    refine kept_place (every_array_iff.mpr fun item mem => ?_) stackKept
    exact itemsKept item (List.mem_reverse.mp mem)
  case h_11 members stack =>
    cases stepped
    rcases List.forall_mem_append.mp kept with ⟨membersKept, stackKept⟩
    refine kept_place (every_object_iff.mpr fun member mem => ⟨trivial, ?_⟩) stackKept
    exact membersKept member.2 (List.mem_map_of_mem (List.mem_reverse.mp mem))
  case h_12 => cases stepped

theorem kept_of_run? {final : State} (run : run? state tokens = some final)
    (tokensKept : ∀ token ∈ tokens, token.Kept) (kept : state.Kept) : final.Kept := by
  induction tokens generalizing state with
  | nil =>
      cases run
      exact kept
  | cons token rest ih =>
      rcases List.forall_mem_cons.mp tokensKept with ⟨tokenKept, restKept⟩
      rw [run?] at run
      split at run
      · rename_i stepped
        exact ih run restKept (kept_of_step? stepped tokenKept kept)
      · cases run

/-- The numbers within a value that is read from a text are literals of the fixed form. -/
theorem literal_of_parse? {text : String} (parsed : parse? text = some raw) : raw.Literal := by
  rcases Option.bind_eq_some_iff.mp parsed with ⟨tokens, scanned, built⟩
  have tokensKept := Token.kept_of_scanFrom scanned (List.forall_mem_nil _)
  unfold ofTokens? at built
  split at built
  · rename_i run
    cases built
    exact kept_of_run? run tokensKept (by simp [State.Kept, State.values]) raw
      List.mem_cons_self
  · cases built

end Raw

end DreamWorld.Json
