import DreamWorld.Json.Printer
import DreamWorld.Json.Token
import Mathlib.Data.List.Forall2

/-!
# Strings between quotes

Reading a string that was written between quotes gives its content back.  Each character is
read as one unit, which is the character itself or, for a control character that has no
short escape, its code.
-/

namespace DreamWorld.Json.Token

variable {c : Char} {content : List Char} {units : List TextUnit}

/-- A unit of a string stands for a character. -/
inductive Spells : TextUnit → Char → Prop
  | char (c : Char) : Spells (.char c) c
  | code (c : Char) : c.toNat < 32 → Spells (.code c.toNat) c

/-! ## From characters to units -/

theorem hexDigit?_hexDigit : ∀ value, value < 16 → hexDigit? (hexDigit value) = some value := by
  decide

theorem hexCode?_of_lt {code : Nat} (small : code < 256) :
    hexCode? '0' '0' (hexDigit (code / 16)) (hexDigit (code % 16)) = some code := by
  have zero : hexDigit? '0' = some 0 := by decide
  simp only [hexCode?, zero, hexDigit?_hexDigit (code / 16) (by omega),
    hexDigit?_hexDigit (code % 16) (by omega), Option.bind_eq_bind, Option.bind_some,
    Option.pure_def, Option.some.injEq]
  omega

/-- A character that needs no escape is read as itself. -/
theorem scanUnits_cons_plain {rest : List Char} {found : List TextUnit} (notQuote : c ≠ '"')
    (notBackslash : c ≠ '\\') (plain : ¬ c.toNat < 32) :
    scanUnits (c :: rest) found = scanUnits rest (.char c :: found) := by
  rw [scanUnits.eq_def]
  split
  all_goals
    rename_i inputEq
    cases inputEq
  · exact absurd rfl notQuote
  · exact absurd rfl notBackslash
  · exact absurd rfl notBackslash
  · rw [if_neg (not_or.mpr ⟨plain, notBackslash⟩)]

/-- The written form of a character is read as one unit that stands for it. -/
theorem scanUnits_escape (c : Char) :
    ∃ unit, Spells unit c ∧ ∀ rest found,
      scanUnits (escape c ++ rest) found = scanUnits rest (unit :: found) := by
  unfold escape
  iterate 7
    split
    · subst_vars
      exact ⟨_, .char _, fun _ _ => rfl⟩
  split
  · rename_i control
    refine ⟨_, .code c control, fun rest found => ?_⟩
    have code := hexCode?_of_lt (Nat.lt_trans control (by decide : 32 < 256))
    simp only [List.cons_append, List.nil_append]
    rw [scanUnits, code]
  · rename_i notQuote notBackslash _ _ _ _ _ plain
    exact ⟨_, .char c, fun rest found => scanUnits_cons_plain notQuote notBackslash plain⟩

/-- The written form of a content is read as units that stand for its characters. -/
theorem scanUnits_flatMap_escape (content : List Char) :
    ∃ units, List.Forall₂ Spells units content ∧ ∀ rest found,
      scanUnits (content.flatMap escape ++ rest) found =
        scanUnits rest (units.reverse ++ found) := by
  induction content with
  | nil => exact ⟨[], .nil, fun _ _ => rfl⟩
  | cons c content ih =>
      rcases scanUnits_escape c with ⟨unit, spells, scanned⟩
      rcases ih with ⟨units, allSpell, allScanned⟩
      refine ⟨unit :: units, .cons spells allSpell, fun rest found => ?_⟩
      rw [List.flatMap_cons, List.append_assoc, scanned, allScanned, List.reverse_cons,
        List.append_assoc, List.singleton_append]

/-! ## From units to characters -/

/-- A code that is no half of a surrogate pair stands for itself. -/
theorem decodeUnits_cons_code {code : Nat} (notHigh : isHighSurrogate code = false)
    (notLow : isLowSurrogate code = false) (units : List TextUnit) (found : List Char) :
    decodeUnits (.code code :: units) found = decodeUnits units (Char.ofNat code :: found) := by
  rcases units with _ | ⟨_ | _, _⟩ <;> simp [decodeUnits, notHigh, notLow]

/-- Units that stand for characters are decoded to them. -/
theorem decodeUnits_of_spells (spell : List.Forall₂ Spells units content) (found : List Char) :
    decodeUnits units found = some (found.reverse ++ content) := by
  induction spell generalizing found with
  | nil => simp [decodeUnits]
  | @cons unit c units content spells _ ih =>
      have restEq : decodeUnits units (c :: found) = some (found.reverse ++ c :: content) := by
        rw [ih, List.reverse_cons, List.append_assoc, List.singleton_append]
      cases spells with
      | char => rwa [decodeUnits]
      | code _ control =>
          have notHigh : isHighSurrogate c.toNat = false := by
            simp only [isHighSurrogate, Bool.and_eq_false_iff, decide_eq_false_iff_not]
            omega
          have notLow : isLowSurrogate c.toNat = false := by
            simp only [isLowSurrogate, Bool.and_eq_false_iff, decide_eq_false_iff_not]
            omega
          rwa [decodeUnits_cons_code notHigh notLow, Char.ofNat_toNat]

/-- A content between quotes is read back. -/
theorem scanUnits_quote (content : String) :
    ∃ units, content? units = some content ∧ ∀ rest,
      scanUnits (content.toList.flatMap escape ++ '"' :: rest) [] = some (units, rest) := by
  rcases scanUnits_flatMap_escape content.toList with ⟨units, spell, scanned⟩
  refine ⟨units, ?_, fun rest => ?_⟩
  · rw [content?, decodeUnits_of_spells spell, List.reverse_nil, List.nil_append,
      Option.map_some, String.ofList_toList]
  · rw [scanned, scanUnits, List.append_nil, List.reverse_reverse]

end DreamWorld.Json.Token
