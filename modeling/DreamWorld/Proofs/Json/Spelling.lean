import DreamWorld.Proofs.Json.Compact
import DreamWorld.Proofs.Number.Decimal

/-!
# Numbers as texts write them

A text may write a number with either mark of an exponent, and its exponent with a sign or
without one.  The reader keeps the spelling but for this: every exponent is kept with a
small mark and a sign.  A literal that is kept reads as the numeral of its digits, and as an
integer exactly when it has neither a fraction nor an exponent.
-/

namespace DreamWorld.Json

open Numeral (placeValue pointed signed)
open Token (IsDigits IsWhole IsFraction IsExponent IsUnsigned IsLiteral)

theorem point_notMem_of_isDigits {digits : List Char} (isDigits : IsDigits digits) :
    '.' ∉ digits := by
  intro point
  cases isDigits.2 '.' point

/-- An exponent as a text writes it. -/
structure ExponentSpelling where
  mark : Char
  sign : Option Char
  digits : List Char
  isMark : mark = 'e' ∨ mark = 'E'
  isSign : ∀ c ∈ sign, c = '+' ∨ c = '-'
  isDigits : IsDigits digits

namespace ExponentSpelling

def chars (exponent : ExponentSpelling) : List Char :=
  exponent.mark :: exponent.sign.toList ++ exponent.digits

/-- The exponent as the reader keeps it. -/
def kept (exponent : ExponentSpelling) : List Char :=
  'e' :: exponent.sign.getD '+' :: exponent.digits

def value (exponent : ExponentSpelling) : Int :=
  if exponent.sign = some '-' then -placeValue exponent.digits else placeValue exponent.digits

/-- The reader adds a plus sign where an exponent has none. -/
theorem scanSignedDigits?_eq (exponent : ExponentSpelling) :
    Token.scanSignedDigits? (exponent.sign.toList ++ exponent.digits) =
      some (exponent.sign.getD '+' :: exponent.digits, []) := by
  rcases exponent with ⟨mark, sign, digits, isMark, isSign, isDigits⟩
  have scanned : Token.scanDigits? (digits ++ []) = some (digits, []) :=
    Token.scanDigits?_append isDigits nofun
  rw [List.append_nil] at scanned
  cases sign with
  | none =>
      rcases List.exists_cons_of_ne_nil isDigits.1 with ⟨first, more, rfl⟩
      rcases Numeral.ne_sign_of_isDigits isDigits with ⟨noPlus, noMinus⟩
      change Token.scanSignedDigits? (first :: more) = some ('+' :: first :: more, [])
      unfold Token.scanSignedDigits?
      split
      · rename_i begins
        cases begins
        exact absurd rfl noMinus
      · rename_i begins
        cases begins
        exact absurd rfl noPlus
      · rw [scanned]
        rfl
  | some c => rcases isSign c rfl with rfl | rfl <;> simp [Token.scanSignedDigits?, scanned]

theorem scanExponent?_chars (exponent : ExponentSpelling) :
    Token.scanExponent? exponent.chars = some (exponent.kept, []) := by
  rw [chars, List.cons_append, Token.scanExponent?, if_pos exponent.isMark,
    exponent.scanSignedDigits?_eq]
  rfl

theorem point_notMem (exponent : ExponentSpelling) :
    '.' ∉ exponent.chars ∧ '.' ∉ exponent.kept := by
  have digits := point_notMem_of_isDigits exponent.isDigits
  have mark : '.' ≠ exponent.mark := by
    rcases exponent.isMark with mark | mark <;> (rw [mark]; decide)
  have sign : ∀ c ∈ exponent.sign, '.' ≠ c := by
    intro c mem
    rcases exponent.isSign c mem with rfl | rfl <;> decide
  unfold chars kept
  cases written : exponent.sign with
  | none => simp [digits, mark]
  | some c => simp [digits, mark, sign c written]

/-- An exponent of a literal is one that the reader keeps, or nothing. -/
theorem exists_kept_eq {chars : List Char} (isExponent : IsExponent chars) :
    ∃ exponent : Option ExponentSpelling, exponent.elim [] kept = chars := by
  cases isExponent with
  | absent => exact ⟨none, rfl⟩
  | @digits sign digits isSign isDigits =>
      refine ⟨some ⟨'e', some sign, digits, .inl rfl, ?_, isDigits⟩, rfl⟩
      rintro _ ⟨⟩
      exact isSign.symm

theorem readExponent?_kept (exponent : ExponentSpelling) :
    Numeral.readExponent? exponent.kept = some exponent.value := by
  rw [kept, Numeral.readExponent?, if_pos (.inl rfl), Numeral.readInteger?_eq_some_iff]
  refine ⟨exponent.digits, exponent.isDigits, ?_⟩
  cases sign : exponent.sign with
  | none => exact .inl ⟨.inr rfl, by simp [value, sign]⟩
  | some c =>
      rcases exponent.isSign c sign with rfl | rfl
      · exact .inl ⟨.inr rfl, by simp [value, sign]⟩
      · exact .inr ⟨rfl, by simp [value, sign]⟩

end ExponentSpelling

/-- A number as a text writes it. -/
structure NumberSpelling where
  negative : Bool
  whole : List Char
  fraction : Option (List Char)
  exponent : Option ExponentSpelling
  isWhole : IsWhole whole
  isFraction : ∀ digits ∈ fraction, IsDigits digits

namespace NumberSpelling

/-- A number with its exponent left open. -/
def charsWith (number : NumberSpelling) (exponent : List Char) : List Char :=
  signed number.negative (number.whole ++ (pointed number.fraction ++ exponent))

/-- The text that writes a number. -/
def text (number : NumberSpelling) : String :=
  String.ofList (number.charsWith (number.exponent.elim [] ExponentSpelling.chars))

/-- The literal that the reader keeps of a number. -/
def literal (number : NumberSpelling) : String :=
  String.ofList (number.charsWith (number.exponent.elim [] ExponentSpelling.kept))

/-- What the number stands for without its fraction and its exponent. -/
def wholeValue (number : NumberSpelling) : Int :=
  if number.negative then -placeValue number.whole else placeValue number.whole

/-- What the number stands for exactly. -/
def numeral (number : NumberSpelling) : Numeral where
  negative := number.negative
  digits := placeValue (number.whole ++ number.fraction.getD [])
  exponent := number.exponent.elim 0 ExponentSpelling.value - (number.fraction.getD []).length

/-! ## Reading -/

theorem exists_first (number : NumberSpelling) (exponent : List Char) :
    ∃ first more, number.charsWith exponent = first :: more ∧
      (first.isDigit = true ∨ first = '-') := by
  rcases number.isWhole.isDigits with ⟨nonempty, all⟩
  rcases List.exists_cons_of_ne_nil nonempty with ⟨first, more, wholeEq⟩
  unfold charsWith
  rw [wholeEq] at all ⊢
  cases number.negative with
  | true => exact ⟨_, _, rfl, .inr rfl⟩
  | false => exact ⟨_, _, rfl, .inl (all first List.mem_cons_self)⟩

/-- A fraction of a literal is a point and digits, or nothing. -/
theorem exists_pointed_eq {chars : List Char} (isFraction : IsFraction chars) :
    ∃ fraction : Option (List Char), pointed fraction = chars ∧
      ∀ digits ∈ fraction, IsDigits digits := by
  cases isFraction with
  | absent => exact ⟨none, rfl, fun _ none => by cases none⟩
  | @digits digits isDigits =>
      refine ⟨some digits, rfl, ?_⟩
      rintro _ ⟨⟩
      exact isDigits

theorem isFraction_pointed (number : NumberSpelling) : IsFraction (pointed number.fraction) := by
  cases fraction : number.fraction with
  | none => exact .absent
  | some digits => exact .digits (number.isFraction digits fraction)

theorem scanExponent?_chars (number : NumberSpelling) :
    Token.scanExponent? (number.exponent.elim [] ExponentSpelling.chars) =
      some (number.exponent.elim [] ExponentSpelling.kept, []) := by
  cases number.exponent with
  | none => rfl
  | some exponent => exact exponent.scanExponent?_chars

theorem ends_exponent (number : NumberSpelling) :
    ∀ c ∈ (number.exponent.elim [] ExponentSpelling.chars).head?,
      c.isDigit = false ∧ c ≠ '.' := by
  cases number.exponent with
  | none => rintro c ⟨⟩
  | some exponent =>
      rintro c ⟨⟩
      rcases exponent.isMark with mark | mark <;> (rw [mark]; decide)

/-- The reader keeps the literal of a number. -/
theorem scanNumber?_text (number : NumberSpelling) :
    Token.scanNumber? number.text.toList = some (number.literal.toList, []) := by
  have scanned := Token.scanUnsigned?_parts number.isWhole number.isFraction_pointed
    number.ends_exponent number.scanExponent?_chars
  rw [text, literal, String.toList_ofList, String.toList_ofList, charsWith, charsWith]
  cases number.negative with
  | true =>
      change (Token.scanUnsigned? _).map _ = _
      rw [scanned]
      rfl
  | false =>
      rcases List.exists_cons_of_ne_nil number.isWhole.isDigits.1 with ⟨first, more, wholeEq⟩
      have isDigits := number.isWhole.isDigits
      rw [wholeEq] at isDigits scanned
      change Token.scanNumber? (number.whole ++ _) = some (number.whole ++ _, _)
      rw [wholeEq]
      unfold Token.scanNumber?
      split
      · rename_i begins
        cases begins
        exact absurd rfl (Numeral.ne_sign_of_isDigits isDigits).2
      · exact scanned

/-- A text that writes a number is read as its literal. -/
theorem parse?_text (number : NumberSpelling) :
    Value.parse? number.text = some (.number number.literal) := by
  rcases number.exists_first (number.exponent.elim [] ExponentSpelling.chars) with
    ⟨first, more, charsEq, begins⟩
  have scanned := number.scanNumber?_text
  rw [text, String.toList_ofList, charsEq] at scanned
  have next := Token.next?_of_scanNumber? begins scanned
  rw [String.ofList_toList] at next
  have tokens : Token.scan? number.text = some [.number number.literal] := by
    rw [Token.scan?, text, String.toList_ofList, charsEq,
      Token.scanFrom_cons (Token.isBlank_of_begins begins) next, Token.scanFrom]
    rfl
  rw [Value.parse?, Raw.parse?, tokens]
  rfl

/-- The literals of written numbers are those of the fixed form. -/
theorem isLiteral_iff {chars : List Char} :
    IsLiteral chars ↔ ∃ number : NumberSpelling, number.literal.toList = chars := by
  constructor
  · intro isLiteral
    have spelled {unsigned : List Char} (isUnsigned : IsUnsigned unsigned) (negative : Bool) :
        ∃ number : NumberSpelling, number.literal.toList = signed negative unsigned := by
      rcases isUnsigned with @⟨whole, _, _, isWhole, isFraction, isExponent⟩
      obtain ⟨fraction, rfl, digits⟩ := exists_pointed_eq isFraction
      obtain ⟨exponent, rfl⟩ := ExponentSpelling.exists_kept_eq isExponent
      refine ⟨⟨negative, whole, fraction, exponent, isWhole, digits⟩, ?_⟩
      rw [literal, String.toList_ofList, charsWith, List.append_assoc]
    cases isLiteral with
    | unsigned isUnsigned => exact spelled isUnsigned false
    | negative isUnsigned => exact spelled isUnsigned true
  · rintro ⟨number, rfl⟩
    exact Token.isLiteral_of_scanNumber? number.scanNumber?_text

/-! ## Reading the literal again -/

theorem readExponent?_kept (number : NumberSpelling) :
    Numeral.readExponent? (number.exponent.elim [] ExponentSpelling.kept) =
      some (number.exponent.elim 0 ExponentSpelling.value) := by
  cases number.exponent with
  | none => rfl
  | some exponent => exact exponent.readExponent?_kept

/-- A literal always reads as a numeral, and as the one that its digits spell. -/
theorem read?_literal (number : NumberSpelling) :
    Numeral.read? number.literal.toList = some number.numeral := by
  rw [literal, String.toList_ofList]
  exact Numeral.read?_signed number.negative number.isWhole.isDigits number.isFraction
    number.readExponent?_kept

/-! ## Points and exponents -/

/-- A number is written with a point exactly when it has a fraction. -/
theorem point_mem_charsWith_iff (number : NumberSpelling) {exponent : List Char}
    (noPoint : '.' ∉ exponent) :
    '.' ∈ number.charsWith exponent ↔ number.fraction.isSome = true := by
  have wholeHasNone := point_notMem_of_isDigits number.isWhole.isDigits
  unfold charsWith signed
  cases number.negative <;> cases number.fraction <;> simp [pointed, wholeHasNone, noPoint]

theorem point_mem_text_iff (number : NumberSpelling) :
    '.' ∈ number.text.toList ↔ number.fraction.isSome = true := by
  rw [text, String.toList_ofList]
  apply number.point_mem_charsWith_iff
  cases number.exponent with
  | none => exact List.not_mem_nil
  | some exponent => exact exponent.point_notMem.1

theorem point_mem_literal_iff (number : NumberSpelling) :
    '.' ∈ number.literal.toList ↔ number.fraction.isSome = true := by
  rw [literal, String.toList_ofList]
  apply number.point_mem_charsWith_iff
  cases number.exponent with
  | none => exact List.not_mem_nil
  | some exponent => exact exponent.point_notMem.2

/-- A number without a fraction reads as an integer exactly when it has no exponent. -/
theorem readInteger?_literal (number : NumberSpelling) (noFraction : number.fraction = none) :
    Numeral.readInteger? number.literal.toList =
      if number.exponent.isNone then some number.wholeValue else none := by
  rw [literal, String.toList_ofList, charsWith, noFraction]
  cases number.exponent with
  | none =>
      change Numeral.readInteger? (signed _ (number.whole ++ [])) = some number.wholeValue
      rw [List.append_nil, Numeral.readInteger?_eq_some_iff]
      refine ⟨number.whole, number.isWhole.isDigits, ?_⟩
      unfold wholeValue
      cases number.negative with
      | true => exact .inr ⟨rfl, rfl⟩
      | false => exact .inl ⟨.inl rfl, rfl⟩
  | some exponent =>
      have marked : 'e' ∈ signed number.negative (number.whole ++ exponent.kept) := by
        unfold signed
        cases number.negative <;> simp [ExponentSpelling.kept]
      exact Numeral.readInteger?_eq_none marked rfl (by decide)

end NumberSpelling

end DreamWorld.Json
