import DreamWorld.Number.Decimal
import DreamWorld.Proofs.Json.Literal
import Mathlib.Data.List.Induction
import Mathlib.Data.Nat.Digits.Defs

/-!
# What numerals read as

A run of digits stands for the sum of its digits, each times the power of ten of its
place.  A natural number is such a run, after a plus sign or none, and an integer may have
a minus sign as well.  Nothing else reads as a number, so a text with a point or with the
mark of an exponent is no integer.  A sign, digits, a fraction and an exponent in a row
read as the numeral of all digits, of which the exponent counts off those of the fraction.
-/

namespace DreamWorld.Numeral

open Json.Token (IsDigits EndsDigits span_digits_append)

variable {text digits whole exponent rest : List Char}

/-! ## Runs of digits -/

/-- What a run of digits stands for: each digit counts as many ones as its place says. -/
def placeValue (digits : List Char) : Nat :=
  Nat.ofDigits 10 (digits.reverse.map fun digit => digit.toNat - '0'.toNat)

theorem ofDigits_eq_placeValue (digits : List Char) : ofDigits digits = placeValue digits := by
  induction digits using List.reverseRecOn with
  | nil => rfl
  | append_singleton digits last ih =>
      rw [placeValue, List.reverse_append, List.reverse_singleton, List.singleton_append,
        List.map_cons, Nat.ofDigits_cons, ← placeValue, ← ih, ofDigits, List.foldl_append]
      exact Nat.add_comm _ _

theorem readDigits?_eq_some_iff {value : Nat} :
    readDigits? text = some value ↔ IsDigits text ∧ placeValue text = value := by
  have digitsIff : (!text.isEmpty && text.all Char.isDigit) = true ↔ IsDigits text := by
    simp [IsDigits]
  unfold readDigits?
  split
  · rename_i isDigits
    simp [digitsIff.mp isDigits, ofDigits_eq_placeValue]
  · rename_i notDigits
    simp [mt digitsIff.mpr notDigits]

/-- A text of digits does not begin with a sign. -/
theorem ne_sign_of_isDigits {c : Char} (isDigits : IsDigits (c :: rest)) : c ≠ '+' ∧ c ≠ '-' := by
  have digit := isDigits.2 c List.mem_cons_self
  constructor <;> (rintro rfl; cases digit)

/-! ## Natural numbers and integers -/

/-- A natural number is read from digits after a plus sign or none, and from no other text. -/
theorem readNatural?_eq_some_iff {value : Nat} :
    readNatural? text = some value ↔
      ∃ digits, (text = digits ∨ text = '+' :: digits) ∧ IsDigits digits ∧
        placeValue digits = value := by
  unfold readNatural?
  split
  · rename_i digits
    rw [readDigits?_eq_some_iff]
    constructor
    · intro read
      exact ⟨digits, .inr rfl, read⟩
    · rintro ⟨_, rfl | plus, read⟩
      · exact absurd rfl (ne_sign_of_isDigits read.1).1
      · cases plus
        exact read
  · rename_i noPlus
    rw [readDigits?_eq_some_iff]
    constructor
    · intro read
      exact ⟨text, .inl rfl, read⟩
    · rintro ⟨_, rfl | plus, read⟩
      · exact read
      · exact absurd plus (noPlus _)

/-- An integer is read from digits after a sign or none, and from no other text. -/
theorem readInteger?_eq_some_iff {value : Int} :
    readInteger? text = some value ↔
      ∃ digits, IsDigits digits ∧
        ((text = digits ∨ text = '+' :: digits) ∧ value = placeValue digits ∨
          text = '-' :: digits ∧ value = -placeValue digits) := by
  unfold readInteger?
  split
  · rename_i digits
    rw [Option.map_eq_some_iff]
    constructor
    · rintro ⟨magnitude, read, rfl⟩
      rcases readDigits?_eq_some_iff.mp read with ⟨isDigits, rfl⟩
      exact ⟨digits, isDigits, .inr ⟨rfl, rfl⟩⟩
    · rintro ⟨_, isDigits, ⟨rfl | plus, _⟩ | ⟨minus, rfl⟩⟩
      · exact absurd rfl (ne_sign_of_isDigits isDigits).2
      · cases plus
      · cases minus
        exact ⟨_, readDigits?_eq_some_iff.mpr ⟨isDigits, rfl⟩, rfl⟩
  · rename_i noMinus
    rw [Option.map_eq_some_iff]
    constructor
    · rintro ⟨magnitude, read, rfl⟩
      rcases readNatural?_eq_some_iff.mp read with ⟨digits, spelled, isDigits, rfl⟩
      exact ⟨digits, isDigits, .inl ⟨spelled, rfl⟩⟩
    · rintro ⟨digits, isDigits, ⟨spelled, rfl⟩ | ⟨minus, _⟩⟩
      · exact ⟨_, readNatural?_eq_some_iff.mpr ⟨digits, spelled, isDigits, rfl⟩, rfl⟩
      · exact absurd minus (noMinus _)

/-- A text with a character that is no digit and no sign is no integer. -/
theorem readInteger?_eq_none {c : Char} (mem : c ∈ text) (notDigit : c.isDigit = false)
    (notSign : c ≠ '+' ∧ c ≠ '-') : readInteger? text = none := by
  have notInDigits {digits : List Char} (isDigits : IsDigits digits) : c ∉ digits := by
    intro inDigits
    rw [isDigits.2 c inDigits] at notDigit
    cases notDigit
  by_contra read
  rcases Option.ne_none_iff_exists'.mp read with ⟨value, read⟩
  rcases readInteger?_eq_some_iff.mp read with
    ⟨digits, isDigits, ⟨rfl | rfl, _⟩ | ⟨rfl, _⟩⟩
  · exact notInDigits isDigits mem
  · exact notInDigits isDigits (List.mem_of_ne_of_mem notSign.1 mem)
  · exact notInDigits isDigits (List.mem_of_ne_of_mem notSign.2 mem)

/-! ## Numerals -/

/-- An unsigned text, after a minus sign if the number is negative. -/
def signed (negative : Bool) (unsigned : List Char) : List Char :=
  if negative then '-' :: unsigned else unsigned

/-- The digits of a fraction after their point, if there are any. -/
def pointed (fraction : Option (List Char)) : List Char :=
  fraction.elim [] ('.' :: ·)

theorem splitSign_signed (negative : Bool) (isDigits : IsDigits digits) (rest : List Char) :
    splitSign (signed negative (digits ++ rest)) = (negative, digits ++ rest) := by
  cases negative with
  | true => rfl
  | false =>
      rcases List.exists_cons_of_ne_nil isDigits.1 with ⟨first, more, rfl⟩
      rcases ne_sign_of_isDigits isDigits with ⟨noPlus, noMinus⟩
      unfold splitSign
      split
      · rename_i begins
        cases begins
        exact absurd rfl noMinus
      · rename_i begins
        cases begins
        exact absurd rfl noPlus
      · rfl

/-- What reads as an exponent does not go on with the digits before it. -/
theorem ends_of_readExponent? {power : Int} (read : readExponent? exponent = some power) :
    ∀ c ∈ exponent.head?, c.isDigit = false ∧ c ≠ '.' := by
  rintro c mem
  cases exponent with
  | nil => cases mem
  | cons mark rest =>
      obtain rfl : mark = c := Option.some.inj mem
      by_cases isMark : mark = 'e' ∨ mark = 'E'
      · rcases isMark with rfl | rfl <;> decide
      · rw [readExponent?, if_neg isMark] at read
        cases read

theorem splitFraction_pointed {fraction : Option (List Char)} {power : Int}
    (isFraction : ∀ digits ∈ fraction, IsDigits digits)
    (read : readExponent? exponent = some power) :
    splitFraction (pointed fraction ++ exponent) = (fraction.getD [], exponent) := by
  have ends := ends_of_readExponent? read
  cases fraction with
  | none =>
      change splitFraction exponent = ([], exponent)
      unfold splitFraction
      split
      · exact absurd rfl (ends '.' rfl).2
      · rfl
  | some digits =>
      rcases span_digits_append (isFraction digits rfl).2 fun c mem => (ends c mem).1 with
        ⟨taken, left⟩
      change ((digits ++ exponent).takeWhile _, (digits ++ exponent).dropWhile _) = _
      rw [taken, left]
      rfl

theorem endsDigits_pointed {fraction : Option (List Char)} {power : Int}
    (read : readExponent? exponent = some power) :
    EndsDigits (pointed fraction ++ exponent) := by
  cases fraction with
  | none => exact fun c mem => (ends_of_readExponent? read c mem).1
  | some digits =>
      rintro c ⟨⟩
      rfl

/-- A sign, digits, a fraction and an exponent in a row read as the numeral of all digits. -/
theorem read?_signed {fraction : Option (List Char)} {power : Int} (negative : Bool)
    (isWhole : IsDigits whole) (isFraction : ∀ digits ∈ fraction, IsDigits digits)
    (read : readExponent? exponent = some power) :
    read? (signed negative (whole ++ (pointed fraction ++ exponent))) =
      some ⟨negative, placeValue (whole ++ fraction.getD []),
        power - (fraction.getD []).length⟩ := by
  rcases span_digits_append isWhole.2 (endsDigits_pointed read) with ⟨taken, left⟩
  have content : (whole ++ fraction.getD []).isEmpty = false := by
    simp [isWhole.1]
  unfold read?
  rw [splitSign_signed negative isWhole]
  dsimp only
  rw [taken, left, splitFraction_pointed isFraction read]
  dsimp only
  rw [content, if_neg Bool.false_ne_true, read, Option.map_some, ofDigits_eq_placeValue]

end DreamWorld.Numeral
