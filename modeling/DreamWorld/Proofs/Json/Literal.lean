import DreamWorld.Json.Token
import Mathlib.Data.List.Basic

/-!
# Number literals

The literals that the reader keeps of numbers have a fixed form: a whole part without
needless zeros, perhaps a fraction, and perhaps an exponent with a small mark and a sign.
Reading a literal of this form keeps it as it is, whatever follows it, as long as that does
not go on with the number.  The numerals of natural numbers have this form.
-/

namespace DreamWorld.Json.Token

/-! ## The form of literals -/

/-- At least one digit, and nothing else. -/
def IsDigits (digits : List Char) : Prop :=
  digits ≠ [] ∧ ∀ c ∈ digits, c.isDigit = true

inductive IsWhole : List Char → Prop
  | zero : IsWhole ['0']
  | digits {first : Char} {rest : List Char} :
      first ≠ '0' → IsDigits (first :: rest) → IsWhole (first :: rest)

inductive IsFraction : List Char → Prop
  | absent : IsFraction []
  | digits {digits : List Char} : IsDigits digits → IsFraction ('.' :: digits)

inductive IsExponent : List Char → Prop
  | absent : IsExponent []
  | digits {sign : Char} {digits : List Char} :
      sign = '-' ∨ sign = '+' → IsDigits digits → IsExponent ('e' :: sign :: digits)

/-- A literal without a sign. -/
inductive IsUnsigned : List Char → Prop
  | parts {whole fraction exponent : List Char} :
      IsWhole whole → IsFraction fraction → IsExponent exponent →
      IsUnsigned (whole ++ fraction ++ exponent)

/-- A literal as the reader keeps it. -/
inductive IsLiteral : List Char → Prop
  | unsigned {literal : List Char} : IsUnsigned literal → IsLiteral literal
  | negative {literal : List Char} : IsUnsigned literal → IsLiteral ('-' :: literal)

/-- A text that does not begin with a digit. -/
def EndsDigits (rest : List Char) : Prop :=
  ∀ c ∈ rest.head?, c.isDigit = false

/-- A text that does not go on with a number. -/
def EndsNumber (rest : List Char) : Prop :=
  ∀ c ∈ rest.head?, c.isDigit = false ∧ c ≠ '.' ∧ c ≠ 'e' ∧ c ≠ 'E'

variable {input rest digits whole fraction exponent literal : List Char}

theorem EndsNumber.endsDigits (ends : EndsNumber rest) : EndsDigits rest :=
  fun c mem => (ends c mem).1

theorem IsWhole.isDigits (isWhole : IsWhole whole) : IsDigits whole := by
  cases isWhole with
  | zero => exact ⟨List.cons_ne_nil _ _, List.forall_mem_singleton.mpr rfl⟩
  | digits _ isDigits => exact isDigits

/-- A literal begins with a digit or with a minus sign. -/
theorem IsUnsigned.exists_first (unsigned : IsUnsigned literal) :
    ∃ first rest, literal = first :: rest ∧ first.isDigit = true := by
  cases unsigned with
  | @parts whole fraction exponent isWhole _ _ =>
      rcases isWhole.isDigits with ⟨nonempty, all⟩
      rcases List.exists_cons_of_ne_nil nonempty with ⟨first, rest, rfl⟩
      exact ⟨first, rest ++ fraction ++ exponent, rfl, all first List.mem_cons_self⟩

theorem IsLiteral.exists_first (isLiteral : IsLiteral literal) :
    ∃ first rest, literal = first :: rest ∧ (first.isDigit = true ∨ first = '-') := by
  cases isLiteral with
  | unsigned unsigned =>
      rcases unsigned.exists_first with ⟨first, rest, rfl, digit⟩
      exact ⟨first, rest, rfl, .inl digit⟩
  | negative _ => exact ⟨_, _, rfl, .inr rfl⟩

/-! ## What the reader keeps has this form -/

theorem isDigits_of_scanDigits? (scanned : scanDigits? input = some (digits, rest)) :
    IsDigits digits ∧ input = digits ++ rest := by
  unfold scanDigits? at scanned
  split at scanned
  · cases scanned
  · rename_i nonempty
    cases scanned
    refine ⟨⟨?_, fun c mem => ?_⟩, List.takeWhile_append_dropWhile.symm⟩
    · intro none
      exact nonempty none
    · exact (List.all_eq_true.mp List.all_takeWhile) c mem

theorem isWhole_of_scanWhole? (scanned : scanWhole? input = some (whole, rest)) :
    IsWhole whole := by
  unfold scanWhole? at scanned
  split at scanned
  · cases scanned
    exact .zero
  · rename_i nonzero
    rcases isDigits_of_scanDigits? scanned with ⟨isDigits, inputEq⟩
    rcases List.exists_cons_of_ne_nil isDigits.1 with ⟨first, more, rfl⟩
    refine .digits ?_ isDigits
    rintro rfl
    exact nonzero _ inputEq

theorem isFraction_of_scanFraction? (scanned : scanFraction? input = some (fraction, rest)) :
    IsFraction fraction := by
  unfold scanFraction? at scanned
  split at scanned
  · rcases Option.map_eq_some_iff.mp scanned with ⟨⟨digits, _⟩, digitsScanned, same⟩
    cases same
    exact .digits (isDigits_of_scanDigits? digitsScanned).1
  · cases scanned
    exact .absent

theorem isExponent_of_scanExponent? (scanned : scanExponent? input = some (exponent, rest)) :
    IsExponent exponent := by
  unfold scanExponent? at scanned
  split at scanned
  · split at scanned
    · rcases Option.map_eq_some_iff.mp scanned with ⟨⟨signed, _⟩, signedScanned, same⟩
      cases same
      unfold scanSignedDigits? at signedScanned
      split at signedScanned
      all_goals
        rcases Option.map_eq_some_iff.mp signedScanned with ⟨⟨digits, _⟩, digitsScanned, same⟩
        cases same
        exact .digits (by decide) (isDigits_of_scanDigits? digitsScanned).1
    · cases scanned
      exact .absent
  · cases scanned
    exact .absent

theorem isUnsigned_of_scanUnsigned? (scanned : scanUnsigned? input = some (literal, rest)) :
    IsUnsigned literal := by
  unfold scanUnsigned? at scanned
  split at scanned
  · cases scanned
  · rename_i wholeScanned
    split at scanned
    · cases scanned
    · rename_i fractionScanned
      split at scanned
      · cases scanned
      · rename_i exponentScanned
        cases scanned
        exact .parts (isWhole_of_scanWhole? wholeScanned)
          (isFraction_of_scanFraction? fractionScanned)
          (isExponent_of_scanExponent? exponentScanned)

/-- The reader keeps literals of the fixed form. -/
theorem isLiteral_of_scanNumber? (scanned : scanNumber? input = some (literal, rest)) :
    IsLiteral literal := by
  unfold scanNumber? at scanned
  split at scanned
  · rcases Option.map_eq_some_iff.mp scanned with ⟨⟨unsigned, _⟩, unsignedScanned, same⟩
    cases same
    exact .negative (isUnsigned_of_scanUnsigned? unsignedScanned)
  · exact .unsigned (isUnsigned_of_scanUnsigned? scanned)

/-! ## Literals of this form are kept -/

/-- The digits in front of a text are where it stops to be one of digits. -/
theorem span_digits_append (all : ∀ c ∈ digits, c.isDigit = true) (ends : EndsDigits rest) :
    (digits ++ rest).takeWhile Char.isDigit = digits ∧
      (digits ++ rest).dropWhile Char.isDigit = rest := by
  have noneLeft : rest.takeWhile Char.isDigit = [] ∧ rest.dropWhile Char.isDigit = rest := by
    cases rest with
    | nil => exact ⟨rfl, rfl⟩
    | cons c rest =>
        have nonDigit := ends c rfl
        simp [nonDigit]
  rw [List.takeWhile_append_of_pos all, List.dropWhile_append_of_pos all, noneLeft.1,
    noneLeft.2, List.append_nil]
  exact ⟨rfl, rfl⟩

theorem scanDigits?_append (isDigits : IsDigits digits) (ends : EndsDigits rest) :
    scanDigits? (digits ++ rest) = some (digits, rest) := by
  rcases isDigits with ⟨nonempty, all⟩
  rcases span_digits_append all ends with ⟨taken, left⟩
  unfold scanDigits?
  rw [taken, left]
  cases digits with
  | nil => exact absurd rfl nonempty
  | cons first more => rfl

theorem scanWhole?_append (isWhole : IsWhole whole) (ends : EndsDigits rest) :
    scanWhole? (whole ++ rest) = some (whole, rest) := by
  cases isWhole with
  | zero => rfl
  | digits nonzero isDigits =>
      unfold scanWhole?
      split
      · rename_i inputEq
        cases inputEq
        exact absurd rfl nonzero
      · exact scanDigits?_append isDigits ends

theorem scanFraction?_append (isFraction : IsFraction fraction) (ends : EndsDigits rest)
    (noPoint : ∀ c ∈ rest.head?, c ≠ '.') :
    scanFraction? (fraction ++ rest) = some (fraction, rest) := by
  cases isFraction with
  | absent =>
      unfold scanFraction?
      split
      · rename_i inputEq
        rw [List.nil_append] at inputEq
        exact absurd rfl (noPoint '.' (by rw [inputEq]; rfl))
      · rfl
  | digits isDigits =>
      change (scanDigits? (_ ++ rest)).map _ = _
      rw [scanDigits?_append isDigits ends]
      rfl

theorem scanExponent?_append (isExponent : IsExponent exponent) (ends : EndsNumber rest) :
    scanExponent? (exponent ++ rest) = some (exponent, rest) := by
  cases isExponent with
  | absent =>
      cases rest with
      | nil => rfl
      | cons c rest =>
          rcases ends c rfl with ⟨_, _, notSmall, notLarge⟩
          simp [scanExponent?, notSmall, notLarge]
  | digits sign isDigits =>
      have scanned := scanDigits?_append isDigits ends.endsDigits
      rcases sign with rfl | rfl <;> simp [scanExponent?, scanSignedDigits?, scanned]

theorem endsDigits_exponent (isExponent : IsExponent exponent) (ends : EndsNumber rest) :
    ∀ c ∈ (exponent ++ rest).head?, c.isDigit = false ∧ c ≠ '.' := by
  cases isExponent with
  | absent => exact fun c mem => ⟨(ends c mem).1, (ends c mem).2.1⟩
  | digits _ _ =>
      rintro c ⟨⟩
      decide

theorem endsDigits_fraction (isFraction : IsFraction fraction) (ends : EndsDigits rest) :
    EndsDigits (fraction ++ rest) := by
  cases isFraction with
  | absent => exact ends
  | digits _ =>
      rintro c ⟨⟩
      rfl

/-- The parts of a number are read one after another. -/
theorem scanUnsigned?_parts {kept : List Char} (isWhole : IsWhole whole)
    (isFraction : IsFraction fraction)
    (ends : ∀ c ∈ exponent.head?, c.isDigit = false ∧ c ≠ '.')
    (scanned : scanExponent? exponent = some (kept, rest)) :
    scanUnsigned? (whole ++ (fraction ++ exponent)) = some (whole ++ (fraction ++ kept), rest) := by
  have fractionEnds : EndsDigits exponent := fun c mem => (ends c mem).1
  unfold scanUnsigned?
  rw [scanWhole?_append isWhole (endsDigits_fraction isFraction fractionEnds)]
  dsimp only
  rw [scanFraction?_append isFraction fractionEnds fun c mem => (ends c mem).2]
  dsimp only
  rw [scanned]
  dsimp only
  rw [List.append_assoc]

theorem scanUnsigned?_append (unsigned : IsUnsigned literal) (ends : EndsNumber rest) :
    scanUnsigned? (literal ++ rest) = some (literal, rest) := by
  cases unsigned with
  | @parts whole fraction exponent isWhole isFraction isExponent =>
      have parts : whole ++ fraction ++ exponent ++ rest =
          whole ++ (fraction ++ (exponent ++ rest)) := by simp
      rw [parts, List.append_assoc]
      exact scanUnsigned?_parts isWhole isFraction (endsDigits_exponent isExponent ends)
        (scanExponent?_append isExponent ends)

/-- Reading a literal of the fixed form keeps it. -/
theorem scanNumber?_append (isLiteral : IsLiteral literal) (ends : EndsNumber rest) :
    scanNumber? (literal ++ rest) = some (literal, rest) := by
  cases isLiteral with
  | unsigned unsigned =>
      rcases unsigned.exists_first with ⟨first, more, rfl, digit⟩
      unfold scanNumber?
      split
      · rename_i inputEq
        cases inputEq
        cases digit
      · exact scanUnsigned?_append unsigned ends
  | negative unsigned =>
      change (scanUnsigned? (_ ++ rest)).map _ = _
      rw [scanUnsigned?_append unsigned ends]
      rfl

/-! ## Numbers as tokens -/

/-- What begins like a number is not taken for any other token. -/
theorem next?_of_scanNumber? {first : Char} {more : List Char}
    (begins : first.isDigit = true ∨ first = '-')
    (scanned : scanNumber? (first :: more) = some (literal, rest)) :
    next? (first :: more) = some (.number (String.ofList literal), rest) := by
  unfold next?
  split
  case h_11 =>
    rw [scanned]
    rfl
  all_goals
    rename_i inputEq
    rcases List.cons_eq_cons.mp inputEq with ⟨rfl, _⟩
    exact absurd begins (by decide)

theorem isBlank_of_begins {first : Char} (begins : first.isDigit = true ∨ first = '-') :
    isBlank first = false := by
  rcases begins with digit | rfl
  · unfold isBlank
    simp only [Bool.or_eq_false_iff, beq_eq_false_iff_ne]
    refine ⟨⟨⟨?_, ?_⟩, ?_⟩, ?_⟩
    all_goals
      rintro rfl
      cases digit
  · rfl

/-! ## Natural numbers -/

theorem isDigits_toDigits (value : Nat) : IsDigits (Nat.toDigits 10 value) :=
  ⟨Nat.toDigits_ne_nil, fun _ mem => Nat.isDigit_of_mem_toDigits (by decide) (by decide) mem⟩

/-- Only the numeral of zero begins with a zero. -/
theorem head?_toDigits_ne {value : Nat} (positive : 0 < value) :
    (Nat.toDigits 10 value).head? ≠ some '0' := by
  induction value using Nat.strongRecOn with
  | _ value ih =>
      rw [Nat.toDigits_eq_if (by decide)]
      split
      · rename_i small
        have oneDigit : ∀ digit, digit < 10 → 0 < digit → Nat.digitChar digit ≠ '0' := by decide
        simpa using oneDigit value small positive
      · rename_i large
        have front := ih (value / 10) (by omega) (by omega)
        rcases List.exists_cons_of_ne_nil (isDigits_toDigits (value / 10)).1 with
          ⟨first, rest, digitsEq⟩
        rw [digitsEq] at front ⊢
        exact front

theorem isWhole_toDigits (value : Nat) : IsWhole (Nat.toDigits 10 value) := by
  rcases Nat.eq_zero_or_pos value with rfl | positive
  · exact .zero
  · have isDigits := isDigits_toDigits value
    have front := head?_toDigits_ne positive
    rcases List.exists_cons_of_ne_nil isDigits.1 with ⟨first, rest, digitsEq⟩
    rw [digitsEq] at isDigits front ⊢
    refine .digits ?_ isDigits
    rintro rfl
    exact front rfl

/-- The numerals of natural numbers are literals. -/
theorem isLiteral_repr (value : Nat) : IsLiteral (Nat.repr value).toList := by
  rw [Nat.repr_eq_ofList_toDigits, String.toList_ofList]
  have parts := IsUnsigned.parts (isWhole_toDigits value) .absent .absent
  rw [List.append_nil, List.append_nil] at parts
  exact .unsigned parts

end DreamWorld.Json.Token
