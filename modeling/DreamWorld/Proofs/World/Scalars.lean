import DreamWorld.Proofs.Number.Bits
import DreamWorld.Proofs.Number.Integer
import DreamWorld.Proofs.World.Action
import DreamWorld.World.Operator.Apply

/-!
# Operators on scalars

An operator whose left operand is no object asks no hook and leaves the world as it is.  Null
counts as zero in it, but next to a text that is added it counts as the empty text.  On
integers a sum or difference is exact or, out of range, a float; the operators on bits work on
two's complements.  What fails is blamed on the first operand that the operator does not
accept, and the message names both as users know them.
-/

namespace DreamWorld

/-! ## What operands count as -/

namespace Value

/-- A value counts as itself, and null also as zero. -/
inductive CountsAs : Value → Value → Prop
  | self (value : Value) : CountsAs value value
  | zero : CountsAs .null (.integer 0)

/-- The integer that an integer or null counts as. -/
def whole? : Value → Option Int
  | .null => some 0
  | .integer value => some value.toInt
  | _ => none

/-- Null and numbers. -/
def IsNumeric : Value → Prop
  | .null | .integer _ | .float _ => True
  | _ => False

/-- The text that two values make up when they are added: at least one of them is a text, and
null counts as the empty one. -/
def joined? : Value → Value → Option String
  | .text x, .text y => some (x ++ y)
  | .text x, .null => some x
  | .null, .text y => some y
  | _, _ => none

/-- What a value is called in messages.  An object is called by the path of its class. -/
inductive IsCalled : Value → String → Prop
  | null : IsCalled .null "null"
  | integer (value : Int32) : IsCalled (.integer value) "num"
  | float (value : Single) : IsCalled (.float value) "num"
  | text (value : String) : IsCalled (.text value) "text"
  | path (value : Path) : IsCalled (.path value) "path"
  | resource (value : Resource) : IsCalled (.resource value) "resource"
  | object (ref : ObjectRef) : IsCalled (.object ref) ref.type.toText
  | proc (value : Proc) : IsCalled (.proc value) "proc"

variable {a b : Value} {m : Int} {kind : String}

theorem isCalled_iff : a.IsCalled kind ↔ kind = a.typeName := by
  constructor
  · intro called
    cases called <;> rfl
  · rintro rfl
    cases a <;> constructor

theorem exists_countsAs_integer (whole : a.whole? = some m) :
    ∃ x : Int32, a.CountsAs (.integer x) ∧ x.toInt = m := by
  cases a <;> cases whole
  case null => exact ⟨0, .zero, rfl⟩
  case integer x => exact ⟨x, .self _, rfl⟩

/-- Integers and null are not joined. -/
theorem joined?_of_whole? (whole : a.whole? = some m) (otherWhole : b.whole?.isSome = true) :
    a.joined? b = none := by
  cases a <;> cases whole <;> cases b <;> first | rfl | cases otherWhole

end Value

namespace Operator

open Value (CountsAs)

variable {operator : Operator} {a b x y : Value} {error : RuntimeError}
  {exact : Int32 → Int32 → Option Int32} {rounded : Single → Single → Single}
  {apply : Int32 → Int32 → Option Int32}

/-- The operators that join texts. -/
def IsAddition : Operator → Prop
  | .add | .append => True
  | _ => False

/-- How an operator is written. -/
inductive IsWritten : Operator → String → Prop
  | output : IsWritten .output "<<"
  | add : IsWritten .add "+"
  | subtract : IsWritten .subtract "-"
  | append : IsWritten .append "+="
  | remove : IsWritten .remove "-="
  | combine : IsWritten .combine "|="
  | mask : IsWritten .mask "&="

theorem isWritten_iff {symbol : String} :
    operator.IsWritten symbol ↔ symbol = operator.symbol := by
  constructor
  · intro written
    cases written <;> rfl
  · rintro rfl
    cases operator <;> constructor

/-- The operator joins its operands to a text. -/
def Joins (operator : Operator) (a b : Value) : Prop :=
  operator.IsAddition ∧ (a.joined? b).isSome = true

/-! ## Null counts as zero -/

theorem arithmetic_countsAs (left : a.CountsAs x) (right : b.CountsAs y) :
    arithmetic operator exact rounded x y = arithmetic operator exact rounded a b := by
  cases left with
  | self =>
      cases right with
      | self => rfl
      | zero => cases a <;> rfl
  | zero =>
      cases right with
      | self => cases b <;> rfl
      | zero => rfl

theorem addition_of_joined? {text : String} (joined : a.joined? b = some text) :
    addition operator a b = .ok (.text text) := by
  cases a <;> cases b <;> cases joined <;> rfl

/-- What is not joined is added as numbers. -/
theorem addition_of_not_joined? (notJoined : a.joined? b = none) :
    addition operator a b = arithmetic operator Integer.add? Single.add a b := by
  cases a <;> cases b <;> first | rfl | cases notJoined

theorem joined?_countsAs (notJoined : a.joined? b = none) (left : a.CountsAs x)
    (right : b.CountsAs y) : x.joined? y = none := by
  cases left with
  | self =>
      cases right with
      | self => exact notJoined
      | zero => cases a <;> rfl
  | zero => cases right <;> rfl

theorem onScalars_of_joined? {text : String} (addition : operator.IsAddition)
    (joined : a.joined? b = some text) : onScalars operator a b = .ok (.text text) := by
  cases operator with
  | add | append => exact addition_of_joined? joined
  | _ => cases addition

/-- An operator on bits that has a result for zero on the right does not tell null from it. -/
theorem bitwise_countsAs (onZero : ∀ m, (apply m 0).isSome = true) (left : a.CountsAs x)
    (right : b.CountsAs y) : bitwise operator apply x y = bitwise operator apply a b := by
  have blamesNoZero (m : Int32) :
      bitwise operator apply (.integer m) (.integer 0) =
        bitwise operator apply (.integer m) .null := by
    rcases Option.isSome_iff_exists.mp (onZero m) with ⟨result, resultEq⟩
    simp only [bitwise, integer?, numeric?, resultEq]
  cases left with
  | self =>
      cases right with
      | self => rfl
      | zero =>
          cases a with
          | null => exact blamesNoZero 0
          | integer m => exact blamesNoZero m
          | _ => rfl
  | zero =>
      cases right with
      | self => cases b <;> rfl
      | zero => exact blamesNoZero 0

/-- Sums of texts apart, null may be replaced by zero on either side of an operator. -/
theorem onScalars_countsAs (apart : ¬ operator.Joins a b) (left : a.CountsAs x)
    (right : b.CountsAs y) : onScalars operator x y = onScalars operator a b := by
  cases operator with
  | add | append =>
      have notJoined : a.joined? b = none := by simpa [Joins, IsAddition] using apart
      simp only [onScalars]
      rw [addition_of_not_joined? notJoined,
        addition_of_not_joined? (joined?_countsAs notJoined left right)]
      exact arithmetic_countsAs left right
  | subtract | remove => exact arithmetic_countsAs left right
  | combine | mask | output =>
      simp only [onScalars]
      exact bitwise_countsAs (fun _ => rfl) left right

/-! ## Integers -/

/-- The outcome is the exact value where this is in range, and otherwise a float. -/
def IsExactOr (value : Int) (inexact : Single) (outcome : Except RuntimeError Value) : Prop :=
  if -2 ^ 31 ≤ value ∧ value ≤ 2 ^ 31 - 1 then
    ∃ result : Int32, outcome = .ok (.integer result) ∧ result.toInt = value
  else outcome = .ok (.float inexact)

/-- The outcome of an operator on two integers: sums and differences leave the integers only
out of range, bits are those of two's complements, and a shift by less than the width of a word
multiplies modulo 2^32. -/
def Calculates (operator : Operator) (m n : Int) (outcome : Except RuntimeError Value) : Prop :=
  match operator with
  | .add | .append => IsExactOr (m + n) (.add (.ofInt m) (.ofInt n)) outcome
  | .subtract | .remove => IsExactOr (m - n) (.subtract (.ofInt m) (.ofInt n)) outcome
  | .combine => ∃ result : Int32, outcome = .ok (.integer result) ∧ result.toInt = m.lor n
  | .mask => ∃ result : Int32, outcome = .ok (.integer result) ∧ result.toInt = m.land n
  | .output =>
      if 0 ≤ n ∧ n ≤ 31 then
        ∃ result : Int32, outcome = .ok (.integer result) ∧
          result.toInt = (m * 2 ^ n.toNat).bmod (2 ^ 32)
      else ∃ error, outcome = .error error

theorem isExactOr_arithmetic (operator : Operator) {m n : Int32} {value : Int}
    (exactEq : exact m n = Integer.ofInt? value) :
    IsExactOr value (rounded (.ofInt m.toInt) (.ofInt n.toInt))
      (arithmetic operator exact rounded (.integer m) (.integer n)) := by
  have fits : (Integer.ofInt? value).isSome = true ↔ -2 ^ 31 ≤ value ∧ value ≤ 2 ^ 31 - 1 :=
    Integer.isSome_ofInt?_iff
  unfold IsExactOr arithmetic
  simp only [numeric?, exactEq]
  split
  · rename_i inRange
    rcases Option.isSome_iff_exists.mp (fits.mpr inRange) with ⟨result, resultEq⟩
    rw [resultEq]
    exact ⟨result, rfl, Integer.ofInt?_eq_some_iff.mp resultEq⟩
  · rename_i outOfRange
    have noResult : Integer.ofInt? value = none := by
      rw [← Option.not_isSome_iff_eq_none, fits]
      exact outOfRange
    rw [noResult]
    rfl

theorem calculates_onScalars_integers (operator : Operator) (m n : Int32) :
    operator.Calculates m.toInt n.toInt (onScalars operator (.integer m) (.integer n)) := by
  cases operator with
  | add | append =>
      simp only [onScalars]
      rw [addition_of_not_joined? rfl]
      exact isExactOr_arithmetic _ rfl
  | subtract | remove =>
      simp only [onScalars]
      exact isExactOr_arithmetic _ rfl
  | combine => exact ⟨m ||| n, rfl, Integer.toInt_or m n⟩
  | mask => exact ⟨m &&& n, rfl, Integer.toInt_and m n⟩
  | output =>
      simp only [Calculates, onScalars, bitwise, integer?, numeric?]
      split
      · rename_i inWord
        have shifted : Integer.shiftLeft? m n = some (m <<< n) := if_pos inWord
        rw [shifted]
        exact ⟨m <<< n, rfl, Integer.toInt_shiftLeft inWord⟩
      · rename_i outOfWord
        have noResult : Integer.shiftLeft? m n = none := if_neg outOfWord
        rw [noResult]
        exact ⟨_, rfl⟩

/-- On integers and null an operator calculates with the integers that they count as. -/
theorem calculates_onScalars {m n : Int} (operator : Operator) (left : a.whole? = some m)
    (right : b.whole? = some n) : operator.Calculates m n (onScalars operator a b) := by
  rcases Value.exists_countsAs_integer left with ⟨x, leftCounts, rfl⟩
  rcases Value.exists_countsAs_integer right with ⟨y, rightCounts, rfl⟩
  have notJoined : a.joined? b = none :=
    Value.joined?_of_whole? left (Option.isSome_of_eq_some right)
  have apart : ¬ operator.Joins a b := by simp [Joins, notJoined]
  rw [← onScalars_countsAs apart leftCounts rightCounts]
  exact calculates_onScalars_integers operator x y

/-! ## Failures -/

/-- What an operator accepts on its left, texts that are joined apart. -/
def AcceptsLeft (operator : Operator) (a : Value) : Prop :=
  match operator with
  | .add | .append | .subtract | .remove => a.IsNumeric
  | .combine | .mask | .output => ∃ m, a.whole? = some m

/-- What an operator accepts on its right.  Only a shift makes a difference: its distance
must be within a word. -/
def AcceptsRight (operator : Operator) (b : Value) : Prop :=
  match operator with
  | .output => ∃ n, b.whole? = some n ∧ 0 ≤ n ∧ n ≤ 31
  | _ => operator.AcceptsLeft b

/-- The value is the first of two operands that is not accepted. -/
def FirstRejected (left right : Value → Prop) (a b value : Value) : Prop :=
  (¬ left a ∧ value = a) ∨ (left a ∧ ¬ right b ∧ value = b)

/-- The failure is that of an operator on the first operand that is not accepted. -/
def Blamed (operator : Operator) (left right : Value → Prop) (a b : Value)
    (error : RuntimeError) : Prop :=
  ∃ value, FirstRejected left right a b value ∧ error = unsupported operator value

section

variable {left right : Value → Prop}

theorem blamed_of_left (rejected : ¬ left a) :
    Blamed operator left right a b error ↔ error = unsupported operator a := by
  simp [Blamed, FirstRejected, rejected]

theorem blamed_of_right (accepted : left a) (rejected : ¬ right b) :
    Blamed operator left right a b error ↔ error = unsupported operator b := by
  simp [Blamed, FirstRejected, accepted, rejected]

theorem not_blamed (leftAccepted : left a) (rightAccepted : right b) :
    ¬ Blamed operator left right a b error := by
  simp [Blamed, FirstRejected, leftAccepted, rightAccepted]

end

theorem isNumeric_iff : a.IsNumeric ↔ (numeric? a).isSome = true := by
  cases a <;> simp [Value.IsNumeric, numeric?]

theorem exists_asSingle_of_numeric? (numeric : numeric? a = some x) :
    ∃ single, x.asSingle = .ok single := by
  cases a <;> cases numeric <;> exact ⟨_, rfl⟩

theorem exists_arithmetic_eq_ok (left : a.IsNumeric) (right : b.IsNumeric) :
    ∃ value, arithmetic operator exact rounded a b = .ok value := by
  rw [isNumeric_iff, Option.isSome_iff_exists] at left right
  rcases left with ⟨x, left⟩
  rcases right with ⟨y, right⟩
  rcases exists_asSingle_of_numeric? left with ⟨m, leftSingle⟩
  rcases exists_asSingle_of_numeric? right with ⟨n, rightSingle⟩
  unfold arithmetic
  simp only [left, right, leftSingle, rightSingle]
  split
  · exact ⟨_, rfl⟩
  · exact ⟨_, rfl⟩

theorem arithmetic_eq_error_iff :
    arithmetic operator exact rounded a b = .error error ↔
      Blamed operator Value.IsNumeric Value.IsNumeric a b error := by
  by_cases left : a.IsNumeric
  · by_cases right : b.IsNumeric
    · rcases exists_arithmetic_eq_ok left right with ⟨value, run⟩
      rw [run]
      exact iff_of_false nofun (not_blamed left right)
    · rw [blamed_of_right left right]
      rw [isNumeric_iff, Option.isSome_iff_exists] at left
      rw [isNumeric_iff, Option.not_isSome_iff_eq_none] at right
      rcases left with ⟨x, left⟩
      simp [arithmetic, culprit, left, right, @eq_comm _ error]
  · rw [blamed_of_left left]
    rw [isNumeric_iff, Option.not_isSome_iff_eq_none] at left
    simp [arithmetic, culprit, left, @eq_comm _ error]

theorem whole?_eq (a : Value) : a.whole? = (integer? a).map Int32.toInt := by
  cases a <;> rfl

theorem exists_whole?_iff : (∃ m, a.whole? = some m) ↔ ∃ m, integer? a = some m := by
  simp [whole?_eq]

theorem bitwise_eq_error_iff {right : Value → Prop}
    (defined : ∀ m, right b ↔ ∃ n, integer? b = some n ∧ (apply m n).isSome = true) :
    bitwise operator apply a b = .error error ↔
      Blamed operator (fun a => ∃ m, a.whole? = some m) right a b error := by
  by_cases left : ∃ m, a.whole? = some m
  · by_cases accepted : right b
    · refine iff_of_false ?_ (not_blamed left accepted)
      rw [exists_whole?_iff] at left
      rcases left with ⟨m, left⟩
      rcases (defined m).mp accepted with ⟨n, whole, isSome⟩
      rcases Option.isSome_iff_exists.mp isSome with ⟨result, resultEq⟩
      simp [bitwise, left, whole, resultEq]
    · rw [blamed_of_right left accepted]
      rw [exists_whole?_iff] at left
      rcases left with ⟨m, left⟩
      rw [defined m] at accepted
      unfold bitwise
      cases whole : integer? b with
      | none => simp [left, @eq_comm _ error]
      | some n =>
          have noResult : apply m n = none := by
            rw [← Option.not_isSome_iff_eq_none]
            exact fun isSome => accepted ⟨n, whole, isSome⟩
          simp [left, noResult, @eq_comm _ error]
  · rw [blamed_of_left left]
    rw [exists_whole?_iff, not_exists, ← Option.eq_none_iff_forall_ne_some] at left
    simp [bitwise, left, @eq_comm _ error]

/-- A shift has a result exactly for a distance within a word. -/
theorem acceptsRight_output_iff (m : Int32) :
    AcceptsRight .output b ↔
      ∃ n, integer? b = some n ∧ (Integer.shiftLeft? m n).isSome = true := by
  unfold AcceptsRight Integer.shiftLeft?
  simp only [whole?_eq, Option.map_eq_some_iff, Option.isSome_ite]
  constructor
  · rintro ⟨_, ⟨n, whole, rfl⟩, inWord⟩
    exact ⟨n, whole, inWord⟩
  · rintro ⟨n, whole, inWord⟩
    exact ⟨_, ⟨n, whole, rfl⟩, inWord⟩

/-- An operator that does not join its operands fails exactly when it does not accept one of
them, and blames the first such operand. -/
theorem onScalars_eq_error_iff :
    onScalars operator a b = .error error ↔
      ¬ operator.Joins a b ∧
        Blamed operator operator.AcceptsLeft operator.AcceptsRight a b error := by
  cases operator with
  | add | append =>
      simp only [onScalars]
      cases joined : a.joined? b with
      | some text =>
          rw [addition_of_joined? joined]
          simp [Joins, IsAddition, joined]
      | none =>
          rw [addition_of_not_joined? joined, arithmetic_eq_error_iff]
          simp only [Joins, joined, Option.isSome_none, Bool.false_eq_true, and_false,
            not_false_eq_true, true_and]
          rfl
  | subtract | remove =>
      simp only [onScalars, arithmetic_eq_error_iff, Joins, IsAddition, false_and,
        not_false_eq_true, true_and]
      rfl
  | combine | mask =>
      simp only [onScalars, Joins, IsAddition, false_and, not_false_eq_true, true_and]
      exact bitwise_eq_error_iff fun _ => by simp [AcceptsRight, AcceptsLeft, exists_whole?_iff]
  | output =>
      simp only [onScalars, Joins, IsAddition, false_and, not_false_eq_true, true_and]
      exact bitwise_eq_error_iff acceptsRight_output_iff

/-! ## Operators that differ in their symbols only -/

theorem arithmetic_eq_ok_iff (operator other : Operator) {result : Value} :
    arithmetic operator exact rounded a b = .ok result ↔
      arithmetic other exact rounded a b = .ok result := by
  unfold arithmetic
  split
  · exact Iff.rfl
  · exact iff_of_false nofun nofun

theorem addition_eq_ok_iff (operator other : Operator) {result : Value} :
    addition operator a b = .ok result ↔ addition other a b = .ok result := by
  cases joined : a.joined? b with
  | some text => rw [addition_of_joined? joined, addition_of_joined? joined]
  | none =>
      rw [addition_of_not_joined? joined, addition_of_not_joined? joined]
      exact arithmetic_eq_ok_iff operator other

/-! ## Operators of a running world -/

theorem apply_of_ne_object (scalar : ∀ ref, a ≠ .object ref) (operator : Operator) (b : Value) :
    operator.apply a b = Action.ofExcept (onScalars operator a b) := by
  cases a
  case object ref => exact absurd rfl (scalar ref)
  all_goals rfl

/-- What a scalar counts as is a scalar. -/
theorem ne_object_of_countsAs (scalar : ∀ ref, a ≠ .object ref) (counts : a.CountsAs x) :
    ∀ ref, x ≠ .object ref := by
  cases counts with
  | self => exact scalar
  | zero => exact nofun

/-- A failure that is blamed on an operand names the operator as it is written and the operand
as it is called. -/
theorem eq_unsupported_iff {value : Value} :
    error = unsupported operator value ↔
      ∃ kind symbol, value.IsCalled kind ∧ operator.IsWritten symbol ∧
        error = .unsupportedOperator operator kind ∧
        error.message = "operator '" ++ symbol ++ "' is not supported on " ++ kind := by
  simp only [Value.isCalled_iff, isWritten_iff]
  constructor
  · rintro rfl
    exact ⟨_, _, rfl, rfl, rfl, rfl⟩
  · rintro ⟨_, _, rfl, rfl, errorEq, _⟩
    exact errorEq

/-- An operator whose left operand is no object leaves the world as it is.

* Null may be replaced by zero on either side, except where the operands are joined to a text:
  there it acts as the empty text.
* On integers and null the operator calculates with the integers that they count as.
* Add and append give the same results, and so do subtract and remove.
* The operator fails exactly when it joins no texts and rejects an operand; the failure names
  the operator as it is written and what the first operand that is rejected is called. -/
theorem apply_on_scalars (operator : Operator) {a : Value} (scalar : ∀ ref, a ≠ .object ref)
    (b : Value) (store : Store) :
    (∃ outcome, (operator.apply a b).runOn store = (outcome, store)) ∧
    (¬ operator.Joins a b → ∀ x y, a.CountsAs x → b.CountsAs y →
      operator.apply x y = operator.apply a b) ∧
    (operator.IsAddition →
      (∀ text, a.joined? b = some text →
        (operator.apply a b).runOn store = (.ok (.text text), store)) ∧
      ∀ text,
        operator.apply (.text text) .null = operator.apply (.text text) (.text "") ∧
        operator.apply .null (.text text) = operator.apply (.text "") (.text text)) ∧
    (∀ m n, a.whole? = some m → b.whole? = some n →
      ∃ outcome, (operator.apply a b).runOn store = (outcome, store) ∧
        operator.Calculates m n outcome) ∧
    (∀ result, (add.apply a b).runOn store = (.ok result, store) ↔
      (append.apply a b).runOn store = (.ok result, store)) ∧
    (∀ result, (subtract.apply a b).runOn store = (.ok result, store) ↔
      (remove.apply a b).runOn store = (.ok result, store)) ∧
    ∀ error, (operator.apply a b).runOn store = (.error error, store) ↔
      ¬ operator.Joins a b ∧
        ∃ value, FirstRejected operator.AcceptsLeft operator.AcceptsRight a b value ∧
          ∃ kind symbol, value.IsCalled kind ∧ operator.IsWritten symbol ∧
            error = .unsupportedOperator operator kind ∧
            error.message = "operator '" ++ symbol ++ "' is not supported on " ++ kind := by
  have run (operator : Operator) :
      (operator.apply a b).runOn store = (onScalars operator a b, store) := by
    rw [apply_of_ne_object scalar, Action.runOn_ofExcept]
  have outcome_iff (operator : Operator) (outcome : Except RuntimeError Value) :
      (operator.apply a b).runOn store = (outcome, store) ↔
        onScalars operator a b = outcome := by
    rw [run, Prod.mk.injEq, and_iff_left rfl]
  refine ⟨⟨_, run operator⟩, ?_, fun addition => ⟨?_, ?_⟩, ?_, ?_, ?_, ?_⟩
  · intro apart x y left right
    rw [apply_of_ne_object scalar, apply_of_ne_object (ne_object_of_countsAs scalar left),
      onScalars_countsAs apart left right]
  · intro text joined
    rw [run, onScalars_of_joined? addition joined]
  · intro text
    have scalarText (text : String) : ∀ ref, Value.text text ≠ .object ref := fun _ => nofun
    have scalarNull : ∀ ref, Value.null ≠ .object ref := fun _ => nofun
    have joinedLeft : Value.joined? (.text text) (.text "") = some text := by
      simp [Value.joined?]
    have joinedRight : Value.joined? (.text "") (.text text) = some text := by
      simp [Value.joined?]
    rw [apply_of_ne_object (scalarText text), apply_of_ne_object (scalarText text),
      apply_of_ne_object (scalarText ""), apply_of_ne_object scalarNull,
      onScalars_of_joined? addition joinedLeft, onScalars_of_joined? addition joinedRight,
      onScalars_of_joined? addition rfl, onScalars_of_joined? addition rfl]
    exact ⟨rfl, rfl⟩
  · intro m n left right
    exact ⟨_, run operator, calculates_onScalars operator left right⟩
  · intro result
    rw [outcome_iff, outcome_iff]
    exact addition_eq_ok_iff add append
  · intro result
    rw [outcome_iff, outcome_iff]
    exact arithmetic_eq_ok_iff subtract remove
  · intro error
    rw [outcome_iff, onScalars_eq_error_iff]
    simp only [Blamed, eq_unsupported_iff]

/-- The greatest integer and one are appended to the float 2147483648.  A shift by 32 is blamed
on its distance, and a path that is subtracted from a text is blamed on the text. -/
theorem apply_on_scalars_greatest :
    (∀ ref, Value.integer 2147483647 ≠ .object ref) ∧
      (append.apply (.integer 2147483647) (.integer 1)).runOn {} =
        (.ok (.float (.add (.ofInt 2147483647) (.ofInt 1))), {}) ∧
      (∃ error, (output.apply (.integer 1) (.integer 32)).runOn {} = (.error error, {}) ∧
        error.message = "operator '<<' is not supported on num") ∧
      ∃ error, (subtract.apply (.text "a") (.path Path.root)).runOn {} = (.error error, {}) ∧
        error.message = "operator '-' is not supported on text" := by
  have scalar : ∀ ref, Value.integer 2147483647 ≠ .object ref := fun _ => nofun
  refine ⟨scalar, ?_, ?_, ?_⟩
  · obtain ⟨_, _, _, calculates, _⟩ := apply_on_scalars append scalar (.integer 1) {}
    obtain ⟨outcome, run, exact⟩ := calculates 2147483647 1 rfl rfl
    have outOfRange :
        ¬ (-2 ^ 31 ≤ (2147483647 + 1 : Int) ∧ (2147483647 + 1 : Int) ≤ 2 ^ 31 - 1) := by
      decide
    rw [Calculates, IsExactOr, if_neg outOfRange] at exact
    rw [run, exact]
  · obtain ⟨_, _, _, _, _, _, fails⟩ :=
      apply_on_scalars output (a := .integer 1) (fun _ => nofun) (.integer 32) {}
    have tooFar : FirstRejected output.AcceptsLeft output.AcceptsRight (.integer 1)
        (.integer 32) (.integer 32) := by
      refine .inr ⟨⟨1, rfl⟩, ?_, rfl⟩
      rintro ⟨n, whole, _, inWord⟩
      cases whole
      exact absurd inWord (by decide)
    exact ⟨_, (fails _).mpr ⟨fun joins => joins.1, _, tooFar, _, _, .integer 32, .output, rfl, rfl⟩,
      rfl⟩
  · obtain ⟨_, _, _, _, _, _, fails⟩ :=
      apply_on_scalars subtract (a := .text "a") (fun _ => nofun) (.path Path.root) {}
    have noNumber : FirstRejected subtract.AcceptsLeft subtract.AcceptsRight (.text "a")
        (.path Path.root) (.text "a") := .inl ⟨id, rfl⟩
    exact ⟨_, (fails _).mpr ⟨fun joins => joins.1, _, noNumber, _, _, .text "a", .subtract, rfl,
      rfl⟩, rfl⟩

end Operator

end DreamWorld
