import DreamWorld.Number.Integer
import Mathlib.Data.Int.Bitwise

/-!
# Bits of integers

An integer of 32 bits has the bits of its two's complement, with the sign continued without
end.  So an operation on the bits of two integers gives the integer with these bits.  A shift
to the left multiplies by a power of two, modulo 2^32.
-/

namespace DreamWorld

/-! ## Integers by their bits -/

/-- Two integers with the same bits are equal. -/
theorem eq_of_testBit_eq {m n : Int} (same : ∀ i, m.testBit i = n.testBit i) : m = n := by
  -- far enough to the left, the bits of an integer are its sign
  have far (value other : Nat) : value.testBit (value + other) = false ∧
      other.testBit (value + other) = false :=
    ⟨Nat.testBit_lt_two_pow (Nat.lt_of_le_of_lt (Nat.le_add_right _ _) Nat.lt_two_pow_self),
      Nat.testBit_lt_two_pow (Nat.lt_of_le_of_lt (Nat.le_add_left _ _) Nat.lt_two_pow_self)⟩
  cases m with
  | ofNat m =>
      cases n with
      | ofNat n => exact congrArg Int.ofNat (Nat.eq_of_testBit_eq same)
      | negSucc n =>
          have differs := same (m + n)
          simp [Int.testBit, far m n] at differs
  | negSucc m =>
      cases n with
      | ofNat n =>
          have differs := same (m + n)
          simp [Int.testBit, far m n] at differs
      | negSucc n =>
          refine congrArg Int.negSucc (Nat.eq_of_testBit_eq fun i => ?_)
          exact Bool.not_inj (same i)

/-- The bits of a signed word; beyond the word they are its sign. -/
theorem testBit_toInt {width : Nat} (word : BitVec width) (i : Nat) :
    word.toInt.testBit i = if i < width then word.getLsbD i else word.msb := by
  cases sign : word.msb with
  | false =>
      rw [BitVec.toInt_eq_toNat_of_msb sign]
      change word.toNat.testBit i = _
      rw [BitVec.testBit_toNat]
      split
      · rfl
      · rename_i beyond
        exact BitVec.getLsbD_of_ge word i (Nat.le_of_not_lt beyond)
  | true =>
      have negative : word.toInt = Int.negSucc (~~~word).toNat := by
        rw [BitVec.toInt_eq_msb_cond, sign, BitVec.toNat_not]
        have bound := word.isLt
        simp only [if_true]
        omega
      rw [negative]
      change (!(~~~word).toNat.testBit i) = _
      rw [BitVec.testBit_toNat, BitVec.getLsbD_not]
      by_cases inside : i < width <;> simp [inside]

namespace Integer

variable {a b : Int32}

theorem toInt_or (a b : Int32) : (a ||| b).toInt = a.toInt.lor b.toInt := by
  apply eq_of_testBit_eq
  intro i
  rw [Int.testBit_lor, ← Int32.toInt_toBitVec, ← Int32.toInt_toBitVec, ← Int32.toInt_toBitVec,
    Int32.toBitVec_or, testBit_toInt, testBit_toInt, testBit_toInt, BitVec.getLsbD_or,
    BitVec.msb_or]
  split <;> rfl

theorem toInt_and (a b : Int32) : (a &&& b).toInt = a.toInt.land b.toInt := by
  apply eq_of_testBit_eq
  intro i
  rw [Int.testBit_land, ← Int32.toInt_toBitVec, ← Int32.toInt_toBitVec, ← Int32.toInt_toBitVec,
    Int32.toBitVec_and, testBit_toInt, testBit_toInt, testBit_toInt, BitVec.getLsbD_and,
    BitVec.msb_and]
  split <;> rfl

/-- A distance within the word is not reduced by its width. -/
theorem toNat_distance (inWord : 0 ≤ b.toInt ∧ b.toInt ≤ 31) :
    (b.toBitVec.smod 32).toNat = b.toInt.toNat := by
  have width : (32 : BitVec 32).toInt = 32 := rfl
  have reduced : (b.toBitVec.smod 32).toInt = b.toInt := by
    rw [BitVec.toInt_smod, width, Int32.toInt_toBitVec]
    exact Int.fmod_eq_of_lt inWord.1 (by omega)
  rw [BitVec.toInt_eq_toNat_cond] at reduced
  have bound := (b.toBitVec.smod 32).isLt
  split at reduced <;> omega

/-- A shift by a distance within the word multiplies by a power of two. -/
theorem toInt_shiftLeft (inWord : 0 ≤ b.toInt ∧ b.toInt ≤ 31) :
    (a <<< b).toInt = (a.toInt * 2 ^ b.toInt.toNat).bmod (2 ^ 32) := by
  calc (a <<< b).toInt
      = (a.toBitVec <<< b.toInt.toNat).toInt := by
        rw [← Int32.toInt_toBitVec, Int32.toBitVec_shiftLeft, BitVec.shiftLeft_eq',
          toNat_distance inWord]
    _ = ((a.toBitVec.toNat : Int) * 2 ^ b.toInt.toNat).bmod (2 ^ 32) := by
        rw [BitVec.toInt_shiftLeft, Nat.shiftLeft_eq]
        push_cast
        rfl
    _ = (a.toInt * 2 ^ b.toInt.toNat).bmod (2 ^ 32) := by
        rw [← Int32.toInt_toBitVec a, BitVec.toInt_eq_toNat_bmod a.toBitVec, Int.bmod_mul_bmod]

end Integer

end DreamWorld
