import DreamWorld.Number.Single
import Mathlib.Algebra.Order.Ring.Int
import Mathlib.Data.Nat.Log

/-!
# Rounding integers to singles

An integer becomes the nearest single.  Rounding keeps the order of integers, though it may make
different ones equal.  It does so only beyond 2^24: up to there every integer is a single.
-/

namespace DreamWorld.Single

/-! ## Words -/

/-- Negation changes the sign bit only. -/
@[simp]
theorem magnitude_negate (x : Single) : x.negate.magnitude = x.magnitude := by
  change (x.bits.toNat ^^^ 2 ^ 31) % 2 ^ 31 = x.bits.toNat % 2 ^ 31
  rw [Nat.xor_mod_two_pow, Nat.mod_self, Nat.xor_zero]

@[simp]
theorem isFinite_negate (x : Single) : x.negate.isFinite = x.isFinite := by
  rw [isFinite, magnitude_negate, isFinite]

section

variable (negative : Bool) {word : Nat} (small : word < signWord)

include small

theorem toNat_bits_ofMagnitude :
    (ofMagnitude negative word).bits.toNat = if negative then signWord + word else word := by
  unfold ofMagnitude signWord at *
  cases negative <;> simp only [Bool.false_eq_true, if_true, if_false] <;>
    exact Nat.mod_eq_of_lt (by omega)

theorem magnitude_ofMagnitude : (ofMagnitude negative word).magnitude = word := by
  rw [magnitude, toNat_bits_ofMagnitude negative small]
  cases negative with
  | false => exact Nat.mod_eq_of_lt small
  | true => rw [if_pos rfl, Nat.add_mod_left, Nat.mod_eq_of_lt small]

theorem isNegative_ofMagnitude : (ofMagnitude negative word).isNegative = negative := by
  rw [isNegative, toNat_bits_ofMagnitude negative small]
  cases negative <;> simp [small]

theorem place_ofMagnitude :
    (ofMagnitude negative word).place = if negative then -(word : Int) else word := by
  rw [place, isNegative_ofMagnitude negative small, magnitude_ofMagnitude negative small]

end

/-! ## Quotients -/

section

variable {m n denominator : Nat}

theorem le_roundQuotient (n denominator : Nat) :
    n / denominator ≤ roundQuotient n denominator := by
  unfold roundQuotient
  simp only
  split <;> omega

theorem roundQuotient_le (n denominator : Nat) :
    roundQuotient n denominator ≤ n / denominator + 1 := by
  unfold roundQuotient
  simp only
  split <;> omega

theorem roundQuotient_of_dvd (positive : 0 < denominator) (divides : denominator ∣ n) :
    roundQuotient n denominator = n / denominator := by
  unfold roundQuotient
  rw [Nat.mod_eq_zero_of_dvd divides, if_neg (by omega)]

theorem roundQuotient_mono (le : m ≤ n) :
    roundQuotient m denominator ≤ roundQuotient n denominator := by
  rcases Nat.lt_or_eq_of_le (Nat.div_le_div_right (c := denominator) le) with less | same
  · calc roundQuotient m denominator ≤ m / denominator + 1 := roundQuotient_le m denominator
      _ ≤ n / denominator := less
      _ ≤ roundQuotient n denominator := le_roundQuotient n denominator
  · -- equal quotients: the one with the greater remainder is rounded up if the other is
    have remainders : m % denominator ≤ n % denominator := by
      have first := Nat.div_add_mod m denominator
      have second := Nat.div_add_mod n denominator
      rw [same] at first
      omega
    unfold roundQuotient
    simp only [same]
    split <;> split <;> omega

end

/-! ## Whole numbers of units -/

/-- The magnitude word nearest to a number of units, before it is cut at infinity. -/
def wordOfUnits (n : Nat) : Nat :=
  (n.log2 - 23) * fractionWords + roundQuotient n (Nat.pow 2 (n.log2 - 23))

theorem nearestWord_one (n : Nat) : nearestWord n 1 = min infinityWord (wordOfUnits n) := by
  rw [nearestWord, wordOfUnits, Nat.div_one, Nat.one_mul]

theorem div_places_lt (n : Nat) : n / 2 ^ (n.log2 - 23) < 2 * fractionWords := by
  rw [Nat.div_lt_iff_lt_mul (Nat.two_pow_pos _)]
  calc n < 2 ^ (n.log2 + 1) := Nat.lt_log2_self
    _ ≤ 2 ^ (24 + (n.log2 - 23)) := Nat.pow_le_pow_right (by decide) (by omega)
    _ = 2 * fractionWords * 2 ^ (n.log2 - 23) := by rw [Nat.pow_add]; rfl

theorem roundQuotient_places_le (n : Nat) :
    roundQuotient n (Nat.pow 2 (n.log2 - 23)) ≤ 2 * fractionWords := by
  exact (roundQuotient_le n _).trans (div_places_lt n)

theorem le_roundQuotient_places {n : Nat} (large : 23 ≤ n.log2) :
    fractionWords ≤ roundQuotient n (Nat.pow 2 (n.log2 - 23)) := by
  have nonzero : n ≠ 0 := by
    rintro rfl
    rw [Nat.log2_zero] at large
    omega
  refine Nat.le_trans ?_ (le_roundQuotient n _)
  change fractionWords ≤ n / 2 ^ (n.log2 - 23)
  rw [Nat.le_div_iff_mul_le (Nat.two_pow_pos _)]
  calc fractionWords * 2 ^ (n.log2 - 23) = 2 ^ (23 + (n.log2 - 23)) := by rw [Nat.pow_add]; rfl
    _ = 2 ^ n.log2 := by rw [Nat.add_sub_cancel' large]
    _ ≤ n := Nat.log2_self_le nonzero

/-- More units have no lesser word. -/
theorem wordOfUnits_mono : Monotone wordOfUnits := by
  intro m n le
  have logs : m.log2 ≤ n.log2 := by
    rw [Nat.log2_eq_log_two, Nat.log2_eq_log_two]
    exact Nat.log_mono_right le
  rw [wordOfUnits, wordOfUnits]
  rcases Nat.lt_or_eq_of_le (Nat.sub_le_sub_right logs 23) with less | same
  · -- the words of one exponent end where those of the next one begin
    have upper := roundQuotient_places_le m
    have lower := le_roundQuotient_places (n := n) (by omega)
    have scaled := Nat.mul_le_mul_right fractionWords less
    rw [Nat.succ_mul] at scaled
    omega
  · rw [same]
    exact Nat.add_le_add_left (roundQuotient_mono le) _

/-- A number of units that has no more than 24 binary digits before its zeros is the value of its
word. -/
theorem unitsOfWord_wordOfUnits {n : Nat} (divides : 2 ^ (n.log2 - 23) ∣ n) :
    unitsOfWord (wordOfUnits n) = n := by
  have rounded := roundQuotient_of_dvd (Nat.two_pow_pos (n.log2 - 23)) divides
  rw [wordOfUnits, Nat.pow_eq, rounded]
  rcases Nat.lt_or_ge n.log2 23 with small | large
  · have below : n < fractionWords := Nat.lt_of_lt_of_le Nat.lt_log2_self
      (Nat.pow_le_pow_right (by decide) small)
    rw [Nat.sub_eq_zero_of_le (Nat.le_of_lt small), Nat.zero_mul, Nat.zero_add, Nat.pow_zero,
      Nat.div_one, unitsOfWord, if_pos below]
  · have upper := div_places_lt n
    have lower := le_roundQuotient_places large
    rw [Nat.pow_eq, rounded] at lower
    have product : n / 2 ^ (n.log2 - 23) * 2 ^ (n.log2 - 23) = n := Nat.div_mul_cancel divides
    generalize n.log2 - 23 = places at upper lower product ⊢
    generalize n / 2 ^ places = quotient at upper lower product ⊢
    have wordEq : places * fractionWords + quotient
        = fractionWords * (places + 1) + (quotient - fractionWords) := by
      rw [Nat.mul_succ, Nat.mul_comm]
      omega
    have exponent : (places * fractionWords + quotient) / fractionWords = places + 1 := by
      rw [wordEq, Nat.mul_add_div (by decide), Nat.div_eq_of_lt (by omega), Nat.add_zero]
    have fraction : (places * fractionWords + quotient) % fractionWords
        = quotient - fractionWords := by
      rw [wordEq, Nat.mul_add_mod, Nat.mod_eq_of_lt (by omega)]
    rw [unitsOfWord, if_neg (by omega), exponent, fraction, Nat.add_sub_cancel' lower,
      Nat.add_sub_cancel, Nat.pow_eq, product]

theorem wordOfUnits_pos {n : Nat} (positive : 0 < n) : 0 < wordOfUnits n :=
  calc 0 < wordOfUnits 1 := by decide
    _ ≤ wordOfUnits n := wordOfUnits_mono positive

/-! ## Integers -/

/-- The magnitude word of the single of an integer.  It is irreducible because the unit is too large
to be computed with in passing. -/
@[irreducible]
def wordOfInt (value : Int) : Nat :=
  min infinityWord (wordOfUnits (value.natAbs * unit))

theorem wordOfInt_le_infinityWord (value : Int) : wordOfInt value ≤ infinityWord := by
  rw [wordOfInt]
  exact Nat.min_le_left _ _

theorem wordOfInt_lt_signWord (value : Int) : wordOfInt value < signWord :=
  Nat.lt_of_le_of_lt (wordOfInt_le_infinityWord value) (by decide)

theorem wordOfInt_mono {a b : Int} (le : a.natAbs ≤ b.natAbs) : wordOfInt a ≤ wordOfInt b := by
  rw [wordOfInt, wordOfInt]
  exact min_le_min le_rfl (wordOfUnits_mono (Nat.mul_le_mul_right unit le))

theorem wordOfInt_pos {value : Int} (nonzero : value ≠ 0) : 0 < wordOfInt value := by
  have positive : 0 < value.natAbs * unit :=
    Nat.mul_pos (Int.natAbs_pos.mpr nonzero) (Nat.two_pow_pos 149)
  rw [wordOfInt]
  exact lt_min (by decide) (wordOfUnits_pos positive)

theorem ofInt_eq_ofMagnitude (value : Int) :
    ofInt value = ofMagnitude (value < 0) (wordOfInt value) := by
  have unitPositive : (0 : Int) < unit := Int.natCast_pos.mpr (Nat.two_pow_pos 149)
  by_cases zeroValue : value = 0
  · rw [zeroValue, ofInt, Int.zero_mul, ofUnits, if_pos rfl, wordOfInt, Int.natAbs_zero,
      Nat.zero_mul]
    rfl
  · have sameSign : value * unit < 0 ↔ value < 0 := by
      rw [← Int.zero_mul unit, Int.mul_lt_mul_right unitPositive, Int.zero_mul]
    rw [ofInt, ofUnits, if_neg (Int.mul_ne_zero zeroValue (Int.ne_of_gt unitPositive)), nearest,
      nearestWord_one, Int.natAbs_mul, Int.natAbs_natCast, wordOfInt]
    simp only [sameSign]

@[simp]
theorem magnitude_ofInt (value : Int) : (ofInt value).magnitude = wordOfInt value := by
  rw [ofInt_eq_ofMagnitude, magnitude_ofMagnitude _ (wordOfInt_lt_signWord value)]

theorem place_ofInt (value : Int) :
    (ofInt value).place = if value < 0 then -(wordOfInt value : Int) else wordOfInt value := by
  rw [ofInt_eq_ofMagnitude, place_ofMagnitude _ (wordOfInt_lt_signWord value)]
  simp only [decide_eq_true_eq]

/-- The single of an integer is a number. -/
theorem isNaN_ofInt (value : Int) : (ofInt value).isNaN = false := by
  rw [isNaN, magnitude_ofInt, decide_eq_false_iff_not, Nat.not_lt]
  exact wordOfInt_le_infinityWord value

/-- Rounding keeps the order of integers. -/
theorem place_ofInt_mono {a b : Int} (le : a ≤ b) : (ofInt a).place ≤ (ofInt b).place := by
  rw [place_ofInt, place_ofInt]
  split <;> split
  · have words := wordOfInt_mono (a := b) (b := a) (by omega)
    omega
  · omega
  · omega
  · have words := wordOfInt_mono (a := a) (b := b) (by omega)
    omega

theorem natAbs_place_ofInt (value : Int) : (ofInt value).place.natAbs = wordOfInt value := by
  rw [place_ofInt]
  split <;> omega

theorem place_ofInt_neg_iff {value : Int} : (ofInt value).place < 0 ↔ value < 0 := by
  rw [place_ofInt]
  split
  · rename_i negative
    have positive := wordOfInt_pos (Int.ne_of_lt negative)
    omega
  · omega

/-- Singles of integers at one place are one single: no integer becomes a negative zero. -/
theorem place_ofInt_inj {a b : Int} : (ofInt a).place = (ofInt b).place ↔ ofInt a = ofInt b := by
  refine ⟨fun same => ?_, fun same => by rw [same]⟩
  have signs : a < 0 ↔ b < 0 := by rw [← place_ofInt_neg_iff, same, place_ofInt_neg_iff]
  have words : wordOfInt a = wordOfInt b := by
    rw [← natAbs_place_ofInt, same, natAbs_place_ofInt]
  rw [ofInt_eq_ofMagnitude, ofInt_eq_ofMagnitude, words]
  simp only [signs]

/-- The singles of two integers compare as the integers do, unless rounding makes them equal. -/
theorem compare?_ofInt (a b : Int) :
    compare? (ofInt a) (ofInt b) = some (if ofInt a = ofInt b then .eq else compare a b) := by
  rw [compare?, isNaN_ofInt, isNaN_ofInt, if_neg (by decide)]
  simp only [← place_ofInt_inj]
  congr 1
  split
  · rename_i same
    exact compare_eq_iff_eq.mpr same
  · rename_i different
    rcases lt_trichotomy a b with less | rfl | greater
    · have placed := lt_of_le_of_ne (place_ofInt_mono (le_of_lt less)) different
      rw [compare_lt_iff_lt.mpr less, compare_lt_iff_lt.mpr placed]
    · exact absurd rfl different
    · have placed := lt_of_le_of_ne (place_ofInt_mono (le_of_lt greater)) (Ne.symm different)
      rw [compare_gt_iff_gt.mpr greater, compare_gt_iff_gt.mpr placed]

/-! ## Exactness -/

/-- Integers of 33 binary digits are far from infinity. -/
theorem wordOfInt_lt_infinityWord {value : Int} (bounded : value.natAbs ≤ 2 ^ 32) :
    wordOfInt value < infinityWord := by
  rw [wordOfInt]
  calc min infinityWord (wordOfUnits (value.natAbs * unit))
      ≤ wordOfUnits (2 ^ 32 * unit) :=
        (Nat.min_le_right _ _).trans (wordOfUnits_mono (Nat.mul_le_mul_right unit bounded))
    _ < infinityWord := by decide

theorem isFinite_ofInt {value : Int} (bounded : value.natAbs ≤ 2 ^ 32) :
    (ofInt value).isFinite = true := by
  rw [isFinite, magnitude_ofInt, decide_eq_true_eq]
  exact wordOfInt_lt_infinityWord bounded

/-- Up to 2^24, what the binary digits of an integer leave of a single is zeros. -/
theorem two_pow_dvd_mul_unit {n : Nat} (bounded : n ≤ 2 ^ 24) :
    2 ^ ((n * unit).log2 - 23) ∣ n * unit := by
  rcases Nat.lt_or_eq_of_le bounded with less | rfl
  · refine Nat.dvd_mul_left_of_dvd (Nat.pow_dvd_pow 2 ?_) n
    by_cases zero : n * unit = 0
    · rw [zero, Nat.log2_zero]
      decide
    · have digits : (n * unit).log2 < 173 := by
        rw [Nat.log2_lt zero]
        calc n * unit < 2 ^ 24 * unit := Nat.mul_lt_mul_of_pos_right less (Nat.two_pow_pos 149)
          _ = 2 ^ 173 := by decide
      omega
  · decide

/-- The single of an integer up to 2^24 is that integer. -/
theorem unitsOfWord_wordOfInt {value : Int} (bounded : value.natAbs ≤ 2 ^ 24) :
    unitsOfWord (wordOfInt value) = value.natAbs * unit := by
  have finite := wordOfInt_lt_infinityWord (Nat.le_trans bounded (by decide))
  rw [wordOfInt] at finite ⊢
  rw [Nat.min_eq_right (by omega)]
  exact unitsOfWord_wordOfUnits (two_pow_dvd_mul_unit bounded)

theorem units_ofInt {value : Int} (bounded : value.natAbs ≤ 2 ^ 24) :
    (ofInt value).units = value * unit := by
  rw [units, magnitude_ofInt, unitsOfWord_wordOfInt bounded, ofInt_eq_ofMagnitude,
    isNegative_ofMagnitude _ (wordOfInt_lt_signWord value), Int.natCast_mul]
  by_cases negative : value < 0
  · rw [decide_eq_true negative, if_pos rfl, Int.ofNat_natAbs_of_nonpos (Int.le_of_lt negative),
      Int.neg_mul, Int.neg_neg]
  · rw [decide_eq_false negative, if_neg Bool.false_ne_true,
      Int.natAbs_of_nonneg (Int.not_lt.mp negative)]

theorem ofInt_injOn {a b : Int} (left : a.natAbs ≤ 2 ^ 24) (right : b.natAbs ≤ 2 ^ 24)
    (same : ofInt a = ofInt b) : a = b := by
  have units : a * unit = b * unit := by rw [← units_ofInt left, same, units_ofInt right]
  exact Int.eq_of_mul_eq_mul_right (Int.natCast_ne_zero.mpr (Nat.two_pow_pos 149).ne') units

/-- Below 2^24 no two integers have the same single. -/
theorem ofInt_inj {a b : Int} (bounded : a.natAbs < 2 ^ 24) : ofInt a = ofInt b ↔ a = b := by
  refine ⟨fun same => ?_, fun same => by rw [same]⟩
  rcases Nat.le_total b.natAbs (2 ^ 24) with within | beyond
  · exact ofInt_injOn (Nat.le_of_lt bounded) within same
  -- an integer beyond 2^24 is placed beyond the single of 2^24, which is not that of `a`
  have places := place_ofInt_inj.mpr same
  rcases Int.natAbs_eq b with positive | negative
  · have above : (ofInt (2 ^ 24)).place ≤ (ofInt b).place := place_ofInt_mono (by omega)
    have below : (ofInt a).place ≤ (ofInt (2 ^ 24)).place := place_ofInt_mono (by omega)
    have limit := ofInt_injOn (Nat.le_of_lt bounded) (b := 2 ^ 24) (by decide)
      (place_ofInt_inj.mp (by omega))
    omega
  · have below : (ofInt b).place ≤ (ofInt (-2 ^ 24)).place := place_ofInt_mono (by omega)
    have above : (ofInt (-2 ^ 24)).place ≤ (ofInt a).place := place_ofInt_mono (by omega)
    have limit := ofInt_injOn (Nat.le_of_lt bounded) (b := -2 ^ 24) (by decide)
      (place_ofInt_inj.mp (by omega))
    omega

end DreamWorld.Single
