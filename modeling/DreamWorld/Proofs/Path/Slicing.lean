import DreamWorld.Path

/-!
# Slices of paths

A slice has the elements from its start up to its stop, as far as the path has them.
Its kind is settled by the start after clamping, and the start is clamped to the stop.
So a slice that does not begin at the first element is relative, but for one case: where
an absolute path has nothing before the stop, the slice is the root.

A stop may count from the back.  Its calculation on 64-bit words overflows nowhere, also
not for the least word.
-/

namespace DreamWorld.Path

attribute [ext] Path

variable {path : Path} {start stop : Nat}

/-! ## Elements and kind of a slice -/

@[simp]
theorem elements_slice (path : Path) (start stop : Nat) :
    (path.slice start stop).elements = (path.elements.take stop).drop start := by
  have stopClamped : path.elements.take (min stop path.length) = path.elements.take stop := by
    rw [List.take_eq_take_iff, length]
    omega
  simp only [slice, stopClamped]
  rcases Nat.le_total start (min stop path.length) with inside | outside
  · rw [Nat.min_eq_left inside]
  · have short : (path.elements.take stop).length ≤ min stop path.length := by
      exact Nat.le_of_eq List.length_take
    rw [Nat.min_eq_right outside, List.drop_eq_nil_of_le short,
      List.drop_eq_nil_of_le (Nat.le_trans short outside)]

theorem kind_slice (path : Path) (start stop : Nat) :
    (path.slice start stop).kind =
      if start = 0 ∨ stop = 0 ∨ path.length = 0 then path.kind else .relative := by
  have clamped : min start (min stop path.length) = 0 ↔
      start = 0 ∨ stop = 0 ∨ path.length = 0 := by
    omega
  simp only [slice, clamped]

/-- A slice from the first element on is a first part of the path. -/
theorem slice_zero (path : Path) (stop : Nat) :
    path.slice 0 stop = { path with elements := path.elements.take stop } := by
  ext1
  · rw [kind_slice, if_pos (.inl rfl)]
  · rw [elements_slice, List.drop_zero]

/-- A slice from a later element on is relative as long as it may reach an element. -/
theorem slice_of_pos (path : Path) (startPos : 0 < start) (stopPos : 0 < stop)
    (nonempty : path.elements ≠ []) :
    path.slice start stop = ⟨.relative, (path.elements.take stop).drop start⟩ := by
  have lengthPos : 0 < path.length := List.length_pos_iff.mpr nonempty
  ext1
  · rw [kind_slice, if_neg (by omega)]
  · rw [elements_slice]

/-! ## The end of a path -/

/-- A stop of `-1` leaves out nothing at the end, `-2` one element, and so on. -/
theorem stopOf_negSucc (path : Path) (back : Nat) :
    path.stopOf (Int.negSucc back) = path.length - back := by
  rw [stopOf, if_neg (by omega)]
  omega

theorem lastName_append_singleton (kind : PathKind) (elements : List String) (last : String) :
    lastName ⟨kind, elements ++ [last]⟩ = last := by
  simp [lastName, last?]

/-- The class of a declaration has the elements before the last one, if there are any. -/
theorem object?_append_singleton (kind : PathKind) (elements : List String) (last : String) :
    object? ⟨kind, elements ++ [last]⟩ =
      if elements = [] then none else some ⟨kind, elements⟩ := by
  cases elements with
  | nil => rfl
  | cons first others =>
      have stop (path : Path) : path.stopOf (-2) = path.length - 1 := path.stopOf_negSucc 1
      rw [object?, sliceTo, stop, slice_zero]
      simp [length]

/-! ## Elements by their positions -/

/-- The elements of a list at the positions from `start` up to but not including `stop`,
where positions are counted from `first`. -/
theorem map_fst_filter_zipIdx {α : Type} (items : List α) (first start stop : Nat) :
    ((items.zipIdx first).filter fun entry => start ≤ entry.2 && entry.2 < stop).map Prod.fst =
      (items.take (stop - first)).drop (start - first) := by
  induction items generalizing first with
  | nil => simp
  | cons item rest ih =>
      rw [List.zipIdx_cons, List.filter_cons]
      rcases Nat.lt_or_ge first stop with before | beyond
      · have takeStep : stop - first = (stop - (first + 1)) + 1 := by omega
        rcases Nat.lt_or_ge first start with skipped | kept
        · have dropStep : start - first = (start - (first + 1)) + 1 := by omega
          rw [if_neg (by simp; omega), ih, takeStep, dropStep, List.take_succ_cons,
            List.drop_succ_cons]
        · have noDrop : start - first = 0 ∧ start - (first + 1) = 0 := by omega
          rw [if_pos (by simp; omega), List.map_cons, ih, takeStep, noDrop.1, noDrop.2,
            List.take_succ_cons, List.drop_zero, List.drop_zero]
      · have noTake : stop - first = 0 ∧ stop - (first + 1) = 0 := by omega
        rw [if_neg (by simp; omega), ih, noTake.1, noTake.2, List.take_zero, List.take_zero,
          List.drop_nil, List.drop_nil]

/-- The elements at the positions from `start` up to but not including `stop`. -/
def elementsBetween (path : Path) (start stop : Nat) : List String :=
  (path.elements.zipIdx.filter fun entry => start ≤ entry.2 && entry.2 < stop).map Prod.fst

theorem elements_slice_eq_elementsBetween (path : Path) (start stop : Nat) :
    (path.slice start stop).elements = path.elementsBetween start stop := by
  rw [elements_slice, elementsBetween, map_fst_filter_zipIdx, Nat.sub_zero, Nat.sub_zero]

/-- The part of a path between two positions; it keeps the kind only from the first
element on. -/
def portion (path : Path) (start stop : Nat) : Path where
  kind := if start = 0 then path.kind else .relative
  elements := path.elementsBetween start stop

/-- The start of a slice that begins at a later element is clamped to the front of an
absolute path. -/
def ClampedToRoot (path : Path) (start stop : Nat) : Prop :=
  0 < start ∧ path.kind = .absolute ∧ (stop = 0 ∨ path.length = 0)

theorem slice_eq_root (clamped : path.ClampedToRoot start stop) :
    path.slice start stop = root := by
  rcases clamped with ⟨_, absolute, nothing⟩
  ext1
  · rw [kind_slice, if_pos (.inr nothing), absolute, root]
  · rw [elements_slice, root]
    rcases nothing with noStop | noLength
    · rw [noStop, List.take_zero, List.drop_nil]
    · rw [List.length_eq_zero_iff.mp noLength, List.take_nil, List.drop_nil]

theorem slice_eq_portion (free : ¬ path.ClampedToRoot start stop) :
    path.slice start stop = path.portion start stop := by
  ext1
  · rw [kind_slice, portion]
    by_cases atFront : start = 0
    · rw [if_pos (.inl atFront), if_pos atFront]
    · rw [if_neg atFront]
      split
      · rename_i clampedToFront
        cases kindEq : path.kind with
        | relative => rfl
        | absolute =>
            exact absurd ⟨Nat.pos_of_ne_zero atFront, kindEq,
              clampedToFront.resolve_left atFront⟩ free
      · rfl
  · exact elements_slice_eq_elementsBetween path start stop

/-! ## Stops on machine words -/

/-- The magnitude of a signed word, which is unsigned: that of the least word is 2^63. -/
def magnitude (word : Int64) : UInt64 :=
  word.abs.toUInt64

theorem toNat_magnitude (word : Int64) : (magnitude word).toNat = word.toInt.natAbs := by
  have toNatEq : (magnitude word).toNat = word.toBitVec.abs.toNat := rfl
  rw [toNatEq, BitVec.toNat_abs, ← Int64.toInt_toBitVec, BitVec.toInt_eq_msb_cond]
  have bound := word.toBitVec.isLt
  split <;> omega

/-- The difference of two words, where it is not negative. -/
def checkedSub? (word other : UInt64) : Option UInt64 :=
  if other ≤ word then some (word - other) else none

theorem checkedSub?_eq_some {word other : UInt64} (le : other.toNat ≤ word.toNat) :
    ∃ difference, checkedSub? word other = some difference ∧
      difference.toNat = word.toNat - other.toNat :=
  ⟨word - other, if_pos (UInt64.le_iff_toNat_le.mpr le),
    UInt64.toNat_sub_of_le _ _ (UInt64.le_iff_toNat_le.mpr le)⟩

/-- The stop position for a signed word, calculated on words.  The length less the step
back from the end is cut off at 0; the calculation fails where another operation on words
overflows. -/
def wordStop? (path : Path) (stop : Int64) : Option Nat :=
  if 0 ≤ stop then some stop.toUInt64.toNat
  else (checkedSub? (magnitude stop) 1).map fun back => path.length - back.toNat

theorem wordStop?_eq (path : Path) (stop : Int64) :
    path.wordStop? stop = some (path.stopOf stop.toInt) := by
  have nonneg_iff : 0 ≤ stop ↔ 0 ≤ stop.toInt := Int64.le_iff_toInt_le
  rw [wordStop?, stopOf]
  by_cases nonneg : 0 ≤ stop
  · rw [if_pos nonneg, if_pos (nonneg_iff.mp nonneg), Int64.toNat_toUInt64_of_le nonneg]
    rfl
  · rw [if_neg nonneg, if_neg (mt nonneg_iff.mpr nonneg)]
    rw [nonneg_iff] at nonneg
    have one : (1 : UInt64).toNat = 1 := rfl
    have oneLe : (1 : UInt64).toNat ≤ (magnitude stop).toNat := by
      rw [toNat_magnitude]
      omega
    rcases checkedSub?_eq_some oneLe with ⟨back, checked, backEq⟩
    rw [toNat_magnitude] at backEq
    rw [checked, Option.map_some]
    congr 1
    omega

example : (parse "/obj/item").wordStop? Int64.minValue = some 0 := by decide

/-! ## Slices and their stops -/

/-- A slice has the elements between its bounds, and it is relative if it begins at a later
element than the first, unless its start is clamped to the front of an absolute path: then it
is the root.  A negative stop is counted from one place after the end, but not to less than 0,
and its calculation on words overflows nowhere. -/
theorem slice_between (path : Path) (start stop : Nat) (last : Int64) :
    (path.slice start stop).elements = path.elementsBetween start stop ∧
    (path.slice start stop = path.portion start stop ↔ ¬ path.ClampedToRoot start stop) ∧
    (path.slice start stop = path.portion start stop ∨ path.slice start stop = root) ∧
    path.wordStop? last = some (path.stopOf last.toInt) ∧
    path.sliceTo start last.toInt =
      if 0 ≤ last.toInt then path.slice start last.toInt.toNat
      else path.slice start (max 0 (path.length + last.toInt + 1)).toNat := by
  refine ⟨elements_slice_eq_elementsBetween path start stop, ⟨?_, slice_eq_portion⟩, ?_,
    wordStop?_eq path last, ?_⟩
  · rintro isPortion clamped
    have kindEq := congrArg kind ((slice_eq_root clamped).symm.trans isPortion)
    rw [portion, if_neg (Nat.ne_of_gt clamped.1)] at kindEq
    cases kindEq
  · by_cases clamped : path.ClampedToRoot start stop
    · exact .inr (slice_eq_root clamped)
    · exact .inl (slice_eq_portion clamped)
  · rw [sliceTo, stopOf]
    split
    · rfl
    · congr 1
      omega

/-- A slice that begins at a later element than the first need not be relative: with nothing
before its stop, the slice of `/obj` from its second element on is the root. -/
theorem not_forall_slice_eq_portion :
    ¬ ∀ (path : Path) (start stop : Nat), path.slice start stop = path.portion start stop := by
  intro always
  have isPortion := always ⟨.absolute, ["obj"]⟩ 1 0
  revert isPortion
  decide

end DreamWorld.Path
