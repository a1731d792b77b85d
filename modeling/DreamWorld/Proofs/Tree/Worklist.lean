import DreamWorld.Proofs.Tree.StaleNumbers
import Mathlib.Data.List.Sort

/-!
# Going down by a worklist

What lies below an entry can also be found without knowing that steps down lead to greater
numbers.  A walk keeps the numbers that it has yet to go to on a stack, and remembers all that it
has ever put there, so that it puts none there twice.  In whatever order it meets the entries one
step below another one, it comes to an end after at most one step for each entry, and what it has
listed by then are the descendants.
-/

namespace DreamWorld.Tree

variable {tree : Tree} {id current other : EntryId} {withBranches inclusive : Bool}

/-! ## Descendants in order -/

theorem pairwise_descendants (tree : Tree) (id : EntryId) (withBranches inclusive : Bool) :
    (tree.descendants id withBranches inclusive).Pairwise (· < ·) :=
  List.pairwise_lt_range.filter _

namespace Represents

variable {done : List Document.PlacedRecord}

/-- Steps down do not lead back. -/
theorem le_of_leadsTo (holds : tree.Represents done) (leads : tree.LeadsTo withBranches id other) :
    id ≤ other := by
  induction leads with
  | refl => exact Nat.le_refl id
  | tail _ step ih => exact Nat.le_of_lt (Nat.lt_of_le_of_lt ih (holds.lt_of_stepsDown step).1)

/-- The descendants of any number, be it that of an entry or not, are the entries that steps down
lead to from it. -/
theorem mem_descendants_iff_lt (holds : tree.Represents done) :
    other ∈ tree.descendants id withBranches inclusive ↔
      other < tree.size ∧ tree.LeadsTo withBranches id other ∧
        (inclusive = true ∨ other ≠ id) := by
  by_cases inRange : id < tree.size
  · rw [holds.mem_descendants_iff inRange]
    constructor
    · rintro ⟨leads, counts⟩
      exact ⟨holds.lt_size_of_leadsTo inRange leads, leads, counts⟩
    · exact And.right
  · have outside := lacks_iff.mpr (Nat.le_of_not_lt inRange)
    rw [outside.descendants_eq_nil]
    refine iff_of_false List.not_mem_nil ?_
    rintro ⟨otherLt, leads, _⟩
    exact inRange (Nat.lt_of_le_of_lt (holds.le_of_leadsTo leads) otherLt)

end Represents

/-! ## Walks -/

/-- The state of a walk: the numbers to go to, the last one first, those that have ever been put
there, and those that the walk has gone through and that count. -/
structure Walk where
  stack : List EntryId
  seen : List EntryId
  listed : List EntryId

namespace Walk

/-- The walk is to go to one entry. -/
def start (id : EntryId) : Walk :=
  ⟨[id], [id], []⟩

/-- The walk meets an entry, to which it is to go unless it has met it before. -/
def meet (walk : Walk) (child : EntryId) : Walk :=
  if child ∈ walk.seen then walk
  else { walk with stack := child :: walk.stack, seen := child :: walk.seen }

/-- One step of a walk goes to the last number of the stack.  A number that stands for nothing is
passed over.  The entries one step below are met in any order. -/
inductive Next (tree : Tree) (id : EntryId) (withBranches inclusive : Bool) : Walk → Walk → Prop
  | skip {current : EntryId} {rest seen listed : List EntryId} : tree.get? current = none →
      Next tree id withBranches inclusive ⟨current :: rest, seen, listed⟩ ⟨rest, seen, listed⟩
  | visit {current : EntryId} {rest seen listed : List EntryId} {entry : Entry}
      {children : List EntryId} : tree.get? current = some entry →
      children.Perm (tree.below withBranches current) →
      Next tree id withBranches inclusive ⟨current :: rest, seen, listed⟩
        (children.foldl meet
          ⟨rest, seen, if inclusive || current != id then listed ++ [current] else listed⟩)

/-- Whatever order they meet entries in, the walks from an entry come to an end, and what a walk has
listed at its end, put in order, is the given list. -/
structure Finds (tree : Tree) (id : EntryId) (withBranches inclusive : Bool)
    (ids : List EntryId) : Prop where
  acc : Acc (fun later earlier => Next tree id withBranches inclusive earlier later) (start id)
  mergeSort_listed : ∀ walk,
    Relation.ReflTransGen (Next tree id withBranches inclusive) (start id) walk →
    (∀ later, ¬ Next tree id withBranches inclusive walk later) → walk.listed.mergeSort = ids

/-- What a walk from an entry has gone through so far: it has listed what of this counts, it has
met what lies one step below, and all that it has met can be reached. -/
structure Sound (tree : Tree) (id : EntryId) (withBranches inclusive : Bool) (walk : Walk)
    (gone : List EntryId) : Prop where
  seen_perm : walk.seen.Perm (gone ++ walk.stack)
  seen_nodup : walk.seen.Nodup
  start_mem : id ∈ walk.seen
  leadsTo : ∀ other ∈ walk.seen, tree.LeadsTo withBranches id other
  below_mem : ∀ parent ∈ gone, ∀ child, tree.StepsDown withBranches parent child →
    child ∈ walk.seen
  listed_eq : walk.listed =
    gone.filter fun other => decide (other < tree.size) && (inclusive || other != id)

variable {walk later : Walk} {gone : List EntryId}

/-! ## One step -/

/-- Meeting some entries puts those on the stack that are new, each once. -/
theorem exists_foldl_meet (children : List EntryId) (walk : Walk) :
    ∃ fresh, children.foldl meet walk =
        ⟨fresh ++ walk.stack, fresh ++ walk.seen, walk.listed⟩ ∧
      (∀ other, other ∈ fresh ++ walk.seen ↔ other ∈ children ∨ other ∈ walk.seen) ∧
      (walk.seen.Nodup → (fresh ++ walk.seen).Nodup) := by
  induction children generalizing walk with
  | nil => exact ⟨[], rfl, by simp, id⟩
  | cons child rest ih =>
      by_cases known : child ∈ walk.seen
      · have unchanged : walk.meet child = walk := if_pos known
        rcases ih walk with ⟨fresh, walkEq, memIff, nodup⟩
        refine ⟨fresh, by rw [List.foldl_cons, unchanged, walkEq], fun other => ?_, nodup⟩
        rw [memIff, List.mem_cons]
        constructor
        · exact Or.imp_left .inr
        · rintro ((rfl | inRest) | seen)
          · exact .inr known
          · exact .inl inRest
          · exact .inr seen
      · have changed : walk.meet child =
            { walk with stack := child :: walk.stack, seen := child :: walk.seen } := if_neg known
        rcases ih (walk.meet child) with ⟨fresh, walkEq, memIff, nodup⟩
        rw [changed] at walkEq memIff nodup
        refine ⟨fresh ++ [child], ?_, fun other => ?_, fun distinct => ?_⟩
        · rw [List.foldl_cons, changed, walkEq]
          simp
        · rw [List.append_assoc, List.singleton_append, memIff, List.mem_cons, List.mem_cons,
            or_left_comm, or_assoc]
        · rw [List.append_assoc, List.singleton_append]
          exact nodup (List.nodup_cons.mpr ⟨known, distinct⟩)

theorem not_stepsDown_of_absent (absent : tree.get? current = none) :
    ¬ tree.StepsDown withBranches current other := by
  rw [← mem_below_iff, below, absent]
  exact List.not_mem_nil

theorem sound_start (tree : Tree) (id : EntryId) (withBranches inclusive : Bool) :
    (start id).Sound tree id withBranches inclusive [] where
  seen_perm := .refl _
  seen_nodup := List.nodup_singleton id
  start_mem := List.mem_singleton_self id
  leadsTo other mem := by
    rw [List.mem_singleton.mp mem]
    exact .refl
  below_mem _ mem := absurd mem List.not_mem_nil
  listed_eq := rfl

/-- A step goes through one more number. -/
theorem Sound.next (sound : walk.Sound tree id withBranches inclusive gone)
    (step : walk.Next tree id withBranches inclusive later) :
    ∃ current, later.Sound tree id withBranches inclusive (gone ++ [current]) := by
  cases step with
  | @skip current rest seen listed absent =>
      have outside : ¬ current < tree.size := Nat.not_lt.mpr (get?_eq_none_iff.mp absent)
      refine ⟨current, ⟨?_, sound.seen_nodup, sound.start_mem, sound.leadsTo, ?_, ?_⟩⟩
      · rw [List.append_assoc]
        exact sound.seen_perm
      · intro parent mem child step
        rcases List.mem_append.mp mem with before | last
        · exact sound.below_mem parent before child step
        · rw [List.mem_singleton.mp last] at step
          exact absurd step (not_stepsDown_of_absent absent)
      · rw [List.filter_append, ← sound.listed_eq]
        simp [outside]
  | @visit current rest seen listed entry children found order =>
      have inside : current < tree.size := lt_size_of_get? found
      have currentSeen : current ∈ seen :=
        sound.seen_perm.mem_iff.mpr (List.mem_append_right gone List.mem_cons_self)
      obtain ⟨fresh, walkEq, memIff, nodup⟩ := exists_foldl_meet children
        ⟨rest, seen, if inclusive || current != id then listed ++ [current] else listed⟩
      have child_iff (child : EntryId) :
          child ∈ children ↔ tree.StepsDown withBranches current child := by
        rw [order.mem_iff, mem_below_iff]
      rw [walkEq]
      refine ⟨current, ⟨?_, nodup sound.seen_nodup, ?_, ?_, ?_, ?_⟩⟩
      · have moved : seen.Perm ((gone ++ [current]) ++ rest) := by
          rw [List.append_assoc]
          exact sound.seen_perm
        exact (moved.append_left fresh).trans (List.perm_append_comm_assoc _ _ _)
      · exact List.mem_append_right fresh sound.start_mem
      · intro other mem
        rcases (memIff other).mp mem with isChild | isSeen
        · exact (sound.leadsTo current currentSeen).tail ((child_iff other).mp isChild)
        · exact sound.leadsTo other isSeen
      · intro parent mem child step
        rw [memIff]
        rcases List.mem_append.mp mem with before | last
        · exact .inr (sound.below_mem parent before child step)
        · rw [List.mem_singleton.mp last] at step
          exact .inl ((child_iff child).mpr step)
      · have listedEq := sound.listed_eq
        dsimp only at listedEq ⊢
        rw [List.filter_append, ← listedEq]
        by_cases counts : (inclusive || current != id) = true
        · simp [counts, inside]
        · simp [counts]

/-! ## The end of a walk -/

/-- A walk goes through no more than the entries of the tree and the number that it starts
from. -/
theorem Sound.length_le (sound : walk.Sound tree id withBranches inclusive gone)
    {done : List Document.PlacedRecord} (holds : tree.Represents done) :
    gone.length ≤ tree.size + 1 := by
  have known : gone ⊆ id :: List.range tree.size := by
    intro other mem
    have leads := sound.leadsTo other (sound.seen_perm.mem_iff.mpr (List.mem_append_left _ mem))
    cases leads with
    | refl => exact List.mem_cons_self
    | tail _ step =>
        exact List.mem_cons_of_mem id (List.mem_range.mpr (holds.lt_of_stepsDown step).2)
  have distinct : gone.Nodup :=
    (List.nodup_append.mp (sound.seen_perm.nodup_iff.mp sound.seen_nodup)).1
  have bound := (distinct.subperm known).length_le
  rwa [List.length_cons, List.length_range] at bound

/-- No walk goes on for ever. -/
theorem Sound.acc (sound : walk.Sound tree id withBranches inclusive gone)
    {done : List Document.PlacedRecord} (holds : tree.Represents done) :
    Acc (fun later earlier => Next tree id withBranches inclusive earlier later) walk := by
  -- Each step uses up one of the numbers that are left to go through.
  induction left : tree.size + 1 - gone.length using Nat.strongRecOn generalizing walk gone with
  | _ left ih =>
      constructor
      intro later step
      rcases sound.next step with ⟨current, laterSound⟩
      have bound := laterSound.length_le holds
      rw [List.length_append, List.length_singleton] at bound
      refine ih _ ?_ laterSound rfl
      rw [List.length_append, List.length_singleton]
      omega

theorem exists_sound
    (run : Relation.ReflTransGen (Next tree id withBranches inclusive) (start id) walk) :
    ∃ gone, walk.Sound tree id withBranches inclusive gone := by
  induction run with
  | refl => exact ⟨[], sound_start tree id withBranches inclusive⟩
  | tail _ step ih =>
      rcases ih with ⟨gone, sound⟩
      rcases sound.next step with ⟨current, laterSound⟩
      exact ⟨_, laterSound⟩

/-- A walk that has come to its end has nothing left to go to. -/
theorem stack_eq_nil (ended : ∀ later, ¬ walk.Next tree id withBranches inclusive later) :
    walk.stack = [] := by
  rcases walk with ⟨stack, seen, listed⟩
  cases stack with
  | nil => rfl
  | cons current rest =>
      cases found : tree.get? current with
      | none => exact absurd (.skip found) (ended _)
      | some entry => exact absurd (.visit found (.refl _)) (ended _)

/-- At its end a walk has gone through all that steps down lead to. -/
theorem Sound.mem_gone_iff (sound : walk.Sound tree id withBranches inclusive gone)
    (empty : walk.stack = []) : other ∈ gone ↔ tree.LeadsTo withBranches id other := by
  have seenIff (other : EntryId) : other ∈ walk.seen ↔ other ∈ gone := by
    rw [sound.seen_perm.mem_iff, empty, List.append_nil]
  rw [← seenIff]
  constructor
  · exact sound.leadsTo other
  · intro leads
    induction leads with
    | refl => exact sound.start_mem
    | tail _ step ih => exact sound.below_mem _ ((seenIff _).mp ih) _ step

/-- What a walk has listed at its end are the descendants, once they are put in order. -/
theorem Sound.mergeSort_listed (sound : walk.Sound tree id withBranches inclusive gone)
    (empty : walk.stack = []) {done : List Document.PlacedRecord}
    (holds : tree.Represents done) :
    walk.listed.mergeSort = tree.descendants id withBranches inclusive := by
  have distinct : gone.Nodup :=
    (List.nodup_append.mp (sound.seen_perm.nodup_iff.mp sound.seen_nodup)).1
  have sameEntries : walk.listed.Perm (tree.descendants id withBranches inclusive) := by
    rw [sound.listed_eq, List.perm_ext_iff_of_nodup (distinct.filter _)
      (Represents.descendants_nodup tree id withBranches inclusive)]
    intro other
    rw [holds.mem_descendants_iff_lt, List.mem_filter, sound.mem_gone_iff empty, Bool.and_eq_true,
      decide_eq_true_iff, Bool.or_eq_true, bne_iff_ne]
    tauto
  have ascending : (walk.listed.mergeSort).Pairwise (· ≤ ·) :=
    List.pairwise_mergeSort' (· ≤ ·) walk.listed
  refine ((List.mergeSort_perm _ _).trans sameEntries).eq_of_pairwise ?_ ascending
    ((pairwise_descendants tree id withBranches inclusive).imp Nat.le_of_lt)
  intro first second _ _ firstLe secondLe
  exact Nat.le_antisymm firstLe secondLe

/-- Walks find the descendants. -/
theorem finds_descendants {done : List Document.PlacedRecord} (holds : tree.Represents done)
    (id : EntryId) (withBranches inclusive : Bool) :
    Finds tree id withBranches inclusive (tree.descendants id withBranches inclusive) where
  acc := (sound_start tree id withBranches inclusive).acc holds
  mergeSort_listed walk run ended := by
    rcases exists_sound run with ⟨gone, sound⟩
    exact sound.mergeSort_listed (stack_eq_nil ended) holds

end Walk

end DreamWorld.Tree
