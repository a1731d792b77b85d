import DreamWorld.Proofs.Keyed
import DreamWorld.Proofs.World.FileComponents
import Mathlib.Data.List.Dedup

/-!
# Handles of files below a root

The loader of files accepts a path that neither begins with a slash nor has `..` between
its slashes.  The file of such a path is reached from the root by components that stay
inside, so the way to it never leaves the root.  Since a path is looked up in the cache
before it is tested, what is answered after many calls rests on what the cache may hold:
one handle for each accepted path that was asked for, no two of one number.  Every call
keeps this, and no call takes a handle away.
-/

namespace DreamWorld

variable {root path other : String}

/-! ## Ways along components -/

/-- Where a component leads to from a place.  A place is the names from the root of all
files down to it. -/
def FileComponent.follow (place : List String) : FileComponent → List String
  | .root => []
  | .here => place
  | .up => place.dropLast
  | .name text => place ++ [text]

/-- Components that stay inside never lead out of the place where they start. -/
theorem prefix_foldl_follow {components : List FileComponent}
    (inside : components.all FileComponent.isInside = true) (place : List String) :
    place <+: components.foldl FileComponent.follow place := by
  induction components generalizing place with
  | nil => exact List.prefix_rfl
  | cons component rest ih =>
      rw [List.all_cons, Bool.and_eq_true] at inside
      rcases inside with ⟨componentInside, restInside⟩
      have further : place <+: component.follow place := by
        cases component with
        | here => exact List.prefix_rfl
        | name text => exact List.prefix_append place [text]
        | root | up => cases componentInside
      exact further.trans (ih restInside _)

/-- A file lies inside a directory: its way runs to the directory first, and from there on
never comes to a place outside, wherever the way starts. -/
def LiesInside (directory file : String) : Prop :=
  ∃ inner, fileComponents file = fileComponents directory ++ inner ∧
    ∀ start taken, taken <+: inner →
      (fileComponents directory).foldl FileComponent.follow start <+:
        (fileComponents directory ++ taken).foldl FileComponent.follow start

theorem liesInside_of_append {directory file : String} {inner : List FileComponent}
    (split : fileComponents file = fileComponents directory ++ inner)
    (inside : inner.all FileComponent.isInside = true) : LiesInside directory file := by
  refine ⟨inner, split, ?_⟩
  intro start taken takenPrefix
  rw [List.foldl_append]
  apply prefix_foldl_follow
  rw [List.all_eq_true] at inside ⊢
  exact fun component mem => inside component (takenPrefix.subset mem)

/-! ## Components of joined paths -/

/-- A path that is joined to a directory adds its own components, but for one in front. -/
theorem fileComponents_joinFilePath (directory path : String) :
    ∃ inner, fileComponents (joinFilePath directory path) = fileComponents directory ++ inner ∧
      inner <:+ fileComponents path := by
  have followedSuffix : followedComponents path <:+ fileComponents path := by
    rw [fileComponents_eq]
    exact List.suffix_append _ _
  by_cases empty : directory = ""
  · subst empty
    exact ⟨fileComponents path, rfl, List.suffix_rfl⟩
  · refine ⟨followedComponents path, ?_, followedSuffix⟩
    have notEmpty : directory.isEmpty = false := by simpa using empty
    rw [joinFilePath, notEmpty, if_neg Bool.false_ne_true]
    split
    · rename_i endsInSlash
      obtain ⟨before, rfl⟩ : ∃ before, directory = before ++ "/" := by
        rcases List.getLast?_eq_some_iff.mp (beq_iff_eq.mp endsInSlash) with ⟨chars, split⟩
        exact ⟨String.ofList chars, String.toList_injective (by simp [split])⟩
      exact fileComponents_slash_append before path
    · exact fileComponents_append_slash empty path

/-! ## Accepted paths -/

/-- A path that does not begin with a slash and has no `..` between its slashes. -/
def StaysInside (path : String) : Prop :=
  path.toList.head? ≠ some '/' ∧ ['.', '.'] ∉ path.toList.splitOn '/'

instance (path : String) : Decidable (StaysInside path) :=
  inferInstanceAs (Decidable (_ ∧ _))

theorem leave_mem_segments_iff : ".." ∈ Path.segments path ↔
    ['.', '.'] ∈ path.toList.splitOn '/' := by
  rw [Path.segments_eq, List.mem_filter, List.mem_map]
  constructor
  · rintro ⟨⟨piece, pieceMem, spelled⟩, _⟩
    have chars : piece = ['.', '.'] := String.ofList_injective spelled
    exact chars ▸ pieceMem
  · intro pieceMem
    exact ⟨⟨['.', '.'], pieceMem, rfl⟩, rfl⟩

theorem all_isInside_followedComponents_iff :
    (followedComponents path).all FileComponent.isInside = true ↔
      ".." ∉ Path.segments path := by
  rw [List.all_eq_true]
  constructor
  · intro inside leave
    have up : FileComponent.up ∈ followedComponents path :=
      List.mem_filterMap.mpr ⟨"..", leave, rfl⟩
    cases inside .up up
  · intro noLeave component mem
    rcases List.mem_filterMap.mp mem with ⟨segment, segmentMem, stands⟩
    have notLeave : segment ≠ ".." := fun leave => noLeave (leave ▸ segmentMem)
    unfold FileComponent.ofSegment? at stands
    rw [if_neg notLeave] at stands
    split at stands
    · cases stands
    · cases stands
      rfl

/-- The loader of files accepts exactly the paths that stay inside. -/
theorem ResourceCache.staysBelow_iff : staysBelow path = true ↔ StaysInside path := by
  rw [staysBelow, fileComponents_eq, List.all_append, Bool.and_eq_true,
    all_isInside_followedComponents_iff, leave_mem_segments_iff, StaysInside]
  apply and_congr_left'
  unfold leadingComponents
  rw [Path.startsAtRoot]
  by_cases slash : path.toList.head? = some '/'
  · simp [slash, FileComponent.isInside]
  · split
    · rename_i begins
      exact absurd (beq_iff_eq.mp begins) slash
    · split <;> simp [slash, FileComponent.isInside]

/-- The file of an accepted path lies inside the root. -/
theorem liesInside_joinFilePath (inside : StaysInside path) (directory : String) :
    LiesInside directory (joinFilePath directory path) := by
  rcases fileComponents_joinFilePath directory path with ⟨inner, split, innerSuffix⟩
  apply liesInside_of_append split
  have allInside := ResourceCache.staysBelow_iff.mpr inside
  rw [ResourceCache.staysBelow, List.all_eq_true] at allInside
  rw [List.all_eq_true]
  exact fun component mem => allInside component (innerSuffix.subset mem)

namespace ResourceCache

variable {cache : ResourceCache} {calls : List String} {handle : ResourceHandle}

/-! ## One call -/

theorem loadHandle_of_known (known : cache.handles.find? path = some handle) (root : String) :
    cache.loadHandle root path = (.ok handle, cache) := by
  rw [loadHandle, known]

theorem loadHandle_of_new (unknown : cache.handles.find? path = none)
    (inside : StaysInside path) (root : String) :
    cache.loadHandle root path =
      (.ok ⟨cache.count, path, joinFilePath root path⟩,
        ⟨cache.handles.insert path ⟨cache.count, path, joinFilePath root path⟩⟩) := by
  rw [loadHandle, unknown]
  simp only [staysBelow_iff.mpr inside, if_true]

theorem loadHandle_of_outside (unknown : cache.handles.find? path = none)
    (outside : ¬ StaysInside path) (root : String) :
    cache.loadHandle root path = (.error (.outsideRoot path), cache) := by
  rw [← staysBelow_iff] at outside
  rw [loadHandle, unknown]
  exact if_neg outside

/-- A call takes no handle away. -/
theorem find?_loadHandle (known : cache.handles.find? path = some handle) (root other : String) :
    (cache.loadHandle root other).2.handles.find? path = some handle := by
  cases found : cache.handles.find? other with
  | some held => rwa [loadHandle_of_known found]
  | none =>
      by_cases inside : StaysInside other
      · have different : other ≠ path := by
          rintro rfl
          rw [found] at known
          cases known
        rwa [loadHandle_of_new found inside, Keyed.find?_insert, if_neg different]
      · rwa [loadHandle_of_outside found inside]

/-- What the cache holds after calls for some paths: one handle for each accepted path
among them, and no two of one number. -/
structure Remembers (root : String) (calls : List String) (cache : ResourceCache) :
    Prop where
  distinct : cache.handles.names.Nodup
  mem_names_iff (path : String) : path ∈ cache.handles.names ↔ path ∈ calls ∧ StaysInside path
  handle_eq {path : String} {handle : ResourceHandle} :
    cache.handles.find? path = some handle →
      handle.resource = ⟨path, joinFilePath root path⟩ ∧ handle.number < cache.count
  number_inj {path other : String} {handle held : ResourceHandle} :
    cache.handles.find? path = some handle → cache.handles.find? other = some held →
      held.number = handle.number → other = path

theorem remembers_nil (root : String) : Remembers root [] {} where
  distinct := List.nodup_nil
  mem_names_iff path := by simp [Keyed.names]
  handle_eq := by
    intro path handle found
    cases found
  number_inj := by
    intro path other handle held found
    cases found

namespace Remembers

theorem find?_eq_none (remembers : Remembers root calls cache) (outside : ¬ StaysInside path) :
    cache.handles.find? path = none := by
  rw [← Keyed.has_eq_false_iff, Bool.eq_false_iff, ne_eq, ← Keyed.mem_names_iff,
    remembers.mem_names_iff]
  exact fun known => outside known.2

/-- An accepted call answers with the handle that the cache holds from then on. -/
theorem loadHandle_of_inside (remembers : Remembers root calls cache)
    (inside : StaysInside path) :
    ∃ handle, (cache.loadHandle root path).1 = .ok handle ∧
      handle.resource = ⟨path, joinFilePath root path⟩ ∧
      (cache.loadHandle root path).2.handles.find? path = some handle := by
  cases found : cache.handles.find? path with
  | some handle =>
      rw [loadHandle_of_known found]
      exact ⟨handle, rfl, (remembers.handle_eq found).1, found⟩
  | none =>
      rw [loadHandle_of_new found inside]
      refine ⟨_, rfl, rfl, ?_⟩
      rw [Keyed.find?_insert, if_pos rfl]

/-- A call that changes nothing is for a path that was known or is not accepted. -/
theorem append_of_unchanged (remembers : Remembers root calls cache)
    (nothingNew : path ∈ calls ∨ ¬ StaysInside path) : Remembers root (calls ++ [path]) cache where
  distinct := remembers.distinct
  mem_names_iff other := by
    rw [remembers.mem_names_iff, List.mem_append, List.mem_singleton]
    constructor
    · rintro ⟨called, inside⟩
      exact ⟨.inl called, inside⟩
    · rintro ⟨called | rfl, inside⟩
      · exact ⟨called, inside⟩
      · exact ⟨nothingNew.resolve_right (not_not_intro inside), inside⟩
  handle_eq := remembers.handle_eq
  number_inj := remembers.number_inj

/-- The handle for a new path is numbered by how many there were before it. -/
theorem append_of_new (remembers : Remembers root calls cache)
    (unknown : cache.handles.find? path = none) (inside : StaysInside path) :
    Remembers root (calls ++ [path])
      ⟨cache.handles.insert path ⟨cache.count, path, joinFilePath root path⟩⟩ := by
  have fresh := Keyed.has_eq_false_iff.mpr unknown
  have oneMore : (cache.handles.insert path
      ⟨cache.count, path, joinFilePath root path⟩).length = cache.count + 1 :=
    (Keyed.insert_perm fresh _).length_eq
  constructor
  case distinct => exact Keyed.names_insert_nodup fresh _ remembers.distinct
  case mem_names_iff =>
    intro other
    rw [Keyed.mem_names_insert_iff, remembers.mem_names_iff, List.mem_append,
      List.mem_singleton]
    constructor
    · rintro (rfl | ⟨called, otherInside⟩)
      · exact ⟨.inr rfl, inside⟩
      · exact ⟨.inl called, otherInside⟩
    · rintro ⟨called | rfl, otherInside⟩
      · exact .inr ⟨called, otherInside⟩
      · exact .inl rfl
  case handle_eq =>
    intro other handle found
    rw [Keyed.find?_insert] at found
    rw [count, oneMore]
    split at found
    · rename_i same
      subst same
      cases found
      exact ⟨rfl, Nat.lt_succ_self _⟩
    · rcases remembers.handle_eq found with ⟨resource, numbered⟩
      exact ⟨resource, Nat.lt_succ_of_lt numbered⟩
  case number_inj =>
    intro first second handle held foundFirst foundSecond sameNumber
    rw [Keyed.find?_insert] at foundFirst foundSecond
    split at foundFirst <;> split at foundSecond
    · rename_i firstNew secondNew
      exact secondNew.symm.trans firstNew
    · cases foundFirst
      exact absurd sameNumber (Nat.ne_of_lt (remembers.handle_eq foundSecond).2)
    · cases foundSecond
      exact absurd sameNumber.symm (Nat.ne_of_lt (remembers.handle_eq foundFirst).2)
    · exact remembers.number_inj foundFirst foundSecond sameNumber

/-- A call adds its path to what the cache remembers. -/
theorem loadHandle (remembers : Remembers root calls cache) (path : String) :
    Remembers root (calls ++ [path]) (cache.loadHandle root path).2 := by
  cases found : cache.handles.find? path with
  | some handle =>
      rw [loadHandle_of_known found]
      have known := Keyed.mem_names_iff.mpr (Keyed.has_of_find? found)
      exact remembers.append_of_unchanged (.inl ((remembers.mem_names_iff path).mp known).1)
  | none =>
      by_cases inside : StaysInside path
      · rw [loadHandle_of_new found inside]
        exact remembers.append_of_new found inside
      · rw [loadHandle_of_outside found inside]
        exact remembers.append_of_unchanged (.inr inside)

/-- The cache holds as many handles as different accepted paths were asked for. -/
theorem count_eq (remembers : Remembers root calls cache) :
    cache.count = (calls.filter (StaysInside ·)).dedup.length := by
  have sameNames : cache.handles.names.Perm (calls.filter (StaysInside ·)).dedup := by
    apply (List.perm_ext_iff_of_nodup remembers.distinct (List.nodup_dedup _)).mpr
    intro path
    rw [remembers.mem_names_iff, List.mem_dedup, List.mem_filter, decide_eq_true_iff]
  rw [← sameNames.length_eq, Keyed.names, List.length_map, count]

end Remembers

/-! ## Many calls -/

/-- The cache of a new loader after calls for some paths, in order. -/
def afterAll (root : String) (calls : List String) : ResourceCache :=
  calls.foldl (fun cache path => (cache.loadHandle root path).2) {}

/-- What a loader answers to a call for a path after calls for others. -/
def answerAfter (root : String) (calls : List String) (path : String) :
    Except ResourceError ResourceHandle :=
  ((afterAll root calls).loadHandle root path).1

theorem afterAll_append_singleton (root : String) (calls : List String) (path : String) :
    afterAll root (calls ++ [path]) = ((afterAll root calls).loadHandle root path).2 := by
  rw [afterAll, List.foldl_append]
  rfl

theorem remembers_afterAll (root : String) (calls : List String) :
    Remembers root calls (afterAll root calls) := by
  induction calls using List.reverseRecOn with
  | nil => exact remembers_nil root
  | append_singleton calls path ih =>
      rw [afterAll_append_singleton]
      exact ih.loadHandle path

/-- No later call takes a handle away. -/
theorem find?_afterAll_append (known : (afterAll root calls).handles.find? path = some handle)
    (later : List String) :
    (afterAll root (calls ++ later)).handles.find? path = some handle := by
  induction later using List.reverseRecOn with
  | nil => rwa [List.append_nil]
  | append_singleton later other ih =>
      rw [← List.append_assoc, afterAll_append_singleton]
      exact find?_loadHandle ih root other

/-- A handle that answers a call is held after it. -/
theorem find?_afterAll_of_answerAfter (answered : answerAfter root calls path = .ok handle) :
    (afterAll root (calls ++ [path])).handles.find? path = some handle := by
  rw [afterAll_append_singleton]
  have remembers := remembers_afterAll root calls
  by_cases inside : StaysInside path
  · rcases remembers.loadHandle_of_inside inside with ⟨given, givenAnswer, _, held⟩
    rw [answerAfter, givenAnswer] at answered
    cases answered
    exact held
  · rw [answerAfter, loadHandle_of_outside (remembers.find?_eq_none inside) inside] at answered
    cases answered

/-- Two calls are answered by handles of one number exactly when they are for one path,
and then by one handle. -/
theorem answerAfter_eq_iff {later : List String} {next : ResourceHandle}
    (answered : answerAfter root calls path = .ok handle)
    (nextAnswered : answerAfter root (calls ++ path :: later) other = .ok next) :
    (next.number = handle.number ↔ other = path) ∧ (next = handle ↔ other = path) := by
  have calledThen : calls ++ path :: later ++ [other] = calls ++ [path] ++ (later ++ [other]) := by
    simp
  have held := find?_afterAll_of_answerAfter nextAnswered
  rw [calledThen] at held
  have stillHeld := find?_afterAll_append (find?_afterAll_of_answerAfter answered)
    (later ++ [other])
  have sameOf : other = path → next = handle := by
    rintro rfl
    rw [stillHeld] at held
    exact (Option.some.inj held).symm
  have pathOf : next.number = handle.number → other = path :=
    (remembers_afterAll root _).number_inj stillHeld held
  exact ⟨⟨pathOf, fun same => congrArg ResourceHandle.number (sameOf same)⟩,
    ⟨fun same => pathOf (congrArg ResourceHandle.number same), sameOf⟩⟩

/-- Whatever was asked for before, a call is answered exactly when its path stays inside;
the answer names the path and its file, which lies inside the root, and a call for the same
path and no other is answered by it again.  A path that is refused changes nothing, and is
never held.  There are as many handles as different accepted paths. -/
theorem answerAfter_spec (root : String) (calls : List String) (path : String) :
    ((∃ handle, answerAfter root calls path = .ok handle) ↔ StaysInside path) ∧
    (∀ handle, answerAfter root calls path = .ok handle →
      handle.resource = ⟨path, joinFilePath root path⟩ ∧
      LiesInside root handle.resource.file ∧
      ∀ later other next, answerAfter root (calls ++ path :: later) other = .ok next →
        (next.number = handle.number ↔ other = path) ∧ (next = handle ↔ other = path)) ∧
    (¬ StaysInside path →
      (afterAll root calls).loadHandle root path =
          (.error (.outsideRoot path), afterAll root calls) ∧
        (afterAll root calls).handles.find? path = none) ∧
    (afterAll root calls).count = (calls.filter (StaysInside ·)).dedup.length := by
  have remembers := remembers_afterAll root calls
  have refused (outside : ¬ StaysInside path) :=
    loadHandle_of_outside (remembers.find?_eq_none outside) outside root
  have insideOf {handle : ResourceHandle} (answered : answerAfter root calls path = .ok handle) :
      StaysInside path := by
    by_contra outside
    rw [answerAfter, refused outside] at answered
    cases answered
  refine ⟨?_, ?_, ?_, remembers.count_eq⟩
  · constructor
    · rintro ⟨handle, answered⟩
      exact insideOf answered
    · intro inside
      rcases remembers.loadHandle_of_inside inside with ⟨handle, answered, _⟩
      exact ⟨handle, answered⟩
  · intro handle answered
    have inside := insideOf answered
    have resourceEq : handle.resource = ⟨path, joinFilePath root path⟩ := by
      rcases remembers.loadHandle_of_inside inside with ⟨given, givenAnswer, resource, _⟩
      rw [answerAfter, givenAnswer] at answered
      cases answered
      exact resource
    refine ⟨resourceEq, ?_, fun later other next => answerAfter_eq_iff answered⟩
    rw [resourceEq]
    exact liesInside_joinFilePath inside root
  · intro outside
    exact ⟨refused outside, remembers.find?_eq_none outside⟩

theorem answerAfter_spec_icon :
    answerAfter "res" ["../secret.txt", "icons/mob.dmi"] "icons/mob.dmi" =
        .ok ⟨0, "icons/mob.dmi", "res/icons/mob.dmi"⟩ ∧
      LiesInside "res" "res/icons/mob.dmi" ∧
      (afterAll "res" ["../secret.txt", "icons/mob.dmi"]).count = 1 := by
  have spec := answerAfter_spec "res" ["../secret.txt", "icons/mob.dmi"] "icons/mob.dmi"
  have answered : answerAfter "res" ["../secret.txt", "icons/mob.dmi"] "icons/mob.dmi" =
      .ok ⟨0, "icons/mob.dmi", "res/icons/mob.dmi"⟩ := by rfl
  exact ⟨answered, (spec.2.1 _ answered).2.1, spec.2.2.2.trans (by decide)⟩

end ResourceCache

end DreamWorld
