import DreamWorld.Proofs.Path.RoundTrip

/-!
# Joined paths

Resolving follows segments from left to right, so to resolve two texts one after another
is to resolve them at once with a slash between them, unless the second one restarts at
the root.  A relative path without dot elements is put as it stands below the path that
its text is resolved from, and leaving the outcome for its parent once for each of these
elements leads back.
-/

namespace DreamWorld.Path

variable {text rest : String} {elements segments : List String}

/-! ## One text after another -/

/-- A text that starts at the root leads to one path, wherever it is resolved from. -/
theorem resolve_of_startsAtRoot (begins : startsAtRoot text = true) (path other : Path) :
    path.resolve text = other.resolve text := by
  simp only [resolve, begins, if_true]

theorem resolve_of_relative (continues : startsAtRoot text = false) (path : Path) :
    path.resolve text =
      { path with elements := (Path.segments text).foldl step path.elements } := by
  simp only [resolve, continues, Bool.false_eq_true, if_false]

theorem resolve_resolve (nonempty : text ≠ "") (continues : startsAtRoot rest = false)
    (path : Path) : (path.resolve text).resolve rest = path.resolve (text ++ "/" ++ rest) := by
  have begins : startsAtRoot (text ++ "/" ++ rest) = startsAtRoot text := by
    rw [String.append_assoc, startsAtRoot_append nonempty]
  rw [resolve_of_relative continues]
  simp only [resolve, begins, segments_append_slash, List.foldl_append]

/-! ## Paths without dot elements -/

theorem foldl_step_of_notMem (noStay : "." ∉ segments) (noLeave : ".." ∉ segments) :
    segments.foldl step elements = elements ++ segments := by
  induction segments generalizing elements with
  | nil => rw [List.foldl_nil, List.append_nil]
  | cons first others ih =>
      rw [List.mem_cons, not_or] at noStay noLeave
      have stepped : step elements first = elements ++ [first] := by
        rw [step, if_neg (Ne.symm noStay.1), if_neg (Ne.symm noLeave.1)]
      rw [List.foldl_cons, stepped, ih noStay.2 noLeave.2, List.append_assoc,
        List.singleton_append]

/-- Resolving the text of a relative path without dot elements appends its elements. -/
theorem resolve_toText {inner : Path} (spelled : inner.WellSpelled)
    (relative : inner.isAbsolute = false) (noStay : "." ∉ inner.elements)
    (noLeave : ".." ∉ inner.elements) (path : Path) :
    path.resolve inner.toText = { path with elements := path.elements ++ inner.elements } := by
  have continues : startsAtRoot inner.toText = false := by
    rw [spelled.startsAtRoot_toText, relative]
  rw [resolve_of_relative continues, spelled.segments_toText, foldl_step_of_notMem noStay noLeave]

/-! ## Back to an enclosing path -/

theorem liesBelow_append (kind : PathKind) (elements inner : List String) :
    liesBelow ⟨kind, elements ++ inner⟩ ⟨kind, elements⟩ = true := by
  simp [liesBelow, List.isPrefixOf_iff_prefix]

/-- The path that leaving for the parent `count` times leads to. -/
def ancestor? : Nat → Path → Option Path
  | 0, path => some path
  | count + 1, path => path.parent?.bind (ancestor? count)

theorem parent?_append_singleton (kind : PathKind) (elements : List String) (last : String) :
    parent? ⟨kind, elements ++ [last]⟩ = some ⟨kind, elements⟩ := by
  simp [parent?, slice_zero, length]

/-- From below a path, leaving for the parent once for each element below leads to the
path. -/
theorem ancestor?_append (kind : PathKind) (elements inner : List String) :
    ancestor? inner.length ⟨kind, elements ++ inner⟩ = some ⟨kind, elements⟩ := by
  induction inner using List.reverseRecOn with
  | nil => rw [List.append_nil, List.length_nil, ancestor?]
  | append_singleton before last ih =>
      rw [List.length_append, List.length_singleton, ← List.append_assoc, ancestor?,
        parent?_append_singleton, Option.bind_some, ih]

/-- Texts are resolved one after another as they are at once, unless the second restarts
at the root; and a relative path that is read from a text and has no dot elements goes
below the path it is resolved from, as many steps down as it has elements. -/
theorem resolve_composes (path : Path) (text rest inner : String) :
    (text ≠ "" → startsAtRoot rest = false →
      (path.resolve text).resolve rest = path.resolve (text ++ "/" ++ rest)) ∧
    (startsAtRoot rest = true → (path.resolve text).resolve rest = root.resolve rest) ∧
    ((parse inner).isAbsolute = false → "." ∉ (parse inner).elements →
      ".." ∉ (parse inner).elements →
        (path.resolve (parse inner).toText).kind = path.kind ∧
        (path.resolve (parse inner).toText).elements = path.elements ++ (parse inner).elements ∧
        (path.resolve (parse inner).toText).liesBelow path = true ∧
        ancestor? (parse inner).length (path.resolve (parse inner).toText) = some path) := by
  refine ⟨fun nonempty continues => resolve_resolve nonempty continues path,
    fun begins => resolve_of_startsAtRoot begins _ _, fun relative noStay noLeave => ?_⟩
  rw [resolve_toText (wellSpelled_parse inner) relative noStay noLeave]
  exact ⟨rfl, rfl, liesBelow_append path.kind path.elements _,
    ancestor?_append path.kind path.elements _⟩

/-- From `/obj`: a doubled slash where two texts meet, a second text that restarts at the
root, and a path of two elements. -/
theorem resolve_composes_objPath :
    let path := parse "/obj"
    ("../mob/" ≠ "" ∧ startsAtRoot "./player//" = false ∧
      (path.resolve "../mob/").resolve "./player//" = path.resolve "../mob//./player//") ∧
    (startsAtRoot "/./player//" = true ∧
      (path.resolve "../mob/").resolve "/./player//" = root.resolve "/./player//") ∧
    (parse "item//sword/").isAbsolute = false ∧ "." ∉ (parse "item//sword/").elements ∧
      ".." ∉ (parse "item//sword/").elements ∧
      (path.resolve (parse "item//sword/").toText).kind = path.kind ∧
      (path.resolve (parse "item//sword/").toText).elements =
        path.elements ++ (parse "item//sword/").elements ∧
      (path.resolve (parse "item//sword/").toText).liesBelow path = true ∧
      ancestor? 2 (path.resolve (parse "item//sword/").toText) = some path := by
  intro path
  have together := (resolve_composes path "../mob/" "./player//" "").1 (by decide) (by decide)
  have restarted := (resolve_composes path "../mob/" "/./player//" "").2.1 (by decide)
  have relative : (parse "item//sword/").isAbsolute = false := by decide
  have noStay : "." ∉ (parse "item//sword/").elements := by decide
  have noLeave : ".." ∉ (parse "item//sword/").elements := by decide
  exact ⟨⟨by decide, by decide, together⟩, ⟨by decide, restarted⟩, relative, noStay, noLeave,
    (resolve_composes path "" "" "item//sword/").2.2 relative noStay noLeave⟩

end DreamWorld.Path
