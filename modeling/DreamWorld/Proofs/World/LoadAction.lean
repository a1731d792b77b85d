import DreamWorld.Proofs.Keyed
import DreamWorld.World.Constant

/-!
# Running load actions

A load action either gives a result or stops with the first failure, and in both
cases it leaves a memory of the loader.  A loop either goes through all of its
items or stops at the first one that fails, so what one turn of a loop keeps, the
whole loop keeps up to where it ends.
-/

namespace DreamWorld

namespace LoadAction

variable {σ α β : Type}

theorem run_bind_of_ok {action : LoadAction σ α} {memory middle : σ} {value : α}
    (run : action.run memory = (.ok value, middle)) (next : α → LoadAction σ β) :
    (action >>= next).run memory = (next value).run middle := by
  change ExceptT.bindCont next (action.run memory).1 (action.run memory).2 = _
  rw [run]
  rfl

theorem run_bind_of_error {action : LoadAction σ α} {memory middle : σ} {error : LoadError}
    (run : action.run memory = (.error error, middle)) (next : α → LoadAction σ β) :
    (action >>= next).run memory = (.error error, middle) := by
  change ExceptT.bindCont next (action.run memory).1 (action.run memory).2 = _
  rw [run]
  rfl

/-- Every run ends with a result or with a failure. -/
theorem run_cases (action : LoadAction σ α) (memory : σ) :
    (∃ result last, action.run memory = (.ok result, last)) ∨
      ∃ error last, action.run memory = (.error error, last) := by
  rcases outcome : action.run memory with ⟨_ | result, last⟩
  · exact .inr ⟨_, last, rfl⟩
  · exact .inl ⟨result, last, rfl⟩

/-- Two actions in a row give a result exactly when both do. -/
theorem run_bind_eq_ok_iff {action : LoadAction σ α} {next : α → LoadAction σ β}
    {memory last : σ} {result : β} :
    (action >>= next).run memory = (.ok result, last) ↔
      ∃ value middle, action.run memory = (.ok value, middle) ∧
        (next value).run middle = (.ok result, last) := by
  rcases run_cases action memory with ⟨value, middle, run⟩ | ⟨error, middle, run⟩
  · rw [run_bind_of_ok run]
    constructor
    · intro rest
      exact ⟨value, middle, run, rest⟩
    · rintro ⟨_, _, sameRun, rest⟩
      rw [run] at sameRun
      cases sameRun
      exact rest
  · rw [run_bind_of_error run]
    constructor
    · intro failed
      cases failed
    · rintro ⟨_, _, otherRun, _⟩
      rw [run] at otherRun
      cases otherRun

/-! ## Loops -/

-- The induction is on the items still to come; `done` collects those behind.
private theorem run_foldlM_cases_from {step : β → α → LoadAction σ β}
    {holds : List α → β → σ → Prop} {items : List α}
    (advance : ∀ done item rest state middle next last, items = done ++ item :: rest →
      holds done state middle → (step state item).run middle = (.ok next, last) →
      holds (done ++ [item]) next last)
    (rest done : List α) (state : β) (middle : σ) (itemsEq : items = done ++ rest)
    (before : holds done state middle) :
    (∃ result last, (rest.foldlM step state).run middle = (.ok result, last) ∧
      holds items result last) ∨
    ∃ done item rest' state' middle' error last, items = done ++ item :: rest' ∧
      holds done state' middle' ∧ (step state' item).run middle' = (.error error, last) ∧
      (rest.foldlM step state).run middle = (.error error, last) := by
  induction rest generalizing done state middle with
  | nil =>
      rw [List.append_nil] at itemsEq
      subst itemsEq
      exact .inl ⟨state, middle, rfl, before⟩
  | cons item rest ih =>
      rw [List.foldlM_cons]
      rcases run_cases (step state item) middle with ⟨next, last, turn⟩ | ⟨error, last, turn⟩
      · rw [run_bind_of_ok turn]
        exact ih (done ++ [item]) next last (by simpa using itemsEq)
          (advance done item rest state middle next last itemsEq before turn)
      · rw [run_bind_of_error turn]
        exact .inr ⟨done, item, rest, state, middle, error, last, itemsEq, before, turn, rfl⟩

/-- A loop goes through all items or stops at the first one that fails.  Either
way it keeps what each turn keeps. -/
theorem run_foldlM_cases {step : β → α → LoadAction σ β} (holds : List α → β → σ → Prop)
    {items : List α} {start : β} {memory : σ} (base : holds [] start memory)
    (advance : ∀ done item rest state middle next last, items = done ++ item :: rest →
      holds done state middle → (step state item).run middle = (.ok next, last) →
      holds (done ++ [item]) next last) :
    (∃ result last, (items.foldlM step start).run memory = (.ok result, last) ∧
      holds items result last) ∨
    ∃ done item rest state middle error last, items = done ++ item :: rest ∧
      holds done state middle ∧ (step state item).run middle = (.error error, last) ∧
      (items.foldlM step start).run memory = (.error error, last) :=
  run_foldlM_cases_from advance items [] start memory rfl base

/-- A loop that gives a result keeps what each turn keeps. -/
theorem holds_of_run_foldlM_eq_ok {step : β → α → LoadAction σ β}
    (holds : List α → β → σ → Prop) {items : List α} {start result : β} {memory last : σ}
    (run : (items.foldlM step start).run memory = (.ok result, last))
    (base : holds [] start memory)
    (advance : ∀ done item rest state middle next last, items = done ++ item :: rest →
      holds done state middle → (step state item).run middle = (.ok next, last) →
      holds (done ++ [item]) next last) : holds items result last := by
  rcases run_foldlM_cases holds base advance with
    ⟨found, foundLast, foundRun, kept⟩ | ⟨_, _, _, _, _, _, _, _, _, _, failedRun⟩
  · rw [run] at foundRun
    cases foundRun
    exact kept
  · rw [run] at failedRun
    cases failedRun

end LoadAction

/-! ## Loaders that always answer alike -/

/-- A loader that gives fixed answers and has nothing to remember. -/
def ResourceLoader.fixed (answer : String → Except ResourceError Resource) :
    ResourceLoader Unit where
  load path memory := (answer path, memory)

/-- From a valid memory on, the answers of a loader depend on nothing but the
path. -/
structure ResourceLoader.Steady {σ : Type} (loader : ResourceLoader σ)
    (answer : String → Except ResourceError Resource) (valid : σ → Prop) : Prop where
  answer_eq : ∀ path memory, valid memory → (loader.load path memory).1 = answer path
  valid_next : ∀ path memory, valid memory → valid (loader.load path memory).2

/-- What the loader of files below a root answers. -/
def fileAnswer (root path : String) : Except ResourceError Resource :=
  if ResourceCache.staysBelow path then .ok ⟨path, joinFilePath root path⟩
  else .error (.outsideRoot path)

/-- A cache remembers only what would be answered without it. -/
def ResourceCache.Faithful (root : String) (cache : ResourceCache) : Prop :=
  ∀ path handle, cache.handles.find? path = some handle →
    fileAnswer root path = .ok handle.resource

theorem ResourceCache.faithful_empty (root : String) : Faithful root {} := by
  intro path handle found
  cases found

/-- A faithful cache answers as the loader would without it and stays faithful. -/
theorem ResourceCache.Faithful.load {root : String} {cache : ResourceCache}
    (faithful : Faithful root cache) (path : String) :
    (cache.load root path).1 = fileAnswer root path ∧ Faithful root (cache.load root path).2 := by
  unfold ResourceCache.load ResourceCache.loadHandle
  cases found : cache.handles.find? path with
  | some handle => exact ⟨(faithful path handle found).symm, faithful⟩
  | none =>
      by_cases below : ResourceCache.staysBelow path = true
      · simp only [below, if_true]
        refine ⟨by rw [fileAnswer, if_pos below]; rfl, ?_⟩
        intro other handle otherFound
        rw [Keyed.find?_insert] at otherFound
        by_cases same : path = other
        · rw [if_pos same] at otherFound
          cases otherFound
          rw [fileAnswer, ← same, if_pos below]
        · rw [if_neg same] at otherFound
          exact faithful other handle otherFound
      · rw [if_neg below]
        exact ⟨by rw [fileAnswer, if_neg below]; rfl, faithful⟩

/-- The answers of the loader of files depend on nothing but the path. -/
theorem fileLoader_steady (root : String) :
    (fileLoader root).Steady (fileAnswer root) (ResourceCache.Faithful root) where
  answer_eq path _ faithful := (faithful.load path).1
  valid_next path _ faithful := (faithful.load path).2

/-- The value of a constant for a loader of fixed answers. -/
def Constant.decoded (answer : String → Except ResourceError Resource) (value : Json.Value) :
    Except LoadError Value :=
  ((Constant.decode (.fixed answer) value).run ()).1

namespace ResourceLoader.Steady

variable {σ : Type} {loader : ResourceLoader σ}
  {answer : String → Except ResourceError Resource} {valid : σ → Prop}

private theorem run_loadResource (steady : loader.Steady answer valid) {memory : σ}
    (validMemory : valid memory) (path : String) :
    ∃ last, valid last ∧ (Constant.loadResource loader path).run memory =
      (((Constant.loadResource (.fixed answer) path).run ()).1, last) := by
  have answered := steady.answer_eq path memory validMemory
  have kept := steady.valid_next path memory validMemory
  rcases loaded : loader.load path memory with ⟨outcome, last⟩
  rw [loaded] at answered kept
  refine ⟨last, kept, ?_⟩
  unfold Constant.loadResource ExceptT.run
  simp only [loaded, fixed, ← answered]
  cases outcome <;> rfl

private theorem run_ofMembers (steady : loader.Steady answer valid) {memory : σ}
    (validMemory : valid memory) (members : Keyed Json.Value) :
    ∃ last, valid last ∧ (Constant.ofMembers loader members).run memory =
      (((Constant.ofMembers (.fixed answer) members).run ()).1, last) := by
  unfold Constant.ofMembers
  split
  · exact ⟨memory, validMemory, rfl⟩
  · split
    · split
      · rename_i path _
        rcases steady.run_loadResource validMemory path with ⟨last, kept, asked⟩
        refine ⟨last, kept, ?_⟩
        rcases answered : (Constant.loadResource (.fixed answer) path).run () with ⟨outcome, _⟩
        rw [answered] at asked
        cases outcome with
        | ok resource =>
            rw [LoadAction.run_bind_of_ok asked, LoadAction.run_bind_of_ok answered]
            rfl
        | error error =>
            rw [LoadAction.run_bind_of_error asked, LoadAction.run_bind_of_error answered]
      all_goals exact ⟨memory, validMemory, rfl⟩
    · split
      · exact ⟨memory, validMemory, rfl⟩
      · split
        · split <;> exact ⟨memory, validMemory, rfl⟩
        · exact ⟨memory, validMemory, rfl⟩

/-- Reading a constant with a steady loader gives the value for its answers. -/
theorem run_decode (steady : loader.Steady answer valid) {memory : σ}
    (validMemory : valid memory) (value : Json.Value) :
    ∃ last, valid last ∧
      (Constant.decode loader value).run memory = (Constant.decoded answer value, last) := by
  cases value with
  | object members => exact steady.run_ofMembers validMemory members
  | text | number | null | bool | array => exact ⟨memory, validMemory, rfl⟩

end ResourceLoader.Steady

end DreamWorld
