import DreamWorld.Proofs.Tree.ListObjects
import DreamWorld.Proofs.World.ListOperators

/-!
# Previous values

Writing a variable answers what was last written to it, or what the object was made with if
nothing has been.  That is what reading the variable gave before, except for the length of a list:
this is counted when it is read, while the slot behind it is written only with the length itself.
So after a list has changed in any other way, writing its length may answer another value than
the one that was read.
-/

namespace DreamWorld

/-! ## Slots -/

namespace Store

/-- The object stays, and the slot of one of its variables is as it was. -/
def KeepsSlot (ref : ObjectRef) (name : String) (before after : Store) : Prop :=
  ∀ object, before.object? ref = some object →
    ∃ later, after.object? ref = some later ∧ later.vars.find? name = object.vars.find? name

variable {store : Store} {ref target : ObjectRef} {name : String}

instance (ref : ObjectRef) (name : String) : IsPreorder Store (KeepsSlot ref name) where
  refl _ object found := ⟨object, found, rfl⟩
  trans _ _ _ first second object found := by
    rcases first object found with ⟨middle, middleFound, firstSame⟩
    rcases second middle middleFound with ⟨later, laterFound, secondSame⟩
    exact ⟨later, laterFound, secondSame.trans firstSame⟩

theorem keepsSlot_modifyObject {change : Object → Object}
    (same : target.id = ref.id → ∀ object : Object,
      (change object).vars.find? name = object.vars.find? name) :
    store.KeepsSlot ref name (store.modifyObject target change) := by
  intro object found
  rw [object?_modifyObject, found]
  by_cases here : target.id = ref.id
  · exact ⟨change object, if_pos here, same here object⟩
  · exact ⟨object, if_neg here, rfl⟩

theorem keepsSlot_addObject (store : Store) (object : Object) (ref : ObjectRef) (name : String) :
    store.KeepsSlot ref name (store.addObject object).2 := by
  intro known found
  have before : ref.id ≠ store.objects.size :=
    Nat.ne_of_lt (Array.getElem?_eq_some_iff.mp found).1
  exact ⟨known, by rw [object?_addObject, if_neg before, found], rfl⟩

/-- Nothing but a write of a variable changes a slot. -/
theorem permits_keepsSlot (ref : ObjectRef) (name : String) :
    Permits (KeepsSlot ref name) where
  note _ _ object found := ⟨object, found, rfl⟩
  writeGlobal _ _ _ object found := ⟨object, found, rfl⟩
  setHooks _ _ object found := ⟨object, found, rfl⟩
  delete _ _ := keepsSlot_modifyObject fun _ _ => rfl
  fill _ _ _ _ := keepsSlot_modifyObject fun _ _ => rfl
  create store _ := keepsSlot_addObject store _ ref name
  copy store _ _ _ _ _ := keepsSlot_addObject store _ ref name

end Store

namespace Object

variable {store after : Store} {ref target : ObjectRef} {object : Object} {name another : String}
  {value old : Value}

/-- A write that succeeds answers the slot as it was, whatever the hook. -/
theorem eq_of_setVariable (found : store.object? ref = some object)
    (run : (setVariable ref name value).runOn store = (.ok old, after)) :
    old = (object.vars.find? name).getD .null := by
  rcases Action.exists_setVariable (Store.permits_keepsSlot ref name) ref name value found with
    ⟨_, _, _, sameRun, _, ⟨rfl, _⟩ | ⟨_, rfl, _⟩⟩
  · cases run.symm.trans sameRun
    rfl
  · cases run.symm.trans sameRun

/-- A write that succeeds leaves the value in the slot. -/
theorem find?_vars_of_setVariable (found : store.object? ref = some object)
    (run : (setVariable ref name value).runOn store = (.ok old, after)) :
    ∃ later, after.object? ref = some later ∧ later.vars.find? name = some value := by
  have written := Store.object?_modifyObject_self found (Object.written name value)
  rcases Action.exists_setVariable (Store.permits_keepsSlot ref name) ref name value found with
    ⟨_, _, _, sameRun, kept, ⟨rfl, rfl⟩ | ⟨_, rfl, _⟩⟩
  · cases run.symm.trans sameRun
    rcases kept _ written with ⟨later, laterFound, same⟩
    exact ⟨later, laterFound, same.trans (object.find?_vars_written name value)⟩
  · cases run.symm.trans sameRun

/-- A write of one variable keeps the slots of all others, whatever becomes of it. -/
theorem keepsSlot_setVariable_of_ne (store : Store) (value : Value)
    (apart : target.id = ref.id → another ≠ name) :
    store.KeepsSlot ref name ((setVariable target another value).runOn store).2 := by
  cases found : store.object? target with
  | none =>
      have failed : (setVariable target another value).runOn store =
          (.error (.objectDeleted target.type), store) :=
        Action.runOn_bind_of_error (runOn_theObject_of_none found) _
      rw [failed]
      exact refl_of (Store.KeepsSlot ref name) store
  | some known =>
      rcases Action.exists_setVariable (Store.permits_keepsSlot ref name) target another value
        found with ⟨_, middle, _, run, kept, written⟩
      have keptMiddle : store.KeepsSlot ref name middle := by
        refine trans_of (Store.KeepsSlot ref name) (Store.keepsSlot_modifyObject ?_) kept
        exact fun here object => find?_vars_written_of_ne (apart here).symm
      rw [run]
      rcases written with ⟨_, rfl⟩ | ⟨_, _, rfl⟩
      · exact keptMiddle
      · refine trans_of (Store.KeepsSlot ref name) keptMiddle (Store.keepsSlot_modifyObject ?_)
        intro here object
        rw [find?_vars_restored, if_neg (apart here)]

/-- A write that fails keeps the slot that it was to write. -/
theorem keepsSlot_setVariable_of_error (value : Value) {error : RuntimeError}
    (run : (setVariable ref name value).runOn store = (.error error, after)) :
    store.KeepsSlot ref name after := by
  intro object found
  have written := Store.object?_modifyObject_self found (Object.written name value)
  rcases Action.exists_setVariable (Store.permits_keepsSlot ref name) ref name value found with
    ⟨_, middle, _, sameRun, kept, ⟨rfl, _⟩ | ⟨_, rfl, rfl⟩⟩
  · cases run.symm.trans sameRun
  · cases run.symm.trans sameRun
    rcases kept _ written with ⟨later, laterFound, _⟩
    refine ⟨_, Store.object?_modifyObject_self laterFound _, ?_⟩
    rw [find?_vars_restored, if_pos rfl]

end Object

/-! ## Runs -/

namespace Tree

variable {tree : Tree} {start store : Store} {ref : ObjectRef} {name : String} {value : Value}
  {step : Step} {steps : List Step} {object : Object}

/-- The step writes a value to a variable of an object, and succeeds. -/
def Step.Sets (store : Store) (ref : ObjectRef) (name : String) (value : Value) (step : Step) :
    Prop :=
  ∃ target old, target.id = ref.id ∧ step.Targets store target name value ∧
    ((Object.setVariable target name value).runOn store).1 = .ok old

/-- The value that the last of some steps to do so has written to a variable of an object, if any
of them has. -/
inductive LastSet (tree : Tree) (start : Store) (ref : ObjectRef) (name : String) :
    List Step → Option Value → Prop
  | never : LastSet tree start ref name [] none
  | set {steps : List Step} {step : Step} {value : Value} :
      step.Sets (tree.afterAll start steps) ref name value →
      LastSet tree start ref name (steps ++ [step]) (some value)
  | kept {steps : List Step} {step : Step} {recent : Option Value} :
      LastSet tree start ref name steps recent →
      (∀ value, ¬ step.Sets (tree.afterAll start steps) ref name value) →
      LastSet tree start ref name (steps ++ [step]) recent

/-- A step that targets a variable leaves the store that the write of the variable leaves. -/
theorem after_of_targets (targets : step.Targets store ref name value) :
    tree.after store step = ((Object.setVariable ref name value).runOn store).2 := by
  cases targets with
  | setVariable => rfl
  | assign frame alive has =>
      rw [after, alive.runOn_assign_of_has frame has]
      rcases run : (Object.setVariable ref name value).runOn store with ⟨error | old, after⟩
      · rw [Action.runOn_bind_of_error run]
      · rw [Action.runOn_bind_of_ok run]
        rfl

/-- What a step writes to a variable is in the slot afterwards. -/
theorem find?_vars_after_of_sets (found : store.object? ref = some object)
    (sets : step.Sets store ref name value) :
    ∃ later, (tree.after store step).object? ref = some later ∧
      later.vars.find? name = some value := by
  rcases sets with ⟨target, old, here, targets, accepted⟩
  rcases run : (Object.setVariable target name value).runOn store with ⟨outcome, after⟩
  rw [run] at accepted
  cases accepted
  rcases Object.find?_vars_of_setVariable ((Store.object?_congr here).trans found) run with
    ⟨later, laterFound, slotEq⟩
  refine ⟨later, ?_, slotEq⟩
  rw [after_of_targets targets, run, ← Store.object?_congr here]
  exact laterFound

/-- Any other step keeps the slot. -/
theorem keepsSlot_after (idle : ∀ value, ¬ step.Sets store ref name value) :
    store.KeepsSlot ref name (tree.after store step) := by
  apply related_after (Store.permits_keepsSlot ref name)
  intro target another value targets
  by_cases aimed : target.id = ref.id ∧ another = name
  · rcases aimed with ⟨here, rfl⟩
    rcases run : (Object.setVariable target another value).runOn store with ⟨error | old, after⟩
    · intro object found
      have kept := Object.keepsSlot_setVariable_of_error value run object
        ((Store.object?_congr here).trans found)
      rwa [Store.object?_congr here] at kept
    · exact absurd ⟨target, old, here, targets, congrArg Prod.fst run⟩ (idle value)
  · exact Object.keepsSlot_setVariable_of_ne store value fun here same => aimed ⟨here, same⟩

/-- After a run the slot has what was last written to it in the run, or else what it had before
the run. -/
theorem LastSet.find?_vars_eq {recent : Option Value}
    (last : LastSet tree start ref name steps recent) (found : start.object? ref = some object) :
    ∃ later, (tree.afterAll start steps).object? ref = some later ∧
      later.vars.find? name = recent.or (object.vars.find? name) := by
  induction last with
  | never => exact ⟨object, found, rfl⟩
  | @set steps step value sets =>
      have becomes : World.Becomes ⟨tree, start⟩ ⟨tree, tree.afterAll start steps⟩ :=
        World.Becomes.afterAll .refl steps
      rcases becomes.develops.lives ref object found with ⟨middle, middleFound, _⟩
      rw [afterAll_append_singleton]
      exact find?_vars_after_of_sets middleFound sets
  | kept last idle ih =>
      rcases ih with ⟨middle, middleFound, slotEq⟩
      rcases keepsSlot_after idle middle middleFound with ⟨later, laterFound, same⟩
      rw [afterAll_append_singleton]
      exact ⟨later, laterFound, same.trans slotEq⟩

theorem Step.Sets.unique {other : Value} (first : step.Sets store ref name value)
    (second : step.Sets store ref name other) : other = value := by
  rcases first with ⟨_, _, _, targets, _⟩
  rcases second with ⟨_, _, _, otherTargets, _⟩
  cases targets <;> cases otherTargets <;> rfl

theorem LastSet.unique {recent other : Option Value}
    (first : LastSet tree start ref name steps recent)
    (second : LastSet tree start ref name steps other) : other = recent := by
  induction first generalizing other with
  | never =>
      generalize same : ([] : List Step) = others at second
      cases second with
      | never => rfl
      | set | kept => simp at same
  | @set steps step value sets =>
      generalize same : steps ++ [step] = others at second
      cases second with
      | never => simp at same
      | set otherSets =>
          obtain ⟨rfl, ⟨⟩⟩ := List.append_inj' same rfl
          rw [sets.unique otherSets]
      | kept _ idle =>
          obtain ⟨rfl, ⟨⟩⟩ := List.append_inj' same rfl
          exact absurd sets (idle value)
  | @kept steps step recent _ idle ih =>
      generalize same : steps ++ [step] = others at second
      cases second with
      | never => simp at same
      | set otherSets =>
          obtain ⟨rfl, ⟨⟩⟩ := List.append_inj' same rfl
          exact absurd otherSets (idle _)
      | kept otherLast _ =>
          obtain ⟨rfl, ⟨⟩⟩ := List.append_inj' same rfl
          exact ih otherLast

theorem exists_lastSet (tree : Tree) (start : Store) (ref : ObjectRef) (name : String)
    (steps : List Step) : ∃ recent, LastSet tree start ref name steps recent := by
  induction steps using List.reverseRecOn with
  | nil => exact ⟨none, .never⟩
  | append_singleton steps step ih =>
      by_cases sets : ∃ value, step.Sets (tree.afterAll start steps) ref name value
      · rcases sets with ⟨value, sets⟩
        exact ⟨some value, .set sets⟩
      · rcases ih with ⟨recent, last⟩
        exact ⟨recent, .kept last (not_exists.mp sets)⟩

end Tree

/-! ## What is answered and what was read -/

namespace Object

open Operator (cardStore)

variable {store after : Store} {ref : ObjectRef} {object : Object} {name : String}
  {value old : Value}

/-- The value is what is read of a variable, or null where the object has no such variable. -/
def ReadsAs (store : Store) (ref : ObjectRef) (name : String) (value : Value) : Prop :=
  (getVariable ref name).runOn store = (.ok value, store) ∨
    (hasVariable ref name).runOn store = (.ok false, store) ∧ value = .null

/-- The variable is the length of a list whose class has the hook of lists, and its slot does not
hold the length. -/
def Outdated (store : Store) (object : Object) (name : String) : Prop :=
  store.hook? object.definition.id = some .lists ∧ name = lengthName ∧
    ∃ list held, object.list = some list ∧ object.vars.find? lengthName = some held ∧
      held ≠ .integer list.count

section

variable (found : store.object? ref = some object)

include found

theorem readsAs_iff_of_lacks (absent : object.vars.find? name = none) :
    ReadsAs store ref name value ↔ value = .null := by
  rw [ReadsAs, runOn_getVariable_of_lacks found absent, runOn_hasVariable found,
    Keyed.has_eq_false_iff.mpr absent]
  simp

theorem readsAs_iff_of_run {seen : Value} (has : object.vars.has name = true)
    (run : (getVariable ref name).runOn store = (.ok seen, store)) :
    ReadsAs store ref name value ↔ value = seen := by
  rw [ReadsAs, run, runOn_hasVariable found, has]
  simp [eq_comm]

end

/-- Only the length of a list is written with success where the hook of lists is asked for it. -/
theorem exists_list_of_setVariable (found : store.object? ref = some object)
    (hooked : store.hook? object.definition.id = some .lists)
    (run : (setVariable ref lengthName value).runOn store = (.ok old, after)) :
    ∃ list, object.list = some list := by
  rcases exists_variableWritten found (.inr hooked) lengthName value with
    ⟨_, _, sameRun, written⟩
  cases written with
  | slot plain => exact absurd rfl (plain hooked)
  | length _ _ listEq _ => exact ⟨_, listEq⟩
  | rejected => cases run.symm.trans sameRun

/-- What was read before a write that succeeds is what the write answers, unless the slot did not
hold the length that was read. -/
theorem exists_readsAs (found : store.object? ref = some object)
    (atMost : store.AtMostLists object.definition.id)
    (run : (setVariable ref name value).runOn store = (.ok old, after)) :
    ∃ seen, (∀ other, ReadsAs store ref name other ↔ other = seen) ∧
      (old = seen ↔ ¬ object.Outdated store name) := by
  have oldEq := eq_of_setVariable found run
  cases held : object.vars.find? name with
  | none =>
      rw [held] at oldEq
      refine ⟨.null, fun other => readsAs_iff_of_lacks found held, iff_of_true oldEq ?_⟩
      rintro ⟨_, rfl, _, _, _, present, _⟩
      cases held.symm.trans present
  | some slot =>
      rw [held, Option.getD_some] at oldEq
      subst oldEq
      have has := Keyed.has_of_find? held
      by_cases isLength : store.hook? object.definition.id = some .lists ∧ name = lengthName
      · rcases isLength with ⟨hooked, rfl⟩
        rcases exists_list_of_setVariable found hooked run with ⟨list, listEq⟩
        have lengthRead := runOn_getVariable_length found has hooked
        rw [listEq] at lengthRead
        refine ⟨.integer list.count, fun other => readsAs_iff_of_run found has lengthRead, ?_⟩
        constructor
        · rintro rfl ⟨_, _, otherList, otherHeld, otherListEq, otherSlot, different⟩
          cases listEq.symm.trans otherListEq
          cases held.symm.trans otherSlot
          exact different rfl
        · intro current
          by_contra different
          exact current ⟨hooked, rfl, list, old, listEq, held, different⟩
      · have slotRead : (getVariable ref name).runOn store = (.ok old, store) := by
          by_cases different : name = lengthName
          · have unhooked := atMost.resolve_right fun hooked => isLength ⟨hooked, different⟩
            exact runOn_getVariable_of_unhooked found held unhooked
          · rw [runOn_getVariable_of_ne found atMost different, held]
            rfl
        refine ⟨old, fun other => readsAs_iff_of_run found has slotRead, iff_of_true rfl ?_⟩
        rintro ⟨hooked, rfl, _⟩
        exact isLength ⟨hooked, rfl⟩

/-- Let a variable of an object be written with success, where the class of the object has no hook
or that of lists.  The answer is what was read of the variable before, or null if there was no
such variable, but for the length of a list whose slot does not hold the length; then it is what
the slot held.  The slot is kept by all that happens to the list: in any run that comes to this
store, the answer is the value that was last written to the variable with success, or else what
the slot held before the run. -/
theorem setVariable_answers (found : store.object? ref = some object)
    (atMost : store.AtMostLists object.definition.id)
    (run : (setVariable ref name value).runOn store = (.ok old, after)) :
    (∃ seen, (∀ other, ReadsAs store ref name other ↔ other = seen) ∧
      (old = seen ↔ ¬ object.Outdated store name)) ∧
    ∀ tree start steps first, start.object? ref = some first →
      Tree.afterAll tree start steps = store →
      ∃ recent, Tree.LastSet tree start ref name steps recent ∧
        (∀ other, Tree.LastSet tree start ref name steps other → other = recent) ∧
        old = (recent.or (first.vars.find? name)).getD .null := by
  refine ⟨exists_readsAs found atMost run, ?_⟩
  rintro tree start steps first startFound rfl
  rcases Tree.exists_lastSet tree start ref name steps with ⟨recent, last⟩
  refine ⟨recent, last, fun other => last.unique, ?_⟩
  rcases last.find?_vars_eq startFound with ⟨later, laterFound, slotEq⟩
  cases found.symm.trans laterFound
  rw [← slotEq]
  exact eq_of_setVariable found run

/-- The length of a list is written, and a card is added afterwards. -/
def drawingSteps : List Tree.Step :=
  [.setVariable ⟨0, Path.listClass⟩ lengthName (.integer 2)] ++
    [.operate .append (.object ⟨0, Path.listClass⟩) (.text "queen")]

/-- After that there are three cards, but the write of another length answers two, which is what
was last written. -/
theorem setVariable_answers_drawingSteps :
    let deck : ObjectRef := ⟨0, Path.listClass⟩
    let store := World.start.tree.afterAll cardStore drawingSteps
    ∃ old after, (setVariable deck lengthName (.integer 1)).runOn store = (.ok old, after) ∧
      Tree.LastSet World.start.tree cardStore deck lengthName drawingSteps
        (some (.integer 2)) ∧
      old = .integer 2 ∧ ReadsAs store deck lengthName (.integer 3) ∧
      ¬ ReadsAs store deck lengthName old := by
  intro deck store
  have found : store.object? deck = some _ := rfl
  have run : (setVariable deck lengthName (.integer 1)).runOn store = (.ok _, _) := rfl
  have last : Tree.LastSet World.start.tree cardStore deck lengthName drawingSteps
      (some (.integer 2)) := by
    have written : Tree.LastSet World.start.tree cardStore deck lengthName
        ([] ++ [.setVariable deck lengthName (.integer 2)]) (some (.integer 2)) :=
      .set ⟨deck, .integer 0, rfl, .setVariable, rfl⟩
    refine .kept written ?_
    rintro value ⟨_, _, _, targets, _⟩
    cases targets
  obtain ⟨⟨seen, readsAs, agrees⟩, runs⟩ := setVariable_answers found (.inr rfl) run
  obtain ⟨recent, _, unique, oldEq⟩ := runs World.start.tree cardStore drawingSteps _ rfl rfl
  cases unique _ last
  have seenEq : Value.integer 3 = seen := (readsAs _).mp (.inl rfl)
  refine ⟨_, _, run, last, oldEq, .inl rfl, ?_⟩
  rw [readsAs, ← seenEq]
  decide

/-- The world after a list of three nulls has been made. -/
def nullsWorld : World :=
  { World.start with
    store := World.start.tree.afterAll World.start.store
      [.create Path.listClass { ordered := [.integer 3] }] }

/-- Not every write answers what was read before, even in worlds that come about: a new list of
three nulls has a length of three, but the first write to its length answers zero. -/
theorem not_forall_readsAs :
    ¬ ∀ world, World.start.Becomes world → ∀ ref object name value old after,
      world.store.object? ref = some object →
      world.store.AtMostLists object.definition.id →
      (setVariable ref name value).runOn world.store = (.ok old, after) →
      ReadsAs world.store ref name old := by
  intro agrees
  have reads := agrees nullsWorld (World.Becomes.afterAll .refl _) ⟨0, Path.listClass⟩ _ lengthName
    (.integer 5) (.integer 0) _ rfl (.inr rfl) rfl
  rcases reads with lengthRead | ⟨lacks, _⟩
  · have three : ((getVariable ⟨0, Path.listClass⟩ lengthName).runOn nullsWorld.store).1 =
        .ok (.integer 3) := rfl
    rw [lengthRead] at three
    cases three
  · have present : ((hasVariable ⟨0, Path.listClass⟩ lengthName).runOn nullsWorld.store).1 =
        .ok true := rfl
    rw [lacks] at present
    cases present

end Object

end DreamWorld
