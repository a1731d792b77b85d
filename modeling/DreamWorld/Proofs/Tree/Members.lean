import DreamWorld.Proofs.World.LoadAction
import DreamWorld.Tree.Load

/-!
# Declaring the members of a record

Declaring members changes neither which class a definition is nor what it
inherits from.  With a steady loader it fails exactly when one of the constants
of the record cannot be read, and then with the failure of the first such one.
-/

namespace DreamWorld

open Document (ClassRecord ProcRecord)

/-- The values that a record gives to variables and then to shared variables. -/
def Document.ClassRecord.constants (record : ClassRecord) : List Json.Value :=
  (record.vars.getD []).map Prod.snd ++ (record.globals.getD []).map Prod.snd

/-- Why a constant cannot be read, if it cannot. -/
def Constant.failure? (answer : String → Except ResourceError Resource) (value : Json.Value) :
    Option LoadError :=
  match Constant.decoded answer value with
  | .ok _ => none
  | .error error => some error

theorem Constant.failure?_eq_none_iff {answer : String → Except ResourceError Resource}
    {value : Json.Value} :
    failure? answer value = none ↔ ∃ decoded, Constant.decoded answer value = .ok decoded := by
  unfold failure?
  cases Constant.decoded answer value <;> simp

theorem Constant.failure?_eq_some_iff {answer : String → Except ResourceError Resource}
    {value : Json.Value} {error : LoadError} :
    failure? answer value = some error ↔ Constant.decoded answer value = .error error := by
  unfold failure?
  cases Constant.decoded answer value <;> simp

namespace Definition

variable {σ : Type}

/-! ## What members leave alone -/

/-- Two definitions are of the same class and inherit from the same classes. -/
def SameClass (definition other : Definition) : Prop :=
  definition.id = other.id ∧ definition.type = other.type ∧
    definition.ancestors = other.ancestors

theorem SameClass.refl (definition : Definition) : definition.SameClass definition :=
  ⟨rfl, rfl, rfl⟩

theorem SameClass.trans {first second third : Definition} (upper : first.SameClass second)
    (lower : second.SameClass third) : first.SameClass third :=
  ⟨upper.1.trans lower.1, upper.2.1.trans lower.2.1, upper.2.2.trans lower.2.2⟩

/-- A loop of declarations that each keep the class keeps the class. -/
theorem sameClass_foldl {α : Type} {declare : Definition → α → Definition}
    (keeps : ∀ definition item, (declare definition item).SameClass definition)
    (items : List α) (definition : Definition) :
    (items.foldl declare definition).SameClass definition := by
  induction items generalizing definition with
  | nil => exact .refl definition
  | cons item rest ih => exact (ih (declare definition item)).trans (keeps definition item)

theorem sameClass_addProcs (definition : Definition) (procs : Keyed (List ProcRecord)) :
    (definition.addProcs procs).SameClass definition := by
  apply sameClass_foldl
  intro state entry
  apply sameClass_foldl
  intro inner record
  exact ⟨rfl, rfl, rfl⟩

theorem sameClass_initProc (definition : Definition) (record : Option ProcRecord) :
    (record.elim definition definition.addInitProc).SameClass definition := by
  cases record <;> exact ⟨rfl, rfl, rfl⟩

/-- Variables and shared variables are declared by the same loop, which differs
only in where it puts a value. -/
private theorem sameClass_of_run_constants {loader : ResourceLoader σ}
    (put : Definition → String → Value → Definition)
    (keeps : ∀ definition name value, (put definition name value).SameClass definition)
    {table : Keyed Json.Value} {definition result : Definition} {memory last : σ}
    (run : (table.foldlM
      (fun definition entry => do
        return put definition entry.1 (← Constant.decode loader entry.2))
      definition : LoadAction σ Definition).run memory = (.ok result, last)) :
    result.SameClass definition := by
  apply LoadAction.holds_of_run_foldlM_eq_ok
    (fun _ state _ => state.SameClass definition) run (.refl definition)
  intro done entry rest state middle next last _ before turn
  rcases LoadAction.run_bind_eq_ok_iff.mp turn with ⟨value, _, _, declared⟩
  cases declared
  exact (keeps state entry.1 value).trans before

/-- Declaring members keeps the class. -/
theorem sameClass_of_run_loadMembers {loader : ResourceLoader σ}
    {definition result : Definition} {record : ClassRecord} {memory last : σ}
    (run : (definition.loadMembers loader record).run memory = (.ok result, last)) :
    result.SameClass definition := by
  rcases LoadAction.run_bind_eq_ok_iff.mp run with ⟨withVars, _, varsRun, afterVars⟩
  obtain ⟨withGlobals, _, globalsRun, afterGlobals⟩ :=
    LoadAction.run_bind_eq_ok_iff.mp afterVars
  cases afterGlobals
  have varsKeep : withVars.SameClass definition :=
    sameClass_of_run_constants setVariable (fun _ _ _ => ⟨rfl, rfl, rfl⟩) varsRun
  have globalsKeep : withGlobals.SameClass withVars :=
    sameClass_of_run_constants setGlobal (fun _ _ _ => ⟨rfl, rfl, rfl⟩) globalsRun
  exact (sameClass_addProcs _ _).trans
    ((sameClass_initProc withGlobals record.initProc).trans (globalsKeep.trans varsKeep))

/-! ## When members can be declared -/

variable {loader : ResourceLoader σ} {answer : String → Except ResourceError Resource}
  {valid : σ → Prop}

private theorem run_constants (steady : loader.Steady answer valid)
    (put : Definition → String → Value → Definition) (table : Keyed Json.Value)
    (definition : Definition) {memory : σ} (validMemory : valid memory) :
    ∃ last, valid last ∧
      match (table.map Prod.snd).findSome? (Constant.failure? answer) with
      | none => ∃ result, (table.foldlM
          (fun definition entry => do
            return put definition entry.1 (← Constant.decode loader entry.2))
          definition : LoadAction σ Definition).run memory = (.ok result, last)
      | some error => (table.foldlM
          (fun definition entry => do
            return put definition entry.1 (← Constant.decode loader entry.2))
          definition : LoadAction σ Definition).run memory = (.error error, last) := by
  induction table generalizing definition memory with
  | nil => exact ⟨memory, validMemory, definition, rfl⟩
  | cons entry rest ih =>
      rcases steady.run_decode validMemory entry.2 with ⟨middle, validMiddle, decodeRun⟩
      simp only [List.map_cons, List.findSome?_cons, List.foldlM_cons, Constant.failure?]
      cases decoded : Constant.decoded answer entry.2 with
      | ok value =>
          rw [decoded] at decodeRun
          have turn : (do
              return put definition entry.1 (← Constant.decode loader entry.2) :
                LoadAction σ Definition).run memory =
              (.ok (put definition entry.1 value), middle) :=
            LoadAction.run_bind_of_ok decodeRun _
          rw [LoadAction.run_bind_of_ok turn]
          exact ih (put definition entry.1 value) validMiddle
      | error error =>
          rw [decoded] at decodeRun
          have turn : (do
              return put definition entry.1 (← Constant.decode loader entry.2) :
                LoadAction σ Definition).run memory = (.error error, middle) :=
            LoadAction.run_bind_of_error decodeRun _
          exact ⟨middle, validMiddle, LoadAction.run_bind_of_error turn _⟩

/-- With a steady loader the first constant that cannot be read decides how the
declaration of members fails, and without one it does not. -/
theorem run_loadMembers (steady : loader.Steady answer valid) (definition : Definition)
    (record : ClassRecord) {memory : σ} (validMemory : valid memory) :
    ∃ last, valid last ∧
      match record.constants.findSome? (Constant.failure? answer) with
      | none => ∃ result,
          (definition.loadMembers loader record).run memory = (.ok result, last)
      | some error =>
          (definition.loadMembers loader record).run memory = (.error error, last) := by
  obtain ⟨middle, validMiddle, varsRun⟩ :=
    run_constants steady setVariable (record.vars.getD []) definition validMemory
  rw [ClassRecord.constants, List.findSome?_append]
  cases varsFailure : ((record.vars.getD []).map Prod.snd).findSome?
      (Constant.failure? answer) with
  | some error =>
      rw [varsFailure] at varsRun
      exact ⟨middle, validMiddle, LoadAction.run_bind_of_error varsRun _⟩
  | none =>
      rw [varsFailure] at varsRun
      rcases varsRun with ⟨withVars, varsRun⟩
      obtain ⟨last, validLast, globalsRun⟩ :=
        run_constants steady setGlobal (record.globals.getD []) withVars validMiddle
      refine ⟨last, validLast, ?_⟩
      have loadedVars : (definition.loadVariables loader (record.vars.getD [])).run memory =
          (.ok withVars, middle) := varsRun
      rw [loadMembers, LoadAction.run_bind_of_ok loadedVars, Option.none_or]
      cases globalsFailure : ((record.globals.getD []).map Prod.snd).findSome?
          (Constant.failure? answer) with
      | some error =>
          rw [globalsFailure] at globalsRun
          exact LoadAction.run_bind_of_error globalsRun _
      | none =>
          rw [globalsFailure] at globalsRun
          rcases globalsRun with ⟨withGlobals, globalsRun⟩
          exact ⟨_, LoadAction.run_bind_of_ok globalsRun _⟩

end Definition

end DreamWorld
