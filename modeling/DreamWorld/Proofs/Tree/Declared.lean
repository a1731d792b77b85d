import DreamWorld.Proofs.Tree.Members
import DreamWorld.Proofs.World.Definition
import Mathlib.Data.List.Forall2

/-!
# What a record declares

Once the members of a record are declared, the variables and the shared variables of
the class have the values that the loader read for them, and each proc of the record
stands in front of what its name stood for before.  Of several values under one name
the last one counts; of several procs the last one comes first.
-/

namespace DreamWorld

open Document (ArgumentRecord ClassRecord ProcRecord)

variable {σ : Type} {loader : ResourceLoader σ}

/-- A loader may give a constant a value: it does so from some memory on. -/
def Constant.Reads (loader : ResourceLoader σ) (constant : Json.Value) (value : Value) : Prop :=
  ∃ memory last, (Constant.decode loader constant).run memory = (.ok value, last)

/-- Two tables list the same names in the same order, and the constants of one read as
the values of the other. -/
def Constant.ReadsTable (loader : ResourceLoader σ) :
    Keyed Json.Value → Keyed Value → Prop :=
  List.Forall₂ fun constant value =>
    constant.1 = value.1 ∧ Constant.Reads loader constant.2 value.2

namespace Document.ClassRecord

/-- The implementations that a record lists under the name of a proc, the last one
first. -/
def overloads (record : ClassRecord) (name : String) : List ProcRecord :=
  ((record.procs.getD []).flatMap fun entry => if entry.1 = name then entry.2 else []).reverse

/-- The initialisation proc of a record, as a list of at most one. -/
def initialisers (record : ClassRecord) : List ProcRecord :=
  record.initProc.toList

end Document.ClassRecord

/-- The kinds of value that an argument accepts are those whose bits its record sets. -/
def ValueKinds.AreOf (kinds : ValueKinds) (argument : ArgumentRecord) : Prop :=
  ∀ position < 13, kinds.bits.getLsbD position = argument.kinds.toNat.testBit position

theorem ValueKinds.areOf_iff {kinds : ValueKinds} {argument : ArgumentRecord} :
    kinds.AreOf argument ↔ kinds = .ofBits argument.kinds := by
  rcases kinds with ⟨bits⟩
  have bit (position : Nat) (known : position < 13) :
      (ofBits argument.kinds).bits.getLsbD position = argument.kinds.toNat.testBit position := by
    rw [ofBits, BitVec.getLsbD_setWidth, decide_eq_true known, Bool.true_and]
    rfl
  constructor
  · intro areOf
    congr 1
    apply BitVec.eq_of_getLsbD_eq
    intro position known
    exact (areOf position known).trans (bit position known).symm
  · rintro same position known
    rw [same]
    exact bit position known

/-- An implementation is that of a proc record, declared under a name by a class.  It has the
code of the record, and in order the names and the kinds of its arguments; what the record
leaves out is empty. -/
structure Overload.IsOf (owner : ClassId) (name : String) (overload : Overload)
    (record : ProcRecord) : Prop where
  owner_eq : overload.id.owner = owner
  name_eq : overload.name = name
  bytecode_eq : overload.bytecode = record.bytecode.getD []
  argumentNames_eq : overload.argumentNames = (record.arguments.getD []).map ArgumentRecord.name
  kinds_areOf :
    List.Forall₂ ValueKinds.AreOf overload.argumentKinds (record.arguments.getD [])

namespace Overload

variable {owner : ClassId} {name : String} {overload : Overload} {record : ProcRecord}

theorem kinds_eq_iff {kinds : List ValueKinds} {arguments : List ArgumentRecord} :
    List.Forall₂ ValueKinds.AreOf kinds arguments ↔
      kinds = arguments.map fun argument => .ofBits argument.kinds := by
  have areOf_eq : ValueKinds.AreOf = fun kinds argument => kinds = .ofBits argument.kinds := by
    funext kinds argument
    exact propext ValueKinds.areOf_iff
  rw [areOf_eq, ← List.forall₂_map_right_iff, List.forall₂_eq_eq_eq]

theorem isOf_ofRecord (owner : ClassId) (turn : Nat) (name : String) (record : ProcRecord) :
    (ofRecord ⟨owner, turn⟩ name record).IsOf owner name record where
  owner_eq := rfl
  name_eq := rfl
  bytecode_eq := rfl
  argumentNames_eq := rfl
  kinds_areOf := kinds_eq_iff.mpr rfl

/-- Only its turn among the implementations of its class is left open. -/
theorem IsOf.eq_ofRecord (isOf : overload.IsOf owner name record) :
    overload = ofRecord ⟨owner, overload.id.turn⟩ name record := by
  rcases overload with ⟨⟨_, turn⟩, _, bytecode, argumentNames, argumentKinds⟩
  rcases isOf with ⟨rfl, rfl, rfl, rfl, kinds⟩
  cases kinds_eq_iff.mp kinds
  rfl

end Overload

namespace Definition

variable {definition result : Definition} {record : ClassRecord} {memory last : σ}

/-! ## Values -/

/-- Writes values over the variables of the class and over its shared variables. -/
def withValues (definition : Definition) (vars globals : Keyed Value) : Definition :=
  { definition with
    own :=
      { definition.own with
        vars := Keyed.overlay definition.own.vars vars
        globals := Keyed.overlay definition.own.globals globals } }

private theorem run_constants_eq_ok {put : Definition → String → Value → Definition}
    {table : Keyed Json.Value}
    (run : (table.foldlM
      (fun definition entry => do
        return put definition entry.1 (← Constant.decode loader entry.2))
      definition : LoadAction σ Definition).run memory = (.ok result, last)) :
    ∃ values, Constant.ReadsTable loader table values ∧
      result = values.foldl (fun state entry => put state entry.1 entry.2) definition := by
  apply LoadAction.holds_of_run_foldlM_eq_ok
    (fun done state _ => ∃ values, Constant.ReadsTable loader done values ∧
      state = values.foldl (fun state entry => put state entry.1 entry.2) definition)
    run ⟨[], .nil, rfl⟩
  rintro done entry rest state middle next last _ ⟨values, reads, rfl⟩ turn
  rcases LoadAction.run_bind_eq_ok_iff.mp turn with ⟨value, _, decoded, declared⟩
  cases declared
  refine ⟨values ++ [(entry.1, value)], ?_, by rw [List.foldl_append]; rfl⟩
  exact List.rel_append reads (.cons ⟨rfl, middle, _, decoded⟩ .nil)

theorem foldl_setVariable (values : Keyed Value) (definition : Definition) :
    values.foldl (fun state entry => state.setVariable entry.1 entry.2) definition =
      definition.withValues values [] := by
  induction values generalizing definition with
  | nil => rfl
  | cons entry rest ih => exact ih (definition.setVariable entry.1 entry.2)

theorem foldl_setGlobal (values : Keyed Value) (definition : Definition) :
    values.foldl (fun state entry => state.setGlobal entry.1 entry.2) definition =
      definition.withValues [] values := by
  induction values generalizing definition with
  | nil => rfl
  | cons entry rest ih => exact ih (definition.setGlobal entry.1 entry.2)

/-- What the declaration of members comes to. -/
theorem run_loadMembers_eq_ok
    (run : (definition.loadMembers loader record).run memory = (.ok result, last)) :
    ∃ vars globals, Constant.ReadsTable loader (record.vars.getD []) vars ∧
      Constant.ReadsTable loader (record.globals.getD []) globals ∧
      result = (record.initProc.elim (definition.withValues vars globals)
        (definition.withValues vars globals).addInitProc).addProcs (record.procs.getD []) := by
  rcases LoadAction.run_bind_eq_ok_iff.mp run with ⟨withVars, _, varsRun, afterVars⟩
  obtain ⟨withGlobals, _, globalsRun, afterGlobals⟩ :=
    LoadAction.run_bind_eq_ok_iff.mp afterVars
  cases afterGlobals
  rcases run_constants_eq_ok varsRun with ⟨vars, varsRead, varsEq⟩
  rcases run_constants_eq_ok globalsRun with ⟨globals, globalsRead, globalsEq⟩
  rw [foldl_setVariable] at varsEq
  rw [foldl_setGlobal, varsEq] at globalsEq
  subst globalsEq
  exact ⟨vars, globals, varsRead, globalsRead, rfl⟩

/-! ## Procs -/

/-- The implementations under one name are put in front, one after another. -/
theorem implementations_foldl_addProc (records : List ProcRecord) (definition : Definition)
    (name other : String) :
    ∃ own, List.Forall₂ (Overload.IsOf definition.id name) own
        (if name = other then records.reverse else []) ∧
      (records.foldl (fun state record => state.addProc name name record)
        definition).implementations other = own ++ definition.implementations other := by
  induction records generalizing definition with
  | nil => exact ⟨[], by simp, rfl⟩
  | cons record rest ih =>
      rcases ih (definition.addProc name name record) with ⟨own, isOf, chainEq⟩
      rw [List.foldl_cons, chainEq, implementations_addProc]
      by_cases same : name = other
      · subst same
        rw [if_pos rfl] at isOf ⊢
        rw [if_pos rfl]
        refine ⟨own ++ [_], ?_, (List.append_assoc _ [_] _).symm⟩
        rw [List.reverse_cons]
        exact List.rel_append isOf (.cons (Overload.isOf_ofRecord _ _ _ _) .nil)
      · rw [if_neg same] at isOf ⊢
        rw [if_neg same]
        exact ⟨own, isOf, rfl⟩

theorem implementations_addProcs (procs : Keyed (List ProcRecord)) (definition : Definition)
    (name : String) :
    ∃ own, List.Forall₂ (Overload.IsOf definition.id name) own
        (procs.flatMap fun entry => if entry.1 = name then entry.2 else []).reverse ∧
      (definition.addProcs procs).implementations name =
        own ++ definition.implementations name := by
  induction procs generalizing definition with
  | nil => exact ⟨[], .nil, rfl⟩
  | cons entry rest ih =>
      obtain ⟨front, frontIsOf, frontEq⟩ :=
        implementations_foldl_addProc entry.2 definition entry.1 name
      have sameClass := sameClass_addProcs definition [entry]
      rcases ih (definition.addProcs [entry]) with ⟨own, isOf, chainEq⟩
      refine ⟨own ++ front, ?_, ?_⟩
      · rw [List.flatMap_cons, List.reverse_append]
        apply List.rel_append
        · rwa [sameClass.1] at isOf
        · by_cases same : entry.1 = name
          · rw [if_pos same] at frontIsOf ⊢
            rwa [same] at frontIsOf
          · rw [if_neg same] at frontIsOf ⊢
            cases frontIsOf
            exact .nil
      · rw [List.append_assoc, ← frontEq]
        exact chainEq

/-- What no proc changes, a table of procs does not change either. -/
theorem apply_addProcs {α : Type} (part : Definition → α)
    (keeps : ∀ definition name procName record,
      part (addProc definition name procName record) = part definition)
    (procs : Keyed (List ProcRecord)) (definition : Definition) :
    part (definition.addProcs procs) = part definition := by
  have foldl_eq (entry : String × List ProcRecord) (state : Definition) :
      part (entry.2.foldl (fun state record => state.addProc entry.1 entry.1 record) state) =
        part state := by
    induction entry.2 generalizing state with
    | nil => rfl
    | cons record rest ih => exact (ih _).trans (keeps state entry.1 entry.1 record)
  induction procs generalizing definition with
  | nil => rfl
  | cons entry rest ih => exact (ih _).trans (foldl_eq entry definition)

/-- The members of a record put its own implementations of a proc in front. -/
theorem implementations_loadMembers
    (run : (definition.loadMembers loader record).run memory = (.ok result, last))
    (name : String) :
    ∃ own, List.Forall₂ (Overload.IsOf definition.id name) own (record.overloads name) ∧
      result.implementations name = own ++ definition.implementations name := by
  rcases run_loadMembers_eq_ok run with ⟨vars, globals, _, _, rfl⟩
  cases record.initProc with
  | none => exact implementations_addProcs _ (definition.withValues vars globals) name
  | some proc =>
      exact implementations_addProcs _ ((definition.withValues vars globals).addInitProc proc) name

/-- The members of a record put its own initialisation proc in front. -/
theorem initialisations_loadMembers
    (run : (definition.loadMembers loader record).run memory = (.ok result, last)) :
    ∃ own, List.Forall₂ (Overload.IsOf definition.id initProcName) own record.initialisers ∧
      result.initialisations = own ++ definition.initialisations := by
  rcases run_loadMembers_eq_ok run with ⟨vars, globals, _, _, rfl⟩
  rw [apply_addProcs initialisations fun _ _ _ _ => rfl, ClassRecord.initialisers]
  cases record.initProc with
  | none => exact ⟨[], .nil, rfl⟩
  | some proc => exact ⟨[_], .cons (Overload.isOf_ofRecord _ _ _ _) .nil, rfl⟩

/-- The members of a record write the values that were read for its constants over the
variables and over the shared variables. -/
theorem values_loadMembers
    (run : (definition.loadMembers loader record).run memory = (.ok result, last)) :
    ∃ vars globals, Constant.ReadsTable loader (record.vars.getD []) vars ∧
      Constant.ReadsTable loader (record.globals.getD []) globals ∧
      result.own.vars = Keyed.overlay definition.own.vars vars ∧
      result.own.globals = Keyed.overlay definition.own.globals globals := by
  rcases run_loadMembers_eq_ok run with ⟨vars, globals, varsRead, globalsRead, rfl⟩
  refine ⟨vars, globals, varsRead, globalsRead, ?_, ?_⟩
  · apply (apply_addProcs (fun state => state.own.vars) (fun _ _ _ _ => rfl) _ _).trans
    cases record.initProc <;> rfl
  · apply (apply_addProcs (fun state => state.own.globals) (fun _ _ _ _ => rfl) _ _).trans
    cases record.initProc <;> rfl

/-- The variables of a class without any have the values that were read for the constants of
the record. -/
theorem vars_loadMembers
    (run : (definition.loadMembers loader record).run memory = (.ok result, last))
    (bare : definition.own.vars = []) :
    ∃ values, Constant.ReadsTable loader (record.vars.getD []) values ∧
      result.own.vars = Keyed.ofPairs values := by
  obtain ⟨vars, _, reads, _, varsEq, _⟩ := values_loadMembers run
  exact ⟨vars, reads, varsEq.trans (congrArg (Keyed.overlay · vars) bare)⟩

/-- The shared variables of a class without any have the values that were read for the
constants of the record. -/
theorem globals_loadMembers
    (run : (definition.loadMembers loader record).run memory = (.ok result, last))
    (bare : definition.own.globals = []) :
    ∃ values, Constant.ReadsTable loader (record.globals.getD []) values ∧
      result.own.globals = Keyed.ofPairs values := by
  obtain ⟨_, globals, _, reads, _, globalsEq⟩ := values_loadMembers run
  exact ⟨globals, reads, globalsEq.trans (congrArg (Keyed.overlay · globals) bare)⟩

end Definition

end DreamWorld
