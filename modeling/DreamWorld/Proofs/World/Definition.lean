import DreamWorld.Proofs.Keyed
import DreamWorld.World.Definition

/-!
# Implementations of procs

A definition has a chain of implementations for each name of a proc and one for its
initialisation.  Declaring a proc puts an implementation in front of the chain of its
name; no other member changes a chain.  A class without members has the chains of the
class that it inherits from.
-/

namespace DreamWorld.Definition

open Document (ProcRecord)

/-- All implementations of a proc, the one that runs first in front; none if the
definition does not have the proc. -/
def implementations (definition : Definition) (name : String) : List Overload :=
  (definition.proc? name).elim [] Proc.chain

/-- All implementations of the initialisation proc, the one that runs first in front. -/
def initialisations (definition : Definition) : List Overload :=
  definition.initProc?.elim [] Proc.chain

theorem implementations_eq_nil_iff {definition : Definition} {name : String} :
    definition.implementations name = [] ↔ definition.proc? name = none := by
  unfold implementations
  cases definition.proc? name <;> simp [Proc.chain]

theorem initialisations_eq_nil_iff {definition : Definition} :
    definition.initialisations = [] ↔ definition.initProc? = none := by
  unfold initialisations
  cases definition.initProc? <;> simp [Proc.chain]

/-! ## Classes without members -/

theorem implementations_below (id : ClassId) (type : Path) (parent : Option Definition)
    (name : String) :
    (below id type parent).implementations name =
      parent.elim [] fun upper => upper.implementations name := by
  cases parent <;> rfl

theorem initialisations_below (id : ClassId) (type : Path) (parent : Option Definition) :
    (below id type parent).initialisations = parent.elim [] initialisations := by
  cases parent <;> rfl

/-! ## One more proc -/

variable (definition : Definition) (name other procName : String) (record : ProcRecord)

theorem proc?_addProc :
    (definition.addProc name procName record).proc? other =
      if name = other then
        some (definition.newProc procName record (definition.proc? name))
      else definition.proc? other := by
  simp only [proc?, lineage, addProc, List.findSome?_cons, Keyed.find?_insert]
  by_cases same : name = other <;> simp [same]

theorem implementations_addProc :
    (definition.addProc name procName record).implementations other =
      if name = other then
        Overload.ofRecord ⟨definition.id, definition.own.procCount⟩ procName record ::
          definition.implementations name
      else definition.implementations other := by
  rw [implementations, proc?_addProc]
  by_cases same : name = other
  · rw [if_pos same, if_pos same]
    rfl
  · rw [if_neg same, if_neg same]
    rfl

@[simp]
theorem initialisations_addProc :
    (definition.addProc name procName record).initialisations = definition.initialisations :=
  rfl

@[simp]
theorem implementations_addInitProc :
    (definition.addInitProc record).implementations name = definition.implementations name :=
  rfl

theorem initialisations_addInitProc :
    (definition.addInitProc record).initialisations =
      Overload.ofRecord ⟨definition.id, definition.own.procCount⟩ initProcName record ::
        definition.initialisations :=
  rfl

end DreamWorld.Definition
