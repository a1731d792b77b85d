import DreamWorld.Proofs.World.Creation
import DreamWorld.World.Definition

/-!
# Variables that objects are born with

The table of all defaults of a class is built from its farthest ancestor to the class
itself, each writing over what is there, while the default of one variable is looked up
from the class itself upwards.  Both give the same values, and so do the variables of a
new object, which has a length besides if it is a list.
-/

namespace DreamWorld

namespace Definition

variable {definition : Definition} {name : String}

/-- The variables that each class of a definition declares stand in order. -/
def OrderedVars (definition : Definition) : Prop :=
  ∀ body ∈ definition.lineage, body.vars.Ordered

/-- Writing down from the farthest class is looking up from the nearest one. -/
theorem find?_foldr_overlay {bodies : List ClassBody}
    (ordered : ∀ body ∈ bodies, body.vars.Ordered) (name : String) :
    Keyed.find? (bodies.foldr (fun body defaults => Keyed.overlay defaults body.vars) []) name =
      bodies.findSome? fun body => body.vars.find? name := by
  induction bodies with
  | nil => rfl
  | cons body rest ih =>
      rcases List.forall_mem_cons.mp ordered with ⟨bodyOrdered, restOrdered⟩
      rw [List.foldr_cons, Keyed.find?_overlay bodyOrdered.nodup, ih restOrdered,
        List.findSome?_cons]
      cases body.vars.find? name <;> rfl

/-- The table of all defaults and the look-up of one default agree. -/
theorem find?_variableDefaults (ordered : definition.OrderedVars) (name : String) :
    definition.variableDefaults.find? name = definition.variableDefault? name :=
  find?_foldr_overlay ordered name

theorem ordered_variableDefaults (definition : Definition) :
    definition.variableDefaults.Ordered := by
  unfold variableDefaults
  induction definition.lineage with
  | nil => exact Keyed.ordered_nil
  | cons body rest ih => exact ih.overlay body.vars

/-- The table of all defaults has exactly the variables that have a default. -/
theorem mem_variableDefaults_iff (ordered : definition.OrderedVars) {value : Value} :
    (name, value) ∈ definition.variableDefaults ↔
      definition.variableDefault? name = some value := by
  rw [← Keyed.find?_eq_some_iff definition.ordered_variableDefaults.nodup,
    find?_variableDefaults ordered]

/-- The value that an object of the class has for a variable at first: the default, and zero
for the length of a list whose class declares none. -/
def initialValue? (definition : Definition) (name : String) : Option Value :=
  (definition.variableDefault? name).or
    (if definition.isSubtypeOf Path.listClass = true ∧ name = lengthName then some (.integer 0)
      else none)

/-- Only the length can have a value that is not a default. -/
theorem initialValue?_of_ne (different : name ≠ lengthName) :
    definition.initialValue? name = definition.variableDefault? name := by
  rw [initialValue?, if_neg fun both => different both.2, Option.or_none]

end Definition

namespace Object

variable {definition : Definition} {store made : Store} {object : Object}

theorem ordered_vars_newborn (definition : Definition) : (newborn definition).vars.Ordered := by
  have ordered := definition.ordered_variableDefaults
  unfold newborn fresh
  dsimp only
  split
  · exact ordered.insert lengthName (.integer 0)
  · exact ordered

/-- A new object has the defaults, and the length only where there is no default for it. -/
theorem find?_vars_fresh (definition : Definition) (list : Option ListStore) (name : String) :
    (fresh definition list).vars.find? name = (definition.variableDefaults.find? name).or
      (if list.isSome = true ∧ name = lengthName then some (.integer 0) else none) := by
  unfold fresh
  dsimp only
  cases listed : list.isSome with
  | false => simp
  | true =>
      cases declared : definition.variableDefaults.has lengthName with
      | true =>
          by_cases same : name = lengthName
          · rcases Option.isSome_iff_exists.mp declared with ⟨value, found⟩
            simp [same, found]
          · simp [same]
      | false =>
          have undeclared : definition.variableDefaults.find? lengthName = none := by
            rwa [Keyed.has_eq_false_iff] at declared
          simp only [Bool.not_false, Bool.and_self, if_true, Keyed.find?_insert]
          by_cases same : lengthName = name
          · simp [← same, undeclared]
          · simp [same, Ne.symm same]

theorem find?_vars_newborn (ordered : definition.OrderedVars) (name : String) :
    (newborn definition).vars.find? name = definition.initialValue? name := by
  have isList : (listStorage definition).isSome = definition.isSubtypeOf Path.listClass :=
    isSome_list_newborn definition
  rw [newborn, find?_vars_fresh, Definition.find?_variableDefaults ordered, isList]
  rfl

/-- What can be learned of the variables of a new object: it has exactly those that have a
value at first, their names are listed in order, and each but the length is read as its
default. -/
structure Seeded (definition : Definition) (store : Store) (ref : ObjectRef) : Prop where
  runOn_hasVariable : ∀ name, (hasVariable ref name).runOn store =
    (.ok (definition.initialValue? name).isSome, store)
  runOn_variableNames : ∃ names, (variableNames ref).runOn store = (.ok names, store) ∧
    names.Pairwise (· < ·) ∧
    ∀ name, name ∈ names ↔ (definition.initialValue? name).isSome = true
  runOn_getVariable : ∀ name, name ≠ lengthName → (getVariable ref name).runOn store =
    ((definition.variableDefault? name).elim (.error (.undefinedVariable name)) .ok, store)

theorem Born.find?_vars (born : Born definition store made object)
    (ordered : definition.OrderedVars) (name : String) :
    object.vars.find? name = definition.initialValue? name := by
  rw [born.vars_eq, find?_vars_newborn ordered]

theorem Born.seeded (born : Born definition store made object)
    (ordered : definition.OrderedVars) (atMost : store.AtMostLists definition.id) :
    Seeded definition made ⟨store.objects.size, definition.type⟩ where
  runOn_hasVariable name := by
    rw [Object.runOn_hasVariable born.alive.found, Keyed.has, born.find?_vars ordered]
  runOn_variableNames := by
    refine ⟨_, Object.runOn_variableNames born.alive.found,
      born.vars_eq ▸ ordered_vars_newborn definition, ?_⟩
    intro name
    rw [Keyed.mem_names_iff, Keyed.has, born.find?_vars ordered]
  runOn_getVariable name different := by
    rw [Object.runOn_getVariable_of_ne born.alive.found (born.atMostLists atMost) different,
      born.find?_vars ordered, Definition.initialValue?_of_ne different]

end Object

end DreamWorld
