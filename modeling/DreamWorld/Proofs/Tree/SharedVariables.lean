import DreamWorld.Proofs.Tree.ClassNumbers
import DreamWorld.Proofs.Tree.LoaderMemory

/-!
# Shared variables over whole runs

In a loaded world a name stands for the shared variable of the nearest record of an
object's lineage that lists it, unless the object has a variable of this name itself.
Whatever is done in between, such a name reads as the value that was last assigned to
it through an object for which it stands for the same shared variable, or else as the
value that the record gives it.
-/

namespace DreamWorld.Tree

open Document (ClassRecord)
open Document.ClassRecord (graveyardDocument)

variable {σ : Type} {loader : ResourceLoader σ} {document : ClassRecord} {firstClass : ClassId}
  {tree : Tree} {store start : Store} {steps : List Step} {step : Step} {owner place : Nat}
  {name : String}

/-- The step assigns a value to the shared variable that the record at `owner` lists
under a name.  It does so through an object of an entry that is not deleted and has no
variable of the name, and in whose lineage no nearer record lists the name. -/
def Step.Assigns (document : ClassRecord) (tree : Tree) (owner : Nat) (name : String)
    (store : Store) (step : Step) (value : Value) : Prop :=
  ∃ frame ref object place lineage constant, step = .assign frame (.variable ref name) value ∧
    Location.Alive store ref object ∧ object.vars.has name = false ∧
    place < tree.size ∧ object.definition = (tree.entryAt place).definition ∧
    document.Lineage place lineage ∧
    ClassRecord.nearestShared? name lineage = some (owner, constant)

/-- The value that the last of some steps to do so has assigned to a shared variable, if
any of them has. -/
inductive LastAssigned (document : ClassRecord) (tree : Tree) (start : Store) (owner : Nat)
    (name : String) : List Step → Option Value → Prop
  | never : LastAssigned document tree start owner name [] none
  | assigned {steps : List Step} {step : Step} {value : Value} :
      step.Assigns document tree owner name (tree.afterAll start steps) value →
      LastAssigned document tree start owner name (steps ++ [step]) (some value)
  | kept {steps : List Step} {step : Step} {recent : Option Value} :
      LastAssigned document tree start owner name steps recent →
      (∀ value, ¬ step.Assigns document tree owner name (tree.afterAll start steps) value) →
      LastAssigned document tree start owner name (steps ++ [step]) recent

/-! ## Objects and the classes of the tree -/

/-- A definition is that of an entry, or goes through no class of the tree. -/
def InsideOrOutside (firstClass : ClassId) (tree : Tree) (definition : Definition) : Prop :=
  (∃ place, place < tree.size ∧ definition = (tree.entryAt place).definition) ∨
    ∀ body ∈ definition.lineage, ∀ place, place < tree.size → body.id ≠ firstClass + place

/-- The numbers of the classes of the tree are taken, and each object is of one of these
classes or has nothing to do with them. -/
structure Settled (firstClass : ClassId) (tree : Tree) (store : Store) : Prop where
  taken : firstClass + tree.size ≤ store.nextClass
  sides : ∀ definition ∈ store.definitions, InsideOrOutside firstClass tree definition

theorem Settled.after (settled : Settled firstClass tree store) (step : Step) :
    Settled firstClass tree (tree.after store step) := by
  have grows := tree.grows_after store step
  have bare : InsideOrOutside firstClass tree
      (Definition.below store.nextClass Path.listClass none) := by
    refine .inr fun body mem place inRange => ?_
    cases List.mem_singleton.mp mem
    exact Nat.ne_of_gt (Nat.lt_of_lt_of_le (Nat.add_lt_add_left inRange firstClass) settled.taken)
  exact ⟨Nat.le_trans settled.taken grows.nextClass_le,
    grows.forall_definitions (fun id inRange => .inl ⟨id, inRange, rfl⟩) (fun _ => bare)
      settled.sides⟩

theorem Settled.afterAll (settled : Settled firstClass tree store) (steps : List Step) :
    Settled firstClass tree (tree.afterAll store steps) := by
  induction steps generalizing store with
  | nil => exact settled
  | cons step rest ih => exact ih (settled.after step)

/-- Objects from before a load do not go through the classes that it adds. -/
theorem settled_loadRecord {world next : World} {memory last : σ} (closed : world.Closed)
    (loaded : world.loadRecord loader document memory = (.ok (), next, last)) :
    Settled world.store.nextClass next.tree next.store := by
  rw [World.store_loadRecord loaded]
  refine ⟨Nat.le_of_eq (Store.nextClass_addClasses _ _).symm, ?_⟩
  intro definition mem
  refine .inr fun body bodyMem place _ => Nat.ne_of_lt ?_
  exact Nat.lt_of_lt_of_le (closed.objects_lt definition mem body bodyMem) (Nat.le_add_right _ _)

section

variable (carries : Carries loader firstClass document tree (document.placedWithin 0))

include carries

/-- A step assigns to what a record lists exactly if it writes the shared variable of
the class of this record. -/
theorem Settled.assigns_iff (settled : Settled firstClass tree store) (inRange : owner < tree.size)
    {value : Value} :
    step.Assigns document tree owner name store value ↔
      ∃ global, step.Writes store global value ∧ global.cell = (firstClass + owner, name) := by
  constructor
  · rintro ⟨frame, ref, object, place, lineage, constant, rfl, alive, lacks, _, definitionEq,
      lineal, nearest⟩
    rcases carries.exists_global_of_nearestShared? lineal nearest with
      ⟨global, found, _, cellEq, _⟩
    rw [← definitionEq] at found
    exact ⟨global, ⟨frame, ref, object, name, rfl, alive, lacks, found⟩, cellEq⟩
  · rintro ⟨global, ⟨frame, ref, object, other, rfl, alive, lacks, found⟩, cellEq⟩
    obtain ⟨nameEq, body, bodyMem, ownerEq⟩ := Definition.exists_owner found
    have sameName : other = name := nameEq.symm.trans (congrArg Prod.snd cellEq)
    subst sameName
    have mem : object.definition ∈ store.definitions :=
      Array.mem_map_of_mem (Array.mem_of_getElem? alive.found)
    rcases settled.sides _ mem with ⟨place, placeLt, definitionEq⟩ | foreign
    · rcases carries.exists_lineage placeLt with ⟨lineage, lineal⟩
      rw [definitionEq] at found
      rcases carries.exists_nearestShared?_of_global lineal found with
        ⟨nearestOwner, constant, nearest, nearestEq⟩
      have sameOwner : nearestOwner = owner :=
        Nat.add_left_cancel (congrArg Prod.fst (nearestEq.symm.trans cellEq))
      subst sameOwner
      exact ⟨frame, ref, object, place, lineage, constant, rfl, alive, lacks, placeLt,
        definitionEq, lineal, nearest⟩
    · have known : body.id = firstClass + owner :=
        ownerEq.symm.trans (congrArg Prod.fst cellEq)
      exact absurd known (foreign body bodyMem owner inRange)

/-- An assignment to what a record lists is seen at once. -/
theorem Settled.lookup_after_of_assigns (settled : Settled firstClass tree store)
    (inRange : owner < tree.size) {value : Value}
    (assigns : step.Assigns document tree owner name store value) :
    (tree.after store step).globals.lookup (firstClass + owner, name) = some value := by
  rcases (settled.assigns_iff carries inRange).mp assigns with ⟨global, writes, cellEq⟩
  rcases tree.after_cases store step with ⟨_, _, otherWrites, written⟩ | ⟨unwritten, _⟩
  · rcases writes.unique otherWrites with ⟨rfl, rfl⟩
    rw [written, Store.lookup_writeGlobal, if_pos cellEq.symm]
  · exact absurd writes (unwritten global value)

/-- Any other step leaves what a record lists as it is. -/
theorem Settled.lookup_after_of_not_assigns (settled : Settled firstClass tree store)
    (inRange : owner < tree.size)
    (idle : ∀ value, ¬ step.Assigns document tree owner name store value) :
    (tree.after store step).globals.lookup (firstClass + owner, name) =
      store.globals.lookup (firstClass + owner, name) := by
  rcases tree.after_cases store step with ⟨global, value, writes, written⟩ | ⟨_, _, same⟩
  · have different : (firstClass + owner, name) ≠ global.cell := fun cellEq =>
      idle value ((settled.assigns_iff carries inRange).mpr ⟨global, writes, cellEq.symm⟩)
    rw [written, Store.lookup_writeGlobal, if_neg different]
  · rw [same]

/-- What is kept of a shared variable is the value last assigned to it. -/
theorem LastAssigned.lookup_eq (settled : Settled firstClass tree start)
    (inRange : owner < tree.size)
    (unwritten : start.globals.lookup (firstClass + owner, name) = none) {recent : Option Value}
    (last : LastAssigned document tree start owner name steps recent) :
    (tree.afterAll start steps).globals.lookup (firstClass + owner, name) = recent := by
  induction last with
  | never => exact unwritten
  | assigned assigns =>
      rw [afterAll_append_singleton]
      exact (settled.afterAll _).lookup_after_of_assigns carries inRange assigns
  | kept _ idle ih =>
      rw [afterAll_append_singleton,
        (settled.afterAll _).lookup_after_of_not_assigns carries inRange idle]
      exact ih

end

theorem exists_lastAssigned (document : ClassRecord) (tree : Tree) (start : Store) (owner : Nat)
    (name : String) (steps : List Step) :
    ∃ recent, LastAssigned document tree start owner name steps recent := by
  induction steps using List.reverseRecOn with
  | nil => exact ⟨none, .never⟩
  | append_singleton steps step ih =>
      by_cases assigns : ∃ value,
          step.Assigns document tree owner name (tree.afterAll start steps) value
      · rcases assigns with ⟨value, assigns⟩
        exact ⟨some value, .assigned assigns⟩
      · rcases ih with ⟨recent, last⟩
        exact ⟨recent, .kept last (not_exists.mp assigns)⟩

/-- A load leaves the shared variables of the new classes unwritten. -/
theorem lookup_loadRecord_eq_none {world next : World} {memory last : σ} (closed : world.Closed)
    (loaded : world.loadRecord loader document memory = (.ok (), next, last)) (owner : Nat)
    (name : String) :
    next.store.globals.lookup (world.store.nextClass + owner, name) = none := by
  rw [World.store_loadRecord loaded, List.lookup_eq_none_iff]
  intro entry mem
  have older := closed.written_lt entry.1 (List.mem_map_of_mem mem)
  rw [bne_iff_ne]
  intro same
  rw [← same] at older
  exact Nat.not_lt_of_le (Nat.le_add_right _ owner) older

/-! ## Reading and assigning -/

/-- A name of an object stands for a shared variable that has a value.  The name reads
as this value, and an assignment to it changes what is read under the cell, but nothing
else. -/
structure StandsFor (store : Store) (ref : ObjectRef) (name : String) (cell : ClassId × String)
    (value : Value) : Prop where
  read_eq : ∀ frame,
    (Location.read frame (.variable ref name)).runOn store = (.ok value, store)
  assign_eq : ∀ frame new, ∃ next,
    (Location.assign frame new (.variable ref name)).runOn store = (.ok frame, next) ∧
    next.hooks = store.hooks ∧ next.objects = store.objects ∧ next.events = store.events ∧
    ∀ global, next.readGlobal global = if global.cell = cell then new else store.readGlobal global

/-- A name of an object is a matter of the object alone: what reading it or assigning to
it does is the same with any other shared variables, and leaves these alone. -/
structure StandsAlone (store : Store) (ref : ObjectRef) (name : String) : Prop where
  read_blind : ∀ frame globals,
    (Location.read frame (.variable ref name)).runOn { store with globals } =
      (((Location.read frame (.variable ref name)).runOn store).1,
        { ((Location.read frame (.variable ref name)).runOn store).2 with globals })
  assign_blind : ∀ frame value globals,
    (Location.assign frame value (.variable ref name)).runOn { store with globals } =
      (((Location.assign frame value (.variable ref name)).runOn store).1,
        { ((Location.assign frame value (.variable ref name)).runOn store).2 with globals })

variable {ref : ObjectRef} {object : Object}

theorem standsFor_of_globalVariable? (alive : Location.Alive store ref object)
    (lacks : object.vars.has name = false) {global : GlobalVariable}
    (found : object.definition.globalVariable? name = some global) :
    StandsFor store ref name global.cell (store.readGlobal global) where
  read_eq frame := by
    rw [alive.runOn_read_of_lacks frame lacks, found]
    rfl
  assign_eq frame new := by
    rw [alive.runOn_assign_of_lacks frame lacks, found]
    exact ⟨_, rfl, rfl, rfl, rfl, fun other => store.readGlobal_writeGlobal global other new⟩

theorem standsAlone_of_has (alive : Location.Alive store ref object)
    (has : object.vars.has name = true) : StandsAlone store ref name where
  read_blind frame globals := by
    have elsewhere : Location.Alive { store with globals } ref object := ⟨alive.found, alive.live⟩
    rw [alive.runOn_read_of_has frame has, elsewhere.runOn_read_of_has frame has]
    exact (Action.private_getVariable ref name).blind store globals
  assign_blind frame value globals := by
    have elsewhere : Location.Alive { store with globals } ref object := ⟨alive.found, alive.live⟩
    rw [alive.runOn_assign_of_has frame has, elsewhere.runOn_assign_of_has frame has]
    exact (Location.private_setVariable_return frame ref name value).blind store globals

/-- After any steps in a loaded world, take an object of one of its classes that is not
deleted, and a name.  If the object has no variable of the name, the name stands for the
shared variable of the nearest record of its lineage that lists it.  The value of this
is the one last assigned to what this record lists, or else what its constant was read
as.  If no record of the lineage lists the name, and only then, it is undefined.  If the
object has a variable of the name, shared variables do not matter.  The world is one to
load documents into again. -/
theorem standsFor_afterAll {world next : World} {memory last : σ} (closed : world.Closed)
    (loaded : world.loadRecord loader document memory = (.ok (), next, last))
    (steps : List Step) {store : Store} (reached : store = next.tree.afterAll next.store steps) :
    World.Closed { tree := next.tree, store } ∧
    ∀ ref object place, Location.Alive store ref object → place < next.tree.size →
      object.definition = (next.tree.entryAt place).definition →
      ∃ lineage, document.Lineage place lineage ∧
        (∀ other, document.Lineage place other → other = lineage) ∧
        ∀ name,
          (object.vars.has name = true → StandsAlone store ref name) ∧
          (object.vars.has name = false →
            (∀ owner constant,
              ClassRecord.nearestShared? name lineage = some (owner, constant) →
              ∃ initial recent,
                Keyed.find? (next.tree.entryAt owner).definition.own.globals name = some initial ∧
                Constant.Reads (loader.startedAt memory) constant initial ∧
                LastAssigned document next.tree next.store owner name steps recent ∧
                (∀ other, LastAssigned document next.tree next.store owner name steps other →
                  other = recent) ∧
                StandsFor store ref name (world.store.nextClass + owner, name)
                  (recent.getD initial)) ∧
            (∀ frame, (Location.read frame (.variable ref name)).runOn store =
                (.error (.undefinedVariable name), store) ↔
              ∀ member ∈ lineage, member.2.sharedConstant? name = none) ∧
            ∀ frame value, (Location.assign frame value (.variable ref name)).runOn store =
                (.error (.undefinedVariable name), store) ↔
              ∀ member ∈ lineage, member.2.sharedConstant? name = none) := by
  subst reached
  have carries := carries_startedAt loaded
  have settled := settled_loadRecord closed loaded
  refine ⟨(closed.loadRecord loaded).afterAll steps, ?_⟩
  intro ref object place alive inRange definitionEq
  rcases carries.exists_lineage inRange with ⟨lineage, lineal⟩
  refine ⟨lineage, lineal, fun other otherLineal => carries.lineage_unique otherLineal lineal, ?_⟩
  intro name
  have undeclared := carries.globalVariable?_eq_none_iff lineal name
  rw [← definitionEq] at undeclared
  refine ⟨standsAlone_of_has alive, fun lacks => ⟨?_, ?_, ?_⟩⟩
  · intro owner constant nearest
    obtain ⟨global, found, ownerLt, cellEq, initialFound, reads⟩ :=
      carries.exists_global_of_nearestShared? lineal nearest
    have unwritten := lookup_loadRecord_eq_none closed loaded owner name
    rcases exists_lastAssigned document next.tree next.store owner name steps with
      ⟨recent, assigned⟩
    have lookupEq := assigned.lookup_eq carries settled ownerLt unwritten
    refine ⟨global.initial, recent, initialFound, reads, assigned, ?_, ?_⟩
    · intro other otherAssigned
      rw [← lookupEq, otherAssigned.lookup_eq carries settled ownerLt unwritten]
    · rw [← definitionEq] at found
      have stands := standsFor_of_globalVariable? alive lacks found
      rw [Store.readGlobal, cellEq, lookupEq] at stands
      exact stands
  · intro frame
    rw [alive.runOn_read_of_lacks frame lacks, ← undeclared]
    cases object.definition.globalVariable? name <;> simp
  · intro frame value
    rw [alive.runOn_assign_of_lacks frame lacks, ← undeclared]
    cases object.definition.globalVariable? name <;> simp

/-- A frame of a proc that does nothing. -/
def idleFrame : Frame :=
  .start ⟨⟨⟨0, 0⟩, "idle", [], [], []⟩, []⟩ none 0

/-- An object of the named parent assigns to a shared variable, after another one of the
class that inherits from it has been made. -/
def scoringSteps : List Step :=
  [.create (Path.parse "/fighter") {}, .create (Path.parse "/grave/spirit") {}] ++
    [.assign idleFrame (.variable ⟨0, Path.parse "/fighter"⟩ "score") (.integer 9)]

/-- The object of the inheriting class reads what was assigned through the other one, and
not what the class around it declares. -/
theorem standsFor_afterAll_graveyardDocument :
    World.start.Closed ∧
      (World.start.loadRecord (fileLoader "res") graveyardDocument {}).1 = .ok () ∧
      StandsFor ((World.start.loadRecord (fileLoader "res") graveyardDocument {}).2.1.tree.afterAll
          (World.start.loadRecord (fileLoader "res") graveyardDocument {}).2.1.store scoringSteps)
        ⟨1, Path.parse "/grave/spirit"⟩ "score" (2, "score") (.integer 9) := by
  have loaded : World.start.loadRecord (fileLoader "res") graveyardDocument {} =
      (.ok (), (World.start.loadRecord (fileLoader "res") graveyardDocument {}).2) := rfl
  refine ⟨World.closed_start, rfl, ?_⟩
  rcases standsFor_afterAll World.closed_start loaded scoringSteps rfl with ⟨_, objects⟩
  obtain ⟨lineage, _, unique, names⟩ :=
    objects ⟨1, Path.parse "/grave/spirit"⟩ _ 3 ⟨rfl, rfl⟩ (by decide) rfl
  cases unique _ ClassRecord.lineage_spiritRecord
  obtain ⟨initial, recent, _, _, _, only, stands⟩ :=
    ((names "score").2 rfl).1 1 (.number "7") rfl
  have recentEq := only (some (.integer 9)) (.assigned ⟨idleFrame, ⟨0, Path.parse "/fighter"⟩, _, 1,
    _, .number "7", rfl, ⟨rfl, rfl⟩, rfl, by decide, rfl, ClassRecord.lineage_fighterRecord, rfl⟩)
  rw [← recentEq] at stands
  exact stands

end DreamWorld.Tree
