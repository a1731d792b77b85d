import DreamWorld.Proofs.Tree.ListClasses
import DreamWorld.Proofs.Tree.LoaderMemory
import DreamWorld.Proofs.World.Defaults

/-!
# Variables of loaded classes

The default of a variable of a loaded class is what the constant of the nearest record of its
lineage that lists the variable was read as.  The table of all defaults and the objects
created from the class agree with this.
-/

namespace DreamWorld

open Document (ClassRecord)

namespace Document.ClassRecord

/-- The constant that a record gives to a variable; of several the last counts. -/
def variableConstant? (record : ClassRecord) (name : String) : Option Json.Value :=
  Keyed.find? (Keyed.ofPairs (record.vars.getD [])) name

/-- The constant that the nearest record of a lineage which lists a variable gives to it. -/
def nearestVariable? (name : String) (lineage : List (Nat × ClassRecord)) : Option Json.Value :=
  lineage.findSome? fun member => member.2.variableConstant? name

end Document.ClassRecord

namespace Tree

variable {σ : Type} {loader : ResourceLoader σ} {firstClass : ClassId} {tree : Tree}
  {document record : ClassRecord} {place : Nat} {lineage : List (Nat × ClassRecord)}

namespace Carries

variable (carries : Carries loader firstClass document tree (document.placedWithin 0))

include carries

/-- The variables that a class declares itself are those that its record lists. -/
theorem exists_values_entryAt (listed : document.preorder[place]? = some record) :
    ∃ values, Constant.ReadsTable loader (record.vars.getD []) values ∧
      (tree.entryAt place).definition.own.vars = Keyed.ofPairs values := by
  rcases carries.exists_builtFrom listed with ⟨_, _, _, run⟩
  exact Definition.vars_loadMembers run rfl

theorem orderedVars_entryAt (lineal : document.Lineage place lineage) :
    (tree.entryAt place).definition.OrderedVars := by
  unfold Definition.OrderedVars
  rw [carries.lineage_entryAt lineal]
  intro body mem
  rcases List.mem_map.mp mem with ⟨member, memberMem, rfl⟩
  rcases carries.exists_values_entryAt (lineal.getElem?_preorder member memberMem) with
    ⟨values, _, varsEq⟩
  rw [varsEq]
  exact Keyed.ordered_ofPairs values

/-- The default of a variable is what the constant of the nearest record was read as. -/
theorem rel_nearestVariable? (lineal : document.Lineage place lineage) (name : String) :
    Option.Rel (Constant.Reads loader) (ClassRecord.nearestVariable? name lineage)
      ((tree.entryAt place).definition.variableDefault? name) := by
  unfold Definition.variableDefault? ClassRecord.nearestVariable?
  rw [carries.lineage_entryAt lineal, List.findSome?_map]
  apply rel_findSome?
  intro member mem
  rcases carries.exists_values_entryAt (lineal.getElem?_preorder member mem) with
    ⟨values, reads, varsEq⟩
  dsimp only [Function.comp]
  rw [varsEq]
  exact reads.rel_find? name

end Carries

/-- From a valid memory on, a loader of steady answers gives a variable the one value that
its constant is decoded to. -/
theorem Carries.exists_decoded_default {answer : String → Except ResourceError Resource}
    {valid : σ → Prop} {memory : σ}
    (carries : Carries (loader.startedAt memory) firstClass document tree
      (document.placedWithin 0))
    (steady : loader.Steady answer valid) (validMemory : valid memory)
    (lineal : document.Lineage place lineage) {name : String} {constant : Json.Value}
    (nearest : ClassRecord.nearestVariable? name lineage = some constant) :
    ∃ value, (tree.entryAt place).definition.variableDefault? name = some value ∧
      Constant.decoded answer constant = .ok value := by
  have related := carries.rel_nearestVariable? lineal name
  rw [nearest] at related
  rcases exists_of_rel_some related with ⟨value, found, reads⟩
  exact ⟨value, found, reads.decoded_eq steady validMemory⟩

/-- Every record of a loaded document has exactly one lineage.  The default of a variable of
its class is what the constant of the nearest record of the lineage which lists the variable
was read as, and there is none if no record lists it.  For a loader of steady answers this is
the one value that the constant is decoded to.  The table of all defaults holds exactly
these.  An object created at the path of the record has exactly these as its variables, and
its length besides if it is a list, as long as the class has no hook or that of lists. -/
theorem variables_loadRecord {world next : World} {memory last : σ}
    (loaded : world.loadRecord loader document memory = (.ok (), next, last)) :
    ∀ place record, document.preorder[place]? = some record →
      ∃ entry lineage, next.tree.get? place = some entry ∧ document.Lineage place lineage ∧
        (∀ other, document.Lineage place other → other = lineage) ∧
        (∀ name, Option.Rel (Constant.Reads (loader.startedAt memory))
          (ClassRecord.nearestVariable? name lineage) (entry.definition.variableDefault? name)) ∧
        (∀ answer valid, loader.Steady answer valid → valid memory → ∀ name constant,
          ClassRecord.nearestVariable? name lineage = some constant →
          ∃ value, entry.definition.variableDefault? name = some value ∧
            Constant.decoded answer constant = .ok value) ∧
        entry.definition.variableDefaults.Ordered ∧
        (∀ name value, (name, value) ∈ entry.definition.variableDefaults ↔
          entry.definition.variableDefault? name = some value) ∧
        ∀ names, document.Reaches names place record →
          ∀ store, store.AtMostLists entry.definition.id → ∀ arguments,
            (arguments.listLength? = none → ∃ ref made,
              (next.tree.create ⟨.absolute, names⟩ arguments).runOn store = (.ok ref, made)) ∧
            ∀ ref made,
              (next.tree.create ⟨.absolute, names⟩ arguments).runOn store = (.ok ref, made) →
              ∃ object, made.object? ref = some object ∧
                (∀ name, object.vars.find? name = entry.definition.initialValue? name) ∧
                Object.Seeded entry.definition made ref := by
  have carries := carries_startedAt loaded
  intro place record listed
  have inRange := carries.lt_size_of_getElem? listed
  rcases carries.exists_lineage inRange with ⟨lineage, lineal⟩
  have ordered := carries.orderedVars_entryAt lineal
  refine ⟨_, lineage, get?_entryAt inRange, lineal, fun other otherLineal =>
    carries.lineage_unique otherLineal lineal, carries.rel_nearestVariable? lineal,
    fun answer valid steady validMemory name constant =>
      carries.exists_decoded_default steady validMemory lineal,
    Definition.ordered_variableDefaults _,
    fun name value => Definition.mem_variableDefaults_iff ordered, ?_⟩
  intro names reached store atMost arguments
  have found : next.tree.entryId ⟨.absolute, names⟩ = .ok place :=
    entryId_eq_ok_iff.mpr ⟨rfl, carries.find?_eq_some_iff_reaches.mpr ⟨record, reached⟩⟩
  rw [runOn_create_of_entryId found]
  constructor
  · intro unasked
    have accepted : ¬ Object.Refused store (next.tree.entryAt place).definition arguments :=
      fun refused => refused.2.2 unasked
    rcases Object.exists_born_of_not_refused atMost accepted with ⟨made, object, run, born⟩
    exact ⟨_, made, run⟩
  · intro ref made run
    obtain ⟨rfl, object, born⟩ := Object.exists_born_of_runOn_create atMost run
    exact ⟨object, born.alive.found, born.find?_vars ordered, born.seeded ordered atMost⟩

/-! ## Variables of a class that inherits from elsewhere -/

def birdRecord : ClassRecord where
  name := "bird"
  vars := some [("age", .number "1"), ("legs", .number "2")]

def parrotRecord : ClassRecord where
  name := "parrot"
  parent := some "/bird"
  vars := some [("age", .number "3")]

def cageRecord : ClassRecord where
  name := "cage"
  vars := some [("legs", .number "4")]
  children := some [parrotRecord]

/-- A document in which a class declares one variable of its named parent again, and lies in a
class that declares the other one. -/
def aviaryDocument : ClassRecord where
  name := ""
  children := some [birdRecord, cageRecord]

theorem lineage_parrotRecord :
    aviaryDocument.Lineage 3 [(3, parrotRecord), (1, birdRecord), (0, aviaryDocument)] := by
  have birdWithin : aviaryDocument.Within 0 1 birdRecord :=
    ClassRecord.getElem?_placed_eq_some_iff.mp rfl
  have within : aviaryDocument.Within 2 3 parrotRecord :=
    ClassRecord.getElem?_placed_eq_some_iff.mp rfl
  have outerInner : aviaryDocument.inner = [] ++ birdRecord :: [cageRecord] := rfl
  have resolves : aviaryDocument.Resolves 3 parrotRecord 1 :=
    ⟨"/bird", birdRecord, rfl, rfl, by decide, .within .outermost outerInner⟩
  exact .heir rfl (.named within resolves) (.heir rfl (.enclosing birdWithin rfl) .outermost)

theorem reaches_parrotRecord : aviaryDocument.Reaches ["cage", "parrot"] 3 parrotRecord := by
  have outerInner : aviaryDocument.inner = [birdRecord] ++ cageRecord :: [] := rfl
  have cageInner : cageRecord.inner = [] ++ parrotRecord :: [] := rfl
  exact .within (.within .outermost outerInner) cageInner

/-- The class has one default from its own record and one from the named parent, and so has
an object of the class. -/
theorem variables_loadRecord_aviaryDocument :
    (World.start.loadRecord (fileLoader "res") aviaryDocument {}).1 = .ok () ∧
      let next := (World.start.loadRecord (fileLoader "res") aviaryDocument {}).2.1
      ∃ entry ref made, next.tree.get? 3 = some entry ∧
        entry.definition.variableDefault? "age" = some (.integer 3) ∧
        entry.definition.variableDefault? "legs" = some (.integer 2) ∧
        (next.tree.create ⟨.absolute, ["cage", "parrot"]⟩ {}).runOn next.store = (.ok ref, made) ∧
        (Object.getVariable ref "legs").runOn made = (.ok (.integer 2), made) := by
  have loaded : World.start.loadRecord (fileLoader "res") aviaryDocument {} =
      (.ok (), (World.start.loadRecord (fileLoader "res") aviaryDocument {}).2) := rfl
  obtain ⟨entry, lineage, found, _, unique, _, decoded, _, _, objects⟩ :=
    variables_loadRecord loaded 3 parrotRecord rfl
  cases unique _ lineage_parrotRecord
  have default := decoded _ _ (fileLoader_steady "res") (ResourceCache.faithful_empty "res")
  rcases default "age" (.number "3") rfl with ⟨age, ageFound, ageDecoded⟩
  rcases default "legs" (.number "2") rfl with ⟨legs, legsFound, legsDecoded⟩
  cases ageDecoded
  cases legsDecoded
  have unhooked : (World.start.loadRecord (fileLoader "res") aviaryDocument {}).2.1.store.hook?
      entry.definition.id = none := by
    rw [← entryAt_of_get? found]
    rfl
  rcases objects _ reaches_parrotRecord _ (.inl unhooked) {} with ⟨creates, seeded⟩
  rcases creates rfl with ⟨ref, made, run⟩
  rcases seeded ref made run with ⟨_, _, _, learned⟩
  have legsRead := learned.runOn_getVariable "legs" (by decide)
  rw [legsFound] at legsRead
  exact ⟨rfl, entry, ref, made, found, ageFound, legsFound, run, legsRead⟩

end Tree

end DreamWorld
