import DreamWorld.Proofs.Tree.Declared
import DreamWorld.Proofs.Tree.Lineage

/-!
# Chains of implementations in loaded trees

A proc of a loaded class runs the implementations that the records of the lineage
list under its name, from the nearest record to the outermost one, and within one
record from the last one listed to the first.  Each has the code and the arguments of
its record.  The records that lie around a record but not in its lineage add nothing.
The same holds of initialisation procs.
-/

namespace DreamWorld.Tree

open Document (ClassRecord ProcRecord)

variable {σ : Type} {loader : ResourceLoader σ} {firstClass : ClassId} {tree : Tree}
  {document record : ClassRecord} {place : Nat} {lineage : List (Nat × ClassRecord)}

/-- The implementations of a chain are, one for one, those of the proc records, each
declared under the name by the class of its place. -/
def ChainOf (firstClass : ClassId) (name : String) :
    List Overload → List (Nat × ProcRecord) → Prop :=
  List.Forall₂ fun overload source => overload.IsOf (firstClass + source.1) name source.2

namespace ChainOf

variable {name : String} {chain : List Overload} {sources : List (Nat × ProcRecord)}

theorem eq_nil_iff (chained : ChainOf firstClass name chain sources) :
    chain = [] ↔ sources = [] := by
  rw [← List.length_eq_zero_iff, ← List.length_eq_zero_iff, List.Forall₂.length_eq chained]

/-- What the implementation of a proc record has from that record is known of a whole chain. -/
theorem map_eq {α : Type} {part : Overload → α} {partOf : ProcRecord → α}
    (agree : ∀ owner overload record, overload.IsOf owner name record →
      part overload = partOf record)
    (chained : ChainOf firstClass name chain sources) :
    chain.map part = (sources.map Prod.snd).map partOf := by
  induction chained with
  | nil => rfl
  | cons isOf _ ih =>
      rw [List.map_cons, List.map_cons, List.map_cons, agree _ _ _ isOf, ih]

end ChainOf

/-- Each class has the chain of the class that it inherits from, with what its own
record lists put in front. -/
structure BuildsChain (loader : ResourceLoader σ) (name : String)
    (chain : Definition → List Overload) (listed : ClassRecord → List ProcRecord) : Prop where
  chain_below : ∀ id type parent,
    chain (Definition.below id type parent) = parent.elim [] chain
  chain_members : ∀ (definition result : Definition) (record : ClassRecord) (memory last : σ),
    (definition.loadMembers loader record).run memory = (.ok result, last) →
    ∃ own, List.Forall₂ (Overload.IsOf definition.id name) own (listed record) ∧
      chain result = own ++ chain definition

theorem buildsChain_implementations (loader : ResourceLoader σ) (name : String) :
    BuildsChain loader name (fun definition => definition.implementations name)
      fun record => record.overloads name where
  chain_below id type parent := Definition.implementations_below id type parent name
  chain_members _ _ _ _ _ run := Definition.implementations_loadMembers run name

theorem buildsChain_initialisations (loader : ResourceLoader σ) :
    BuildsChain loader Definition.initProcName Definition.initialisations
      ClassRecord.initialisers where
  chain_below := Definition.initialisations_below
  chain_members _ _ _ _ _ run := Definition.initialisations_loadMembers run

section

variable {name : String} {chain : Definition → List Overload}
  {listed : ClassRecord → List ProcRecord} (builds : BuildsChain loader name chain listed)

include builds

/-- What the class at a place adds to a chain comes from its own record, and the rest
from the class that it inherits from. -/
theorem BuiltFrom.exists_own {path : Path}
    (built : BuiltFrom loader firstClass tree place path record) :
    ∃ own, ChainOf firstClass name own ((listed record).map fun item => (place, item)) ∧
      chain (tree.entryAt place).definition =
        own ++ (tree.entryAt place).parent.elim [] fun parent =>
          chain (tree.entryAt parent).definition := by
  rcases built with ⟨_, _, run⟩
  rcases builds.chain_members _ _ _ _ _ run with ⟨own, isOf, chainEq⟩
  refine ⟨own, List.forall₂_map_right_iff.mpr isOf, ?_⟩
  rw [chainEq, builds.chain_below]
  cases (tree.entryAt place).parent <;> rfl

/-- A chain to which every class adds what its record lists is made of what the
records of the lineage list. -/
theorem Carries.chainOf_lineage
    (carries : Carries loader firstClass document tree (document.placedWithin 0))
    (lineal : document.Lineage place lineage) :
    ChainOf firstClass name (chain (tree.entryAt place).definition)
      (ClassRecord.listedOn listed lineage) := by
  induction lineal with
  | outermost =>
      rcases carries.root_built.exists_own builds with ⟨own, isOf, chainEq⟩
      have rootLt : rootId < tree.size := tree.nonempty
      rw [(carries.represents.root_unlinked (get?_entryAt rootLt)).1, Option.elim_none,
        List.append_nil] at chainEq
      rw [show (0 : Nat) = rootId from rfl, chainEq, ClassRecord.listedOn, List.flatMap_cons,
        List.flatMap_nil, List.append_nil]
      exact isOf
  | @heir place parent record lineage recordListed inherits lineal ih =>
      have inRange := carries.lt_size_of_getElem? recordListed
      rcases carries.exists_builtFrom recordListed with ⟨path, built⟩
      rcases built.exists_own builds with ⟨own, isOf, chainEq⟩
      rw [(carries.represents.inheritsFrom_iff inRange).mp inherits, Option.elim_some] at chainEq
      rw [chainEq]
      exact List.rel_append isOf ih

end

/-- Every record of a loaded document has exactly one lineage.  Its class has a proc of
a name exactly when some record of the lineage lists one, and then the proc runs the
implementations that these records list, nearest record first and within a record the
last one first, each with its own code and arguments.  Likewise for the initialisation
proc, of which a record has at most one. -/
theorem chain_loadRecord {world next : World} {memory last : σ}
    (loaded : world.loadRecord loader document memory = (.ok (), next, last)) :
    ∀ place record, document.preorder[place]? = some record →
      ∃ entry lineage, next.tree.get? place = some entry ∧ document.Lineage place lineage ∧
        (∀ other, document.Lineage place other → other = lineage) ∧
        (∀ name,
          (entry.definition.proc? name = none ↔
            ∀ member ∈ lineage, member.2.overloads name = []) ∧
          ∀ proc, entry.definition.proc? name = some proc →
            ChainOf world.store.nextClass name proc.chain
              (ClassRecord.listedOn (fun member => member.overloads name) lineage)) ∧
        (entry.definition.initProc? = none ↔ ∀ member ∈ lineage, member.2.initProc = none) ∧
        ∀ proc, entry.definition.initProc? = some proc →
          ChainOf world.store.nextClass "<init>" proc.chain
            (ClassRecord.listedOn ClassRecord.initialisers lineage) := by
  have carries := carries_of_loadRecord loaded
  intro place record listed
  have inRange := carries.lt_size_of_getElem? listed
  rcases carries.exists_lineage inRange with ⟨lineage, lineal⟩
  refine ⟨_, lineage, get?_entryAt inRange, lineal, fun other otherLineal =>
    carries.lineage_unique otherLineal lineal, ?_, ?_, ?_⟩
  · intro name
    have chained := carries.chainOf_lineage (buildsChain_implementations loader name) lineal
    constructor
    · rw [← Definition.implementations_eq_nil_iff, chained.eq_nil_iff,
        ClassRecord.listedOn_eq_nil_iff]
    · intro proc found
      rwa [Definition.implementations, found] at chained
  · have chained := carries.chainOf_lineage (buildsChain_initialisations loader) lineal
    rw [← Definition.initialisations_eq_nil_iff, chained.eq_nil_iff,
      ClassRecord.listedOn_eq_nil_iff]
    simp [ClassRecord.initialisers]
  · intro proc found
    have chained := carries.chainOf_lineage (buildsChain_initialisations loader) lineal
    rwa [Definition.initialisations, found] at chained

/-- A class with two implementations of one proc.  A bit of the last argument is that of no
kind. -/
def boxerRecord : ClassRecord where
  name := "boxer"
  procs := some [("Punch",
    [{ bytecode := some [1], arguments := some [⟨"target", 8⟩] },
      { bytecode := some [2], arguments := some [⟨"target", 8⟩, ⟨"force", 0x2020⟩] }])]
  initProc := some { bytecode := some [9] }

/-- A class that inherits from a class which it does not lie in. -/
def championRecord : ClassRecord where
  name := "champion"
  parent := some "/boxer"
  procs := some [("Punch", [{}])]
  initProc := some { bytecode := some [7] }

/-- A class that holds another one, with implementations that this one does not inherit. -/
def ringRecord : ClassRecord where
  name := "ring"
  procs := some [("Punch", [{ bytecode := some [4] }]), ("Bell", [{}])]
  initProc := some { bytecode := some [8] }
  children := some [championRecord]

def arenaDocument : ClassRecord where
  name := ""
  children := some [boxerRecord, ringRecord]

/-- The lineage of the champion passes by the ring. -/
theorem lineage_championRecord :
    arenaDocument.Lineage 3 [(3, championRecord), (1, boxerRecord), (0, arenaDocument)] := by
  have boxerWithin : arenaDocument.Within 0 1 boxerRecord :=
    ClassRecord.getElem?_placed_eq_some_iff.mp rfl
  have boxerLineage : arenaDocument.Lineage 1 [(1, boxerRecord), (0, arenaDocument)] :=
    .heir rfl (.enclosing boxerWithin rfl) .outermost
  have championWithin : arenaDocument.Within 2 3 championRecord :=
    ClassRecord.getElem?_placed_eq_some_iff.mp rfl
  have outerInner : arenaDocument.inner = [] ++ boxerRecord :: [ringRecord] := rfl
  have resolves : arenaDocument.Resolves 3 championRecord 1 :=
    ⟨"/boxer", boxerRecord, rfl, rfl, by decide, .within .outermost outerInner⟩
  exact .heir rfl (.named championWithin resolves) boxerLineage

/-- A proc of the sample runs the implementations of the named parent after its own one,
and not that of the class around it. -/
theorem chain_loadRecord_arenaDocument :
    (World.start.loadRecord (fileLoader "res") arenaDocument {}).1 = .ok () ∧
      ∃ entry punch start,
        (World.start.loadRecord (fileLoader "res") arenaDocument {}).2.1.tree.get? 3 =
          some entry ∧
        entry.definition.proc? "Punch" = some punch ∧
        punch.chain.map Overload.bytecode = [[], [2], [1]] ∧
        punch.chain.map Overload.argumentNames = [[], ["target", "force"], ["target"]] ∧
        punch.chain.map Overload.argumentKinds = [[], [⟨8⟩, ⟨32⟩], [⟨8⟩]] ∧
        entry.definition.proc? "Bell" = none ∧
        entry.definition.initProc? = some start ∧
        start.chain.map Overload.bytecode = [[7], [9]] := by
  have loaded : World.start.loadRecord (fileLoader "res") arenaDocument {} =
      (.ok (), (World.start.loadRecord (fileLoader "res") arenaDocument {}).2) := rfl
  obtain ⟨entry, lineage, found, _, unique, procs, noInit, inits⟩ :=
    chain_loadRecord loaded 3 championRecord rfl
  cases unique _ lineage_championRecord
  rcases procs "Punch" with ⟨absent, chained⟩
  have listed : championRecord.overloads "Punch" ≠ [] := by decide
  rcases Option.ne_none_iff_exists'.mp fun none =>
    listed (absent.mp none (3, championRecord) List.mem_cons_self) with ⟨punch, named⟩
  have initialised : championRecord.initProc ≠ none := by decide
  rcases Option.ne_none_iff_exists'.mp fun none =>
    initialised (noInit.mp none (3, championRecord) List.mem_cons_self) with ⟨start, started⟩
  have punches : ChainOf 1 "Punch" punch.chain [(3, {}),
      (1, { bytecode := some [2], arguments := some [⟨"target", 8⟩, ⟨"force", 0x2020⟩] }),
      (1, { bytecode := some [1], arguments := some [⟨"target", 8⟩] })] := chained punch named
  have starts : ChainOf 1 "<init>" start.chain
      [(3, { bytecode := some [7] }), (1, { bytecode := some [9] })] := inits start started
  refine ⟨rfl, entry, punch, start, found, named, ?_, ?_, ?_, ?_, started, ?_⟩
  · exact punches.map_eq fun _ _ _ isOf => isOf.bytecode_eq
  · exact punches.map_eq fun _ _ _ isOf => isOf.argumentNames_eq
  · exact punches.map_eq fun _ _ _ isOf => Overload.kinds_eq_iff.mp isOf.kinds_areOf
  · apply (procs "Bell").1.mpr
    decide
  · exact starts.map_eq fun _ _ _ isOf => isOf.bytecode_eq

end DreamWorld.Tree
