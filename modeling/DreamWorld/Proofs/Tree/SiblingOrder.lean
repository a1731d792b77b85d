import DreamWorld.Proofs.Report
import DreamWorld.Proofs.Tree.Hooks
import DreamWorld.Proofs.Tree.Twins
import DreamWorld.Proofs.Tree.Variables

/-!
# The order of records beside one another

Documents that are rearranged from each other are loaded as trees that cannot be told
apart by their paths: twins inherit alike, have the same variables and the same chains of
implementations, and hooks go to as many classes.  A report of a tree lists the lines of
its entries in ascending order, so it is the same for both.
-/

namespace DreamWorld

open Document (ClassRecord ProcRecord)
open Document.ClassRecord (menagerieDocument shuffledMenagerieDocument)

/-! ## Matchings -/

/-- If the items of two lists match one for one, and what is read off matching items agrees,
then the same is read off both lists, up to order. -/
theorem perm_map_of_matching {α β γ : Type} [DecidableEq β] (pairs : α → β → Prop)
    {first : α → γ} {second : β → γ} {items : List α} {others : List β}
    (distinct : items.Nodup) (otherDistinct : others.Nodup)
    (total : ∀ item ∈ items, ∃ other ∈ others, pairs item other)
    (onto : ∀ other ∈ others, ∃ item ∈ items, pairs item other)
    (functional : ∀ item other another, pairs item other → pairs item another → other = another)
    (injective : ∀ item another other, pairs item other → pairs another other → item = another)
    (agree : ∀ item other, pairs item other → first item = second other) :
    (items.map first).Perm (others.map second) := by
  induction items generalizing others with
  | nil =>
      cases others with
      | nil => exact .refl _
      | cons other _ =>
          rcases onto other List.mem_cons_self with ⟨_, mem, _⟩
          cases mem
  | cons item rest ih =>
      rcases List.nodup_cons.mp distinct with ⟨fresh, distinctRest⟩
      rcases total item List.mem_cons_self with ⟨other, otherMem, matched⟩
      have restPerm : (rest.map first).Perm ((others.erase other).map second) := by
        apply ih distinctRest (otherDistinct.erase other)
        · intro later laterMem
          rcases total later (List.mem_cons_of_mem item laterMem) with ⟨image, imageMem, related⟩
          refine ⟨image, (otherDistinct.mem_erase_iff).mpr ⟨?_, imageMem⟩, related⟩
          rintro rfl
          exact fresh (injective item later image matched related ▸ laterMem)
        · intro image imageMem
          rcases otherDistinct.mem_erase_iff.mp imageMem with ⟨different, inOthers⟩
          rcases onto image inOthers with ⟨source, sourceMem, related⟩
          rcases List.mem_cons.mp sourceMem with rfl | inRest
          · exact absurd (functional source image other related matched) different
          · exact ⟨source, inRest, related⟩
      rw [List.map_cons, agree item other matched]
      exact (restPerm.cons (second other)).trans
        ((List.perm_cons_erase otherMem).map second).symm

section

variable {α β γ : Type} {related : α → β → Prop}

/-- What is read off related values agrees if it agrees for all values that are related. -/
theorem map_eq_of_rel {first : α → γ} {second : β → γ}
    (agree : ∀ value other, related value other → first value = second other) :
    {value : Option α} → {other : Option β} → Option.Rel related value other →
      value.map first = other.map second
  | _, _, .none => rfl
  | _, _, .some pair => congrArg some (agree _ _ pair)

theorem eq_of_rel {related : α → α → Prop}
    (agree : ∀ value other, related value other → value = other) {value other : Option α}
    (pair : Option.Rel related value other) : value = other := by
  simpa only [Option.map_id'] using map_eq_of_rel agree pair

/-- Two values that are related to one value are related through it. -/
theorem rel_of_common {otherRelated : α → γ → Prop} :
    {source : Option α} → {value : Option β} → {other : Option γ} →
      Option.Rel related source value → Option.Rel otherRelated source other →
      Option.Rel (fun value other => ∃ source, related source value ∧ otherRelated source other)
        value other
  | _, _, _, .none, .none => .none
  | _, _, _, .some pair, .some otherPair => .some ⟨_, pair, otherPair⟩

end

/-! ## Implementations -/

/-- What an implementation is, apart from the class and the turn that declared it: its name,
its code and the names and kinds of its arguments. -/
def Overload.content (overload : Overload) :
    String × List UInt8 × List String × List ValueKinds :=
  (overload.name, overload.bytecode, overload.argumentNames, overload.argumentKinds)

/-- What the implementations along the super chain of a proc are. -/
def Proc.contents (proc : Proc) : List (String × List UInt8 × List String × List ValueKinds) :=
  proc.chain.map Overload.content

namespace Tree

variable {σ τ : Type} {loader : ResourceLoader σ} {otherLoader : ResourceLoader τ}
  {firstClass otherFirst : ClassId} {document otherDocument : ClassRecord} {tree other : Tree}
  {id otherId : EntryId} {name : String}

/-- The contents of a chain come from the proc records alone. -/
theorem ChainOf.map_content {chain : List Overload} {sources : List (Nat × ProcRecord)}
    (chained : ChainOf firstClass name chain sources) :
    chain.map Overload.content = (sources.map Prod.snd).map fun record =>
      (Overload.ofRecord ⟨0, 0⟩ name record).content := by
  apply chained.map_eq
  intro owner overload record isOf
  rw [isOf.eq_ofRecord]
  rfl

theorem map_snd_listedOn {α : Type} (listed : ClassRecord → List α)
    (lineage : List (Nat × ClassRecord)) :
    (ClassRecord.listedOn listed lineage).map Prod.snd =
      (lineage.map Prod.snd).flatMap listed := by
  simp [ClassRecord.listedOn, List.map_flatMap, List.flatMap_map]

/-- Along lineages whose records agree but for the records within them, the same is listed. -/
theorem flatMap_lineage_eq {α : Type} {lineage otherLineage : List (Nat × ClassRecord)}
    (matched : List.Forall₂ (fun member otherMember =>
      Twins tree other member.1 otherMember.1 ∧ member.2.alone = otherMember.2.alone)
      lineage otherLineage)
    (listed : ClassRecord → List α) (listed_alone : ∀ record, listed record.alone = listed record) :
    (lineage.map Prod.snd).flatMap listed = (otherLineage.map Prod.snd).flatMap listed := by
  induction matched with
  | nil => rfl
  | @cons member otherMember _ _ pair _ ih =>
      have headEq : listed member.2 = listed otherMember.2 := by
        rw [← listed_alone, pair.2, listed_alone]
      rw [List.map_cons, List.map_cons, List.flatMap_cons, List.flatMap_cons, headEq, ih]

/-- The nearest records that list a variable give it the same constant. -/
theorem nearestVariable?_eq {lineage otherLineage : List (Nat × ClassRecord)}
    (matched : List.Forall₂ (fun member otherMember =>
      Twins tree other member.1 otherMember.1 ∧ member.2.alone = otherMember.2.alone)
      lineage otherLineage) (name : String) :
    ClassRecord.nearestVariable? name lineage = ClassRecord.nearestVariable? name otherLineage := by
  induction matched with
  | nil => rfl
  | @cons member otherMember _ _ pair _ ih =>
      have headEq : member.2.variableConstant? name = otherMember.2.variableConstant? name := by
        change member.2.alone.variableConstant? name = otherMember.2.alone.variableConstant? name
        rw [pair.2]
      unfold ClassRecord.nearestVariable? at ih ⊢
      rw [List.findSome?_cons, List.findSome?_cons, headEq, ih]

theorem contents_eq_of_chain_eq {proc otherProc : Option Proc}
    (same : (proc.elim [] Proc.chain).map Overload.content =
      (otherProc.elim [] Proc.chain).map Overload.content) :
    proc.map Proc.contents = otherProc.map Proc.contents := by
  cases proc with
  | none =>
      cases otherProc with
      | none => rfl
      | some _ => cases same
  | some _ =>
      cases otherProc with
      | none => cases same
      | some _ => exact congrArg some same

namespace Counterparts

section

variable (both : Counterparts loader otherLoader firstClass otherFirst document otherDocument
  tree other) (twins : Twins tree other id otherId)

include both twins

/-- A chain to which every class adds what its record lists has the same contents in twins. -/
theorem map_content_chain_eq {chain : Definition → List Overload}
    {listed : ClassRecord → List ProcRecord} (builds : BuildsChain loader name chain listed)
    (otherBuilds : BuildsChain otherLoader name chain listed)
    (listed_alone : ∀ record, listed record.alone = listed record) :
    (chain (tree.entryAt id).definition).map Overload.content =
      (chain (other.entryAt otherId).definition).map Overload.content := by
  rcases both.carries.exists_lineage (both.lt_size_of_twins twins) with ⟨lineage, lineal⟩
  rcases both.exists_lineage twins lineal with ⟨otherLineage, otherLineal, matched⟩
  rw [(both.carries.chainOf_lineage builds lineal).map_content,
    (both.otherCarries.chainOf_lineage otherBuilds otherLineal).map_content,
    map_snd_listedOn, map_snd_listedOn, flatMap_lineage_eq matched listed listed_alone]

theorem contents_proc?_eq (name : String) :
    ((tree.entryAt id).definition.proc? name).map Proc.contents =
      ((other.entryAt otherId).definition.proc? name).map Proc.contents :=
  contents_eq_of_chain_eq (both.map_content_chain_eq twins
    (buildsChain_implementations loader name) (buildsChain_implementations otherLoader name)
    fun _ => rfl)

theorem contents_initProc?_eq :
    (tree.entryAt id).definition.initProc?.map Proc.contents =
      (other.entryAt otherId).definition.initProc?.map Proc.contents :=
  contents_eq_of_chain_eq (both.map_content_chain_eq twins
    (buildsChain_initialisations loader) (buildsChain_initialisations otherLoader) fun _ => rfl)

/-- Twins go through classes of the same paths. -/
theorem isSubtypeOf_eq (type : Path) :
    (tree.entryAt id).definition.isSubtypeOf type =
      (other.entryAt otherId).definition.isSubtypeOf type := by
  rcases both.carries.exists_lineage (both.lt_size_of_twins twins) with ⟨lineage, lineal⟩
  rcases both.exists_lineage twins lineal with ⟨otherLineage, otherLineal, matched⟩
  unfold Definition.isSubtypeOf
  rw [both.carries.lineage_entryAt lineal, both.otherCarries.lineage_entryAt otherLineal]
  clear lineal otherLineal
  induction matched with
  | nil => rfl
  | cons pair _ ih =>
      have headEq := congrArg (· == type) (both.path_eq pair.1)
      rw [List.map_cons, List.map_cons, List.any_cons, List.any_cons, ih]
      exact congrArg (· || _) headEq

/-- Twins have the same procs of their own. -/
theorem localProcNames_eq :
    (tree.entryAt id).definition.localProcNames =
      (other.entryAt otherId).definition.localProcNames := by
  obtain ⟨_, record, otherRecord, reached, otherReached, rearranged⟩ := both.exists_records twins
  rw [both.carries.localProcNames_entryAt reached.getElem?_preorder,
    both.otherCarries.localProcNames_entryAt otherReached.getElem?_preorder]
  exact rearranged.apply_eq ClassRecord.procNames fun _ => rfl

/-- Twins inherit from entries of the same path. -/
theorem parentPath_eq :
    (tree.entryAt id).parent.map (fun parent => (tree.entryAt parent).path) =
      (other.entryAt otherId).parent.map fun parent => (other.entryAt parent).path :=
  map_eq_of_rel (fun _ _ parentTwins => both.path_eq parentTwins) (both.rel_parent twins).1

/-- A report has the same line for twins. -/
theorem entryLine_eq :
    Report.entryLine tree (tree.entryAt id) = Report.entryLine other (other.entryAt otherId) := by
  have inRange := both.lt_size_of_twins twins
  have otherInRange := both.symm.lt_size_of_twins twins.symm
  rw [Report.entryLine, Report.entryLine, Report.procPart, Report.procPart,
    both.carries.represents.parentPart_entryAt inRange,
    both.otherCarries.represents.parentPart_entryAt otherInRange, both.path_eq twins,
    both.localProcNames_eq twins, (both.rel_parent twins).2, both.parentPath_eq twins]

/-- A variable has a default in both of two twins or in neither, and then the loader may read
one constant as the two values. -/
theorem rel_variableDefault? (name : String) :
    Option.Rel (fun value otherValue => ∃ constant,
        Constant.Reads loader constant value ∧ Constant.Reads otherLoader constant otherValue)
      ((tree.entryAt id).definition.variableDefault? name)
      ((other.entryAt otherId).definition.variableDefault? name) := by
  rcases both.carries.exists_lineage (both.lt_size_of_twins twins) with ⟨lineage, lineal⟩
  rcases both.exists_lineage twins lineal with ⟨otherLineage, otherLineal, matched⟩
  have related := both.carries.rel_nearestVariable? lineal name
  have otherRelated := both.otherCarries.rel_nearestVariable? otherLineal name
  rw [← nearestVariable?_eq matched] at otherRelated
  exact rel_of_common related otherRelated

/-- As many steps down lead from an entry as from its twin. -/
theorem length_descendants_eq :
    (tree.descendants id true true).length = (other.descendants otherId true true).length := by
  have inRange := both.lt_size_of_twins twins
  have otherInRange := both.symm.lt_size_of_twins twins.symm
  have holds := both.carries.represents
  have otherHolds := both.otherCarries.represents
  have perm : ((tree.descendants id true true).map fun _ => ()).Perm
      ((other.descendants otherId true true).map fun _ => ()) := by
    apply perm_map_of_matching (Twins tree other) (Represents.descendants_nodup _ _ _ _)
      (Represents.descendants_nodup _ _ _ _)
    · intro below mem
      have leads := (holds.mem_descendants_inclusive_iff inRange).mp mem
      rcases both.exists_leadsTo twins leads with ⟨otherBelow, belowTwins, otherLeads⟩
      exact ⟨otherBelow, (otherHolds.mem_descendants_inclusive_iff otherInRange).mpr otherLeads,
        belowTwins⟩
    · intro otherBelow mem
      have otherLeads := (otherHolds.mem_descendants_inclusive_iff otherInRange).mp mem
      rcases both.symm.exists_leadsTo twins.symm otherLeads with ⟨below, belowTwins, leads⟩
      exact ⟨below, (holds.mem_descendants_inclusive_iff inRange).mpr leads, belowTwins.symm⟩
    · exact fun _ _ _ => both.twin_unique
    · exact fun _ _ _ first second => both.symm.twin_unique first.symm second.symm
    · exact fun _ _ _ => rfl
  simpa using perm.length_eq

end

section

variable (both : Counterparts loader otherLoader firstClass otherFirst document otherDocument
  tree other)

include both

/-- A path leads to twins, or it fails alike in both trees. -/
theorem entryId_cases (path : Path) :
    (∃ id otherId, tree.entryId path = .ok id ∧ other.entryId path = .ok otherId ∧
      Twins tree other id otherId) ∨
    tree.entryId path = .error path.unresolved ∧ other.entryId path = .error path.unresolved := by
  cases found : tree.entryId path with
  | ok id =>
      rcases entryId_eq_ok_iff.mp found with ⟨absolute, idFound⟩
      rcases both.exists_find? idFound with ⟨otherId, otherFound⟩
      exact .inl ⟨id, otherId, rfl, entryId_eq_ok_iff.mpr ⟨absolute, otherFound⟩,
        path.elements, idFound, otherFound⟩
  | error error =>
      cases otherFound : other.entryId path with
      | ok otherId =>
          rcases entryId_eq_ok_iff.mp otherFound with ⟨absolute, idFound⟩
          rcases both.symm.exists_find? idFound with ⟨id, treeFound⟩
          rw [entryId_eq_ok_iff.mpr ⟨absolute, treeFound⟩] at found
          cases found
      | error otherError =>
          rw [eq_unresolved_of_entryId found, eq_unresolved_of_entryId otherFound]
          exact .inr ⟨rfl, rfl⟩

theorem hasEntry_eq (path : Path) : tree.hasEntry path = other.hasEntry path := by
  unfold hasEntry
  rw [both.isSome_find?]

theorem attachHook_eq (path : Path) (hook : Hook) (store otherStore : Store) :
    ((tree.attachHook path hook).runOn store).1 =
      ((other.attachHook path hook).runOn otherStore).1 := by
  rcases both.entryId_cases path with
    ⟨id, otherId, found, otherFound, twins⟩ | ⟨failed, otherFailed⟩
  · rw [runOn_attachHook_of_ok found, runOn_attachHook_of_ok otherFound,
      both.length_descendants_eq twins]
  · rw [runOn_attachHook_of_error failed, runOn_attachHook_of_error otherFailed]

/-- Both trees have the same report. -/
theorem ofTree_eq : Report.ofTree tree = Report.ofTree other := by
  unfold Report.ofTree
  rw [toList_entries, toList_entries, List.map_map, List.map_map]
  apply congrArg Report.lines (Report.sorted_eq_of_perm _)
  apply perm_map_of_matching (Twins tree other) List.nodup_range List.nodup_range
  · intro id mem
    rcases both.exists_twin (List.mem_range.mp mem) with ⟨otherId, twins⟩
    exact ⟨otherId, List.mem_range.mpr (both.symm.lt_size_of_twins twins.symm), twins⟩
  · intro otherId mem
    rcases both.symm.exists_twin (List.mem_range.mp mem) with ⟨id, twins⟩
    exact ⟨id, List.mem_range.mpr (both.lt_size_of_twins twins.symm), twins.symm⟩
  · exact fun _ _ _ => both.twin_unique
  · exact fun _ _ _ first second => both.symm.twin_unique first.symm second.symm
  · exact fun _ _ => both.entryLine_eq

end

/-- A loader that always answers alike reads the same defaults in both trees. -/
theorem variableDefault?_eq {answer : String → Except ResourceError Resource}
    {valid : σ → Prop} {memory otherMemory : σ}
    (both : Counterparts (loader.startedAt memory) (loader.startedAt otherMemory) firstClass
      otherFirst document otherDocument tree other)
    (twins : Twins tree other id otherId) (steady : loader.Steady answer valid)
    (validMemory : valid memory) (otherValid : valid otherMemory) (name : String) :
    (tree.entryAt id).definition.variableDefault? name =
      (other.entryAt otherId).definition.variableDefault? name := by
  apply eq_of_rel _ (both.rel_variableDefault? twins name)
  rintro value otherValue ⟨constant, reads, otherReads⟩
  have decoded := reads.decoded_eq steady validMemory
  rw [otherReads.decoded_eq steady otherValid] at decoded
  exact (Except.ok.inj decoded).symm

end Counterparts

/-! ## Loaded documents -/

theorem counterparts_of_loadRecord {world otherWorld next otherNext : World}
    {memory otherMemory last otherLast : σ} (rearranged : document.Rearranged otherDocument)
    (loaded : world.loadRecord loader document memory = (.ok (), next, last))
    (otherLoaded : otherWorld.loadRecord loader otherDocument otherMemory =
      (.ok (), otherNext, otherLast)) :
    Counterparts (loader.startedAt memory) (loader.startedAt otherMemory)
      world.store.nextClass otherWorld.store.nextClass document otherDocument
      next.tree otherNext.tree :=
  ⟨carries_startedAt loaded, carries_startedAt otherLoaded, rearranged⟩

/-- If two documents that differ in the order of records beside one another, at any depth, can
both be loaded, then the same paths lead to entries.  Entries of one path inherit from entries
of one path, and both name their parents or neither does.  The same variables have defaults,
which may be readings of one constant, and are equal values if the loader always answers
alike.  Procs and initialisation procs have the same implementations along their super chains,
and the classes are subtypes of the same paths.  Attaching a hook to a path gives the same
answer, and so the same number of classes, and the trees have the same report. -/
theorem agree_of_rearranged {world otherWorld next otherNext : World}
    {memory otherMemory last otherLast : σ} (rearranged : document.Rearranged otherDocument)
    (loaded : world.loadRecord loader document memory = (.ok (), next, last))
    (otherLoaded : otherWorld.loadRecord loader otherDocument otherMemory =
      (.ok (), otherNext, otherLast)) :
    (∀ path, next.tree.hasEntry path = otherNext.tree.hasEntry path) ∧
    (∀ path, next.tree.hasEntry path = true →
      ∃ id otherId, next.tree.entryId path = .ok id ∧ otherNext.tree.entryId path = .ok otherId ∧
        let entry := next.tree.entryAt id
        let otherEntry := otherNext.tree.entryAt otherId
        entry.parent.map (fun parent => (next.tree.entryAt parent).path) =
          otherEntry.parent.map (fun parent => (otherNext.tree.entryAt parent).path) ∧
        entry.hasNamedParent = otherEntry.hasNamedParent ∧
        (∀ name, Option.Rel (fun value otherValue => ∃ constant,
            Constant.Reads (loader.startedAt memory) constant value ∧
            Constant.Reads (loader.startedAt otherMemory) constant otherValue)
          (entry.definition.variableDefault? name)
          (otherEntry.definition.variableDefault? name)) ∧
        (∀ answer valid, loader.Steady answer valid → valid memory → valid otherMemory →
          ∀ name, entry.definition.variableDefault? name =
            otherEntry.definition.variableDefault? name) ∧
        (∀ name, (entry.definition.proc? name).map Proc.contents =
          (otherEntry.definition.proc? name).map Proc.contents) ∧
        entry.definition.initProc?.map Proc.contents =
          otherEntry.definition.initProc?.map Proc.contents ∧
        ∀ type, entry.definition.isSubtypeOf type = otherEntry.definition.isSubtypeOf type) ∧
    (∀ path hook store otherStore, ((next.tree.attachHook path hook).runOn store).1 =
      ((otherNext.tree.attachHook path hook).runOn otherStore).1) ∧
    Report.ofTree next.tree = Report.ofTree otherNext.tree := by
  have both := counterparts_of_loadRecord rearranged loaded otherLoaded
  refine ⟨both.hasEntry_eq, ?_, both.attachHook_eq, both.ofTree_eq⟩
  intro path has
  rcases both.entryId_cases path with ⟨id, otherId, found, otherFound, twins⟩ | ⟨failed, _⟩
  · exact ⟨id, otherId, found, otherFound, both.parentPath_eq twins, (both.rel_parent twins).2,
      both.rel_variableDefault? twins,
      fun _ _ steady validMemory otherValid =>
        both.variableDefault?_eq twins steady validMemory otherValid,
      both.contents_proc?_eq twins, both.contents_initProc?_eq twins, both.isSubtypeOf_eq twins⟩
  · rcases hasEntry_iff.mp has with ⟨id, found⟩
    rw [failed] at found
    cases found

/-- The entries of one path of the sample have different numbers in the two orders, but the
same implementations along their super chain, and both orders have the same report. -/
theorem agree_of_rearranged_menagerieDocument :
    let next := (World.start.loadRecord (fileLoader "res") menagerieDocument {}).2.1
    let otherNext := (World.start.loadRecord (fileLoader "res") shuffledMenagerieDocument {}).2.1
    (World.start.loadRecord (fileLoader "res") menagerieDocument {}).1 = .ok () ∧
      (World.start.loadRecord (fileLoader "res") shuffledMenagerieDocument {}).1 = .ok () ∧
      next.tree.entryId (Path.parse "/animal/cat") = .ok 2 ∧
      otherNext.tree.entryId (Path.parse "/animal/cat") = .ok 4 ∧
      ((next.tree.entryAt 2).definition.proc? "Call").map Proc.contents =
        ((otherNext.tree.entryAt 4).definition.proc? "Call").map Proc.contents ∧
      Report.ofTree next.tree = Report.ofTree otherNext.tree := by
  intro next otherNext
  have loaded : World.start.loadRecord (fileLoader "res") menagerieDocument {} =
      (.ok (), (World.start.loadRecord (fileLoader "res") menagerieDocument {}).2) := rfl
  have otherLoaded : World.start.loadRecord (fileLoader "res") shuffledMenagerieDocument {} =
      (.ok (), (World.start.loadRecord (fileLoader "res") shuffledMenagerieDocument {}).2) := rfl
  obtain ⟨_, entries, _, reports⟩ :=
    agree_of_rearranged ClassRecord.rearranged_menagerieDocument loaded otherLoaded
  obtain ⟨id, otherId, found, otherFound, _, _, _, _, procs, _⟩ :=
    entries (Path.parse "/animal/cat") rfl
  have catFound : next.tree.entryId (Path.parse "/animal/cat") = .ok 2 := rfl
  have otherCatFound : otherNext.tree.entryId (Path.parse "/animal/cat") = .ok 4 := rfl
  cases catFound.symm.trans found
  cases otherCatFound.symm.trans otherFound
  exact ⟨rfl, rfl, catFound, otherCatFound, procs "Call", reports⟩

end Tree

end DreamWorld
