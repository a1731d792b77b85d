import DreamWorld.Proofs.Tree.ClassNumbers
import DreamWorld.Proofs.Tree.Descendants

/-!
# Hooks of classes and of what lies below them

Attaching a hook to a path changes the hooks of the entry of the path and of everything
below it, branches included, and no other ones.  A path without an entry changes none.  So
after any number of such calls the hook of an entry is that of the last call whose path
leads to the entry or to one above it.
-/

namespace DreamWorld

namespace Store

theorem nextClass_setHook (store : Store) (id : ClassId) (hook : Option Hook) :
    (store.setHook id hook).nextClass = store.nextClass :=
  Array.size_setIfInBounds

/-- A class that exists has the hook that was attached to it last. -/
theorem hook?_setHook (store : Store) {id : ClassId} (known : id < store.nextClass)
    (other : ClassId) (hook : Option Hook) :
    (store.setHook id hook).hook? other = if other = id then hook else store.hook? other := by
  unfold hook? setHook
  rw [Array.getElem?_setIfInBounds]
  by_cases same : other = id
  · subst same
    have inBounds : other < store.hooks.size := known
    rw [if_pos rfl, if_pos rfl, if_pos inBounds]
    rfl
  · rw [if_neg (Ne.symm same), if_neg same]

/-- New classes have no hooks. -/
theorem hook?_addClasses (store : Store) (count : Nat) (id : ClassId) :
    (store.addClasses count).hook? id = store.hook? id := by
  unfold hook? addClasses
  rw [Array.getElem?_append]
  split
  · rfl
  · rename_i new
    rw [Array.getElem?_eq_none (Nat.le_of_not_lt new), Array.getElem?_replicate]
    split <;> rfl

/-- A number that no class has yet has no hook. -/
theorem hook?_eq_none_of_le {store : Store} {id : ClassId} (free : store.nextClass ≤ id) :
    store.hook? id = none := by
  unfold hook?
  rw [Array.getElem?_eq_none free]
  rfl

end Store

namespace Tree

open Document (ClassRecord)
open Document.ClassRecord (graveyardDocument)

/-- The hook of the class of an entry. -/
def hookAt? (tree : Tree) (store : Store) (id : EntryId) : Option Hook :=
  store.hook? (tree.entryAt id).definition.id

/-- A path covers an entry if it leads to an entry from which steps down, also to
branches, lead on to that one. -/
def Covers (tree : Tree) (path : Path) (id : EntryId) : Prop :=
  ∃ start, tree.entryId path = .ok start ∧ tree.LeadsTo true start id

/-- The store after calls to attach hooks to paths, one after another, whether they
succeed or fail. -/
def attachAll (tree : Tree) (store : Store) (calls : List (Path × Hook)) : Store :=
  calls.foldl (fun store call => ((tree.attachHook call.1 call.2).runOn store).2) store

/-- One of the calls attaches a hook to an entry, and none of the calls after it attaches
another one. -/
def LastAttaches (tree : Tree) (calls : List (Path × Hook)) (id : EntryId) (hook : Hook) : Prop :=
  ∃ before path after, calls = before ++ (path, hook) :: after ∧ tree.Covers path id ∧
    ∀ call ∈ after, ¬ tree.Covers call.1 id

variable {σ : Type} {loader : ResourceLoader σ} {firstClass : ClassId} {tree : Tree}
  {document : ClassRecord} {store : Store} {path : Path} {hook : Hook} {id start : EntryId}

/-! ## One call -/

theorem runOn_attachHook_of_error {error : RuntimeError} (failed : tree.entryId path = .error error)
    (hook : Hook) (store : Store) :
    (tree.attachHook path hook).runOn store = (.error path.unresolved, store) := by
  rw [← eq_unresolved_of_entryId failed]
  unfold attachHook
  rw [failed]
  rfl

theorem runOn_attachHook_of_ok (found : tree.entryId path = .ok start) (hook : Hook)
    (store : Store) :
    (tree.attachHook path hook).runOn store =
      (.ok (tree.descendants start true true).length,
        tree.hookEntries hook (tree.descendants start true true) store) := by
  unfold attachHook
  rw [found]
  rfl

theorem nextClass_attachHook (tree : Tree) (path : Path) (hook : Hook) (store : Store) :
    ((tree.attachHook path hook).runOn store).2.nextClass = store.nextClass :=
  ((tree.private_attachHook path hook).keeps store).nextClass_eq

namespace Carries

variable (carries : Carries loader firstClass document tree (document.placedWithin 0))

include carries

theorem id_definition_entryAt (inRange : id < tree.size) :
    (tree.entryAt id).definition.id = firstClass + id := by
  rw [carries.size_eq_length_preorder] at inRange
  exact carries.id_entryAt (List.getElem?_eq_getElem inRange)

/-- Attaching a hook to the classes of some entries does not reach other entries. -/
theorem hookAt?_hookEntries (taken : firstClass + tree.size ≤ store.nextClass)
    (inRange : id < tree.size) (hook : Hook) {ids : List EntryId}
    (idsInRange : ∀ other ∈ ids, other < tree.size) :
    tree.hookAt? (tree.hookEntries hook ids store) id =
      if id ∈ ids then some hook else tree.hookAt? store id := by
  induction ids generalizing store with
  | nil => rfl
  | cons first rest ih =>
      rcases List.forall_mem_cons.mp idsInRange with ⟨firstLt, restLt⟩
      have firstKnown : (tree.entryAt first).definition.id < store.nextClass := by
        rw [carries.id_definition_entryAt firstLt]
        exact Nat.lt_of_lt_of_le (Nat.add_lt_add_left firstLt firstClass) taken
      -- The entries that follow start from a store in which the first one has its hook.
      have stillTaken : firstClass + tree.size ≤
          (store.setHook (tree.entryAt first).definition.id (some hook)).nextClass :=
        (store.nextClass_setHook _ _).symm ▸ taken
      refine (ih stillTaken restLt).trans ?_
      rw [hookAt?, store.hook?_setHook firstKnown]
      have sameClass : (tree.entryAt id).definition.id = (tree.entryAt first).definition.id ↔
          id = first := by
        rw [carries.id_definition_entryAt inRange, carries.id_definition_entryAt firstLt]
        exact Nat.add_left_cancel_iff
      by_cases same : id = first
      · rw [if_pos (sameClass.mpr same), if_pos (List.mem_cons.mpr (.inl same)), ite_self]
      · rw [if_neg (mt sameClass.mp same)]
        simp only [List.mem_cons, same, false_or]
        rfl

theorem lt_size_of_entryId (found : tree.entryId path = .ok start) : start < tree.size :=
  carries.represents.lt_size_of_find? (entryId_eq_ok_iff.mp found).2

/-- A call attaches its hook to what its path covers. -/
theorem hookAt?_attachHook_of_covers (taken : firstClass + tree.size ≤ store.nextClass)
    (hook : Hook) (covers : tree.Covers path id) :
    tree.hookAt? ((tree.attachHook path hook).runOn store).2 id = some hook := by
  rcases covers with ⟨start, found, leads⟩
  have holds := carries.represents
  have startLt := carries.lt_size_of_entryId found
  have listed := (holds.mem_descendants_inclusive_iff startLt).mpr leads
  rw [runOn_attachHook_of_ok found, carries.hookAt?_hookEntries taken
    (holds.lt_size_of_leadsTo startLt leads), if_pos listed]
  exact fun other mem =>
    holds.lt_size_of_leadsTo startLt ((holds.mem_descendants_inclusive_iff startLt).mp mem)

/-- A call leaves the hooks of everything else as they are. -/
theorem hookAt?_attachHook_of_not_covers (taken : firstClass + tree.size ≤ store.nextClass)
    (inRange : id < tree.size) (hook : Hook) (apart : ¬ tree.Covers path id) :
    tree.hookAt? ((tree.attachHook path hook).runOn store).2 id = tree.hookAt? store id := by
  cases found : tree.entryId path with
  | error error => rw [runOn_attachHook_of_error found]
  | ok start =>
      have holds := carries.represents
      have startLt := carries.lt_size_of_entryId found
      rw [runOn_attachHook_of_ok found, carries.hookAt?_hookEntries taken inRange, if_neg]
      · exact fun mem =>
          apart ⟨start, found, (holds.mem_descendants_inclusive_iff startLt).mp mem⟩
      · exact fun other mem =>
          holds.lt_size_of_leadsTo startLt ((holds.mem_descendants_inclusive_iff startLt).mp mem)

end Carries

/-! ## Any number of calls -/

theorem lastAttaches_cons_iff {call : Path × Hook} {calls : List (Path × Hook)} :
    tree.LastAttaches (call :: calls) id hook ↔ tree.LastAttaches calls id hook ∨
      tree.Covers call.1 id ∧ call.2 = hook ∧ ∀ later ∈ calls, ¬ tree.Covers later.1 id := by
  constructor
  · rintro ⟨before, path, after, callsEq, covers, last⟩
    cases before with
    | nil =>
        cases callsEq
        exact .inr ⟨covers, rfl, last⟩
    | cons first before =>
        cases callsEq
        exact .inl ⟨before, path, after, rfl, covers, last⟩
  · rintro (⟨before, path, after, rfl, covers, last⟩ | ⟨covers, rfl, last⟩)
    · exact ⟨call :: before, path, after, rfl, covers, last⟩
    · exact ⟨[], call.1, calls, rfl, covers, last⟩

/-- Some call is the last one that covers an entry as soon as any call covers it. -/
theorem exists_lastAttaches_iff {calls : List (Path × Hook)} :
    (∃ hook, tree.LastAttaches calls id hook) ↔ ∃ call ∈ calls, tree.Covers call.1 id := by
  constructor
  · rintro ⟨hook, before, path, after, rfl, covers, _⟩
    exact ⟨(path, hook), List.mem_append_right before List.mem_cons_self, covers⟩
  · induction calls with
    | nil =>
        rintro ⟨call, mem, _⟩
        cases mem
    | cons first rest ih =>
        rintro ⟨call, mem, covers⟩
        by_cases later : ∃ other ∈ rest, tree.Covers other.1 id
        · rcases ih later with ⟨hook, last⟩
          exact ⟨hook, lastAttaches_cons_iff.mpr (.inl last)⟩
        · rcases List.mem_cons.mp mem with rfl | inRest
          · refine ⟨call.2, lastAttaches_cons_iff.mpr (.inr ⟨covers, rfl, ?_⟩)⟩
            exact fun other otherMem otherCovers => later ⟨other, otherMem, otherCovers⟩
          · exact absurd ⟨call, inRest, covers⟩ later

namespace Carries

variable (carries : Carries loader firstClass document tree (document.placedWithin 0))

include carries

/-- The hook of an entry after some calls is that of the last one that covers it, or else
the one that it had before. -/
theorem hookAt?_attachAll_eq_some_iff (taken : firstClass + tree.size ≤ store.nextClass)
    (inRange : id < tree.size) (calls : List (Path × Hook)) :
    tree.hookAt? (tree.attachAll store calls) id = some hook ↔
      tree.LastAttaches calls id hook ∨
        (∀ call ∈ calls, ¬ tree.Covers call.1 id) ∧ tree.hookAt? store id = some hook := by
  induction calls generalizing store with
  | nil =>
      have noCalls : ¬ tree.LastAttaches [] id hook := by
        rintro ⟨before, path, after, callsEq, _⟩
        exact List.append_ne_nil_of_right_ne_nil before (List.cons_ne_nil _ after) callsEq.symm
      simp [attachAll, noCalls]
  | cons call rest ih =>
      -- The later calls decide unless none of them covers the entry, and then it is as this
      -- call has left it.
      have stillTaken := taken.trans_eq (tree.nextClass_attachHook call.1 call.2 store).symm
      refine (ih stillTaken).trans ?_
      rw [lastAttaches_cons_iff, List.forall_mem_cons]
      by_cases covers : tree.Covers call.1 id
      · rw [carries.hookAt?_attachHook_of_covers taken call.2 covers, Option.some_inj]
        simp only [covers, not_true_eq_false, true_and, false_and, or_false]
        exact or_congr_right and_comm
      · rw [carries.hookAt?_attachHook_of_not_covers taken inRange call.2 covers]
        simp only [covers, not_false_eq_true, true_and, false_and, or_false]

/-- A path that leads to an entry covers everything that inherits from it. -/
theorem covers_of_inherits (found : tree.entryId path = .ok start) (inRange : id < tree.size)
    (inherits : tree.Inherits id start) : tree.Covers path id :=
  ⟨start, found, carries.represents.leadsTo_of_inherits inRange inherits⟩

end Carries

/-- No entry has a hook right after the load. -/
theorem hookAt?_loadRecord {world next : World} {memory last : σ}
    (loaded : world.loadRecord loader document memory = (.ok (), next, last))
    (inRange : id < next.tree.size) : next.tree.hookAt? next.store id = none := by
  rw [hookAt?, World.store_loadRecord loaded, Store.hook?_addClasses,
    (carries_of_loadRecord loaded).id_definition_entryAt inRange]
  exact Store.hook?_eq_none_of_le (Nat.le_add_right _ _)

/-- Attaching a hook in a loaded tree fails without any effect if the path has no entry, and
otherwise answers to how many entries steps down lead.  After any number of such calls the
hook of an entry is that of the last one that covers the entry, and an entry that none of
them covers has no hook.  A path covers whatever inherits from its entry. -/
theorem hookAt?_attachAll_loadRecord {world next : World} {memory last : σ}
    (loaded : world.loadRecord loader document memory = (.ok (), next, last)) :
    (∀ path hook store,
      (next.tree.hasEntry path = false →
        (next.tree.attachHook path hook).runOn store = (.error path.unresolved, store)) ∧
      ∀ start, next.tree.entryId path = .ok start →
        ((next.tree.attachHook path hook).runOn store).1 =
          .ok {id | id < next.tree.size ∧ next.tree.LeadsTo true start id}.ncard) ∧
    (∀ calls id, id < next.tree.size →
      (∀ hook, next.tree.hookAt? (next.tree.attachAll next.store calls) id = some hook ↔
        next.tree.LastAttaches calls id hook) ∧
      (next.tree.hookAt? (next.tree.attachAll next.store calls) id = none ↔
        ∀ call ∈ calls, ¬ next.tree.Covers call.1 id)) ∧
    ∀ path start id, next.tree.entryId path = .ok start → id < next.tree.size →
      next.tree.Inherits id start → next.tree.Covers path id := by
  have carries := carries_of_loadRecord loaded
  refine ⟨?_, ?_, fun path start id => carries.covers_of_inherits⟩
  · intro path hook store
    constructor
    · intro missing
      rcases hasEntry_eq_false_iff.mp missing with ⟨error, failed⟩
      exact runOn_attachHook_of_error failed hook store
    · intro start found
      rw [runOn_attachHook_of_ok found]
      exact congrArg Except.ok
        (carries.represents.length_descendants (carries.lt_size_of_entryId found))
  · intro calls id inRange
    have taken := (World.nextClass_loadRecord loaded).ge
    have someIff (hook : Hook) :
        next.tree.hookAt? (next.tree.attachAll next.store calls) id = some hook ↔
          next.tree.LastAttaches calls id hook := by
      rw [carries.hookAt?_attachAll_eq_some_iff taken inRange, hookAt?_loadRecord loaded inRange]
      simp
    refine ⟨someIff, ?_⟩
    rw [Option.eq_none_iff_forall_ne_some]
    simp only [ne_eq, someIff]
    rw [← not_exists, exists_lastAttaches_iff]
    simp

/-- In the sample a class gets the hook of everything that it inherits from, through
several links as well, and keeps the one that was attached last. -/
theorem hookAt?_attachAll_loadRecord_graveyardDocument :
    (World.start.loadRecord (fileLoader "res") graveyardDocument {}).1 = .ok () ∧
      let next := (World.start.loadRecord (fileLoader "res") graveyardDocument {}).2.1
      let everywhere := (Path.root, Hook.echo)
      let fighters := (Path.parse "/fighter", Hook.inert)
      next.tree.hookAt? (next.tree.attachAll next.store [fighters, everywhere]) 3 = some .echo ∧
        next.tree.hookAt? (next.tree.attachAll next.store [everywhere, fighters]) 3 =
          some .inert := by
  have loaded : World.start.loadRecord (fileLoader "res") graveyardDocument {} =
      (.ok (), (World.start.loadRecord (fileLoader "res") graveyardDocument {}).2) := rfl
  obtain ⟨_, hooks, covers⟩ := hookAt?_attachAll_loadRecord loaded
  refine ⟨rfl, ?_, ?_⟩
  · refine ((hooks _ 3 (by decide)).1 .echo).mpr ⟨[_], _, [], rfl, ?_, ?_⟩
    · exact covers _ 0 3 rfl (by decide) (.head (b := 1) rfl (.single rfl))
    · exact fun call mem => absurd mem List.not_mem_nil
  · refine ((hooks _ 3 (by decide)).1 .inert).mpr ⟨[_], _, [], rfl, ?_, ?_⟩
    · exact covers _ 1 3 rfl (by decide) (.single rfl)
    · exact fun call mem => absurd mem List.not_mem_nil

end Tree

end DreamWorld
