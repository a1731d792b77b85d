import DreamWorld.Proofs.Tree.Declared
import DreamWorld.Proofs.Tree.Loaded

/-!
# Memories of a loader

While a document is loaded, the loader only ever has memories that it can come to from
the one at the start.  So the loaded tree is also the one that is loaded by the same
loader confined to these memories, and what a constant was read as is a value that the
loader gives it with one of them.  A loader that always answers alike reads a constant
as one value only.
-/

namespace DreamWorld

open Document (ClassRecord PlacedRecord)

variable {σ τ α β : Type} {loader : ResourceLoader σ}

namespace ResourceLoader

/-- The memories that a loader can come to from a given one. -/
inductive Reaches (loader : ResourceLoader σ) (start : σ) : σ → Prop
  | start : Reaches loader start start
  | load (path : String) {memory : σ} :
      Reaches loader start memory → Reaches loader start (loader.load path memory).2

/-- A loader confined to the memories that it can come to from a given one. -/
def startedAt (loader : ResourceLoader σ) (start : σ) :
    ResourceLoader { memory // loader.Reaches start memory } where
  load path memory :=
    ((loader.load path memory.1).1, ⟨(loader.load path memory.1).2, .load path memory.2⟩)

/-- A steady loader keeps its memory valid. -/
theorem Reaches.valid {answer : String → Except ResourceError Resource} {valid : σ → Prop}
    (steady : loader.Steady answer valid) {start memory : σ} (validStart : valid start)
    (reached : loader.Reaches start memory) : valid memory := by
  induction reached with
  | start => exact validStart
  | load path _ ih => exact steady.valid_next path _ ih

end ResourceLoader

/-- From a valid memory on, a steady loader reads a constant as the value for its
answers. -/
theorem Constant.Reads.decoded_eq {answer : String → Except ResourceError Resource}
    {valid : σ → Prop} (steady : loader.Steady answer valid) {start : σ}
    (validStart : valid start) {constant : Json.Value} {value : Value}
    (reads : Constant.Reads (loader.startedAt start) constant value) :
    Constant.decoded answer constant = .ok value := by
  have confined : (loader.startedAt start).Steady answer fun _ => True :=
    ⟨fun path memory _ => steady.answer_eq path memory.1 (memory.2.valid steady validStart),
      fun _ _ _ => trivial⟩
  rcases reads with ⟨memory, last, run⟩
  rcases confined.run_decode trivial constant with ⟨_, _, decoded⟩
  rw [run] at decoded
  exact (congrArg Prod.fst decoded).symm

/-! ## Loading with a view of the memory -/

/-- The first action does with its memory what the second one does with a view of it. -/
def LoadAction.Views (view : τ → σ) (action : LoadAction τ α) (seen : LoadAction σ α) : Prop :=
  ∀ memory, seen.run (view memory) = ((action.run memory).1, view (action.run memory).2)

namespace LoadAction.Views

variable {view : τ → σ}

theorem bind {action : LoadAction τ α} {seen : LoadAction σ α} {next : α → LoadAction τ β}
    {seenNext : α → LoadAction σ β} (first : Views view action seen)
    (second : ∀ value, Views view (next value) (seenNext value)) :
    Views view (action >>= next) (seen >>= seenNext) := by
  intro memory
  have run := first memory
  rcases outcome : action.run memory with ⟨_ | value, middle⟩
  · rw [outcome] at run
    rw [run_bind_of_error run, run_bind_of_error outcome]
  · rw [outcome] at run
    rw [run_bind_of_ok run, run_bind_of_ok outcome]
    exact second value middle

theorem foldlM {step : β → α → LoadAction τ β} {seenStep : β → α → LoadAction σ β}
    (turn : ∀ state item, Views view (step state item) (seenStep state item))
    (items : List α) (start : β) :
    Views view (items.foldlM step start) (items.foldlM seenStep start) := by
  induction items generalizing start with
  | nil => exact fun _ => rfl
  | cons item rest ih => exact (turn start item).bind ih

variable {confined : ResourceLoader τ}
  (load_view : ∀ path memory, loader.load path (view memory) =
    ((confined.load path memory).1, view (confined.load path memory).2))

include load_view

theorem loadResource (path : String) :
    Views view (Constant.loadResource confined path) (Constant.loadResource loader path) := by
  intro memory
  unfold Constant.loadResource ExceptT.run
  simp only [load_view]
  rcases confined.load path memory with ⟨_ | _, _⟩ <;> rfl

theorem ofMembers (members : Keyed Json.Value) :
    Views view (Constant.ofMembers confined members) (Constant.ofMembers loader members) := by
  unfold Constant.ofMembers
  split
  · exact fun _ => rfl
  · split
    · split
      · exact (loadResource load_view _).bind fun _ _ => rfl
      all_goals exact fun _ => rfl
    · split
      · exact fun _ => rfl
      · split
        · split <;> exact fun _ => rfl
        · exact fun _ => rfl

theorem decode (constant : Json.Value) :
    Views view (Constant.decode confined constant) (Constant.decode loader constant) := by
  cases constant with
  | object members => exact ofMembers load_view members
  | text | number | null | bool | array => exact fun _ => rfl

theorem loadMembers (definition : Definition) (record : ClassRecord) :
    Views view (definition.loadMembers confined record) (definition.loadMembers loader record) := by
  unfold Definition.loadMembers
  apply bind
  · exact foldlM (fun _ _ => (decode load_view _).bind fun _ _ => rfl) _ definition
  · intro withVars
    apply bind
    · exact foldlM (fun _ _ => (decode load_view _).bind fun _ _ => rfl) _ withVars
    · exact fun _ _ => rfl

theorem loadRecord (firstClass : ClassId) (tree : Tree) (placed : PlacedRecord) :
    Views view (Tree.loadRecord confined firstClass tree placed)
      (Tree.loadRecord loader firstClass tree placed) := by
  unfold Tree.loadRecord
  dsimp only
  split
  · exact fun _ => rfl
  · apply bind
    · exact fun _ => rfl
    · intro named
      apply (loadMembers load_view _ placed.record).bind
      intro definition
      split <;> exact fun _ => rfl

theorem ofRecord (firstClass : ClassId) (document : ClassRecord) :
    Views view (Tree.ofRecord confined firstClass document)
      (Tree.ofRecord loader firstClass document) := by
  unfold Tree.ofRecord
  split
  · exact fun _ => rfl
  · apply (loadMembers load_view _ document).bind
    intro definition
    exact foldlM (loadRecord load_view firstClass) _ _

end LoadAction.Views

/-- A loaded tree carries the records as the confined loader loads them. -/
theorem Tree.carries_startedAt {document : ClassRecord} {world next : World} {memory last : σ}
    (loaded : world.loadRecord loader document memory = (.ok (), next, last)) :
    Carries (loader.startedAt memory) world.store.nextClass document next.tree
      (document.placedWithin 0) := by
  unfold World.loadRecord at loaded
  split at loaded
  · rename_i result middle run
    cases loaded
    rcases LoadAction.run_bind_eq_ok_iff.mp run with ⟨tree, _, treeRun, stored⟩
    cases stored
    have load_view (path : String) (reached : { memory' // loader.Reaches memory memory' }) :
        loader.load path reached.1 = (((loader.startedAt memory).load path reached).1,
          ((loader.startedAt memory).load path reached).2.1) := rfl
    have seen := LoadAction.Views.ofRecord load_view world.store.nextClass document
      ⟨memory, .start⟩
    rcases confinedRun : (ofRecord (loader.startedAt memory) world.store.nextClass document).run
      ⟨memory, .start⟩ with ⟨outcome, final⟩
    rw [confinedRun, treeRun] at seen
    cases seen
    exact carries_of_run_ofRecord confinedRun
  · cases loaded

end DreamWorld
