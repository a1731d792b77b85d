import DreamWorld.Proofs.Tree.Steps
import DreamWorld.Proofs.World.Changes

/-!
# What steps are made of

A relation between stores that holds across every single change holds across any step in a world,
so it holds across whole runs.  If it holds across some writes of variables only, it holds across
the steps that write no others.
-/

namespace DreamWorld.Tree

open DreamWorld.Action

variable {relation : Store → Store → Prop} [IsPreorder Store relation]
  (permits : Store.Permits relation) (tree : Tree)

/-- The step writes a variable of an object, with success or not: it does so on its own, or it
assigns to the name of a variable that the object has. -/
inductive Step.Targets (store : Store) (ref : ObjectRef) (name : String) (value : Value) :
    Step → Prop
  | setVariable : Targets store ref name value (.setVariable ref name value)
  | assign (frame : Frame) {object : Object} : Location.Alive store ref object →
      object.vars.has name = true →
      Targets store ref name value (.assign frame (.variable ref name) value)

include permits

omit [IsPreorder Store relation] in
theorem related_hookEntries (hook : Hook) (ids : List EntryId) (store : Store) :
    relation store (tree.hookEntries hook ids store) := by
  have onlyHooks : tree.hookEntries hook ids store =
      { store with hooks := (tree.hookEntries hook ids store).hooks } := by
    unfold hookEntries
    induction ids generalizing store with
    | nil => rfl
    | cons id rest ih => exact ih _
  rw [onlyHooks]
  exact permits.setHooks store _

theorem respects_attachHook (path : Path) (hook : Hook) :
    Respects relation (tree.attachHook path hook) := by
  refine Respects.bind (respects_ofExcept _) fun id => ?_
  refine Respects.bind ?_ fun _ => respects_pure _
  exact respects_modify fun store => related_hookEntries permits tree hook _ store

theorem respects_attachBuiltins : Respects relation tree.attachBuiltins := by
  unfold attachBuiltins
  split
  · exact (respects_attachHook permits tree _ _).bind fun _ => respects_pure ()
  · exact respects_pure ()

theorem respects_create (path : Path) (arguments : Arguments) :
    Respects relation (tree.create path arguments) := by
  have classFound : Respects relation (tree.classFor path) := by
    intro store
    rcases tree.runOn_classFor store path with ⟨id, _, run⟩ | run | ⟨error, run⟩ <;> rw [run]
    · exact refl_of relation store
    · exact permits.setHooks store _
    · exact refl_of relation store
  exact classFound.bind fun definition => Action.respects_create permits definition arguments

/-- A relation that holds across every single change, and across the write of a variable that a
step may be, holds across the step. -/
theorem related_after (store : Store) {step : Step}
    (writes : ∀ ref name value, step.Targets store ref name value →
      relation store ((Object.setVariable ref name value).runOn store).2) :
    relation store (tree.after store step) := by
  cases step with
  | create path arguments => exact respects_create permits tree path arguments store
  | attachHook path hook => exact respects_attachHook permits tree path hook store
  | attachHookTo id hook => exact permits.setHooks store _
  | delete ref => exact respects_delete permits ref store
  | setVariable ref name value => exact writes ref name value .setVariable
  | changeList ref change => exact respects_modifyList permits ref change store
  | operate operator a b => exact respects_apply permits operator a b store
  | read frame location => exact respects_read permits frame location store
  | assign frame location value =>
      by_cases named : ∃ ref name, location = .variable ref name
      · rcases named with ⟨ref, name, rfl⟩
        exact related_assign_variable permits ref name value frame
          fun object alive has => writes ref name value (.assign frame alive has)
      · exact respects_assign_of_ne permits value frame
          (fun ref name same => named ⟨ref, name, same⟩) store

end DreamWorld.Tree
