import BulkEdit.Run.Codemod

/-!
# Parts of a run

A property of parts of a run that the smallest parts have, and that parts put together have if each of them
does, is a property of every codemod that is no recipe (`Partwise.single`). Only how the code of a codemod
is found is left to the property.
-/

namespace BulkEdit.Run

/-- A property that the smallest parts of a run have, and that is kept when parts are put together. -/
structure Partwise (P : (α : Type) → Run α → Prop) : Prop where
  pure {α : Type} (a : α) : P α (pure a)
  throw {α : Type} (e : RunError) : P α (throw e)
  bind {α β : Type} {x : Run α} {f : α → Run β} : P α x → (∀ a, P β (f a)) → P β (x >>= f)
  tree : P FileTree tree
  emit (events : List Event) : P Unit (emit events)
  record (calls : List HookCall) : P Unit (modify fun w => { w with calls := w.calls ++ calls })

namespace Partwise

variable {P : (α : Type) → Run α → Prop} {tools : Toolset} {codemod : Codemod} {flow : Flow}
  {arguments : ArgumentRecord}

theorem require (h : Partwise P) {ε α : Type} (wrap : ε → RunError) (x : Except ε α) :
    P α (Run.require wrap x) := by
  cases x with
  | ok a => exact h.pure a
  | error e => exact h.throw _

theorem selection (h : Partwise P) (ruleSource : Option String) (included : Option (List String)) :
    P _ (selection flow codemod ruleSource included) :=
  h.bind h.tree fun _ => h.bind (h.require _ _) fun _ => h.bind (h.require _ _) fun _ => h.pure _

theorem perFile (h : Partwise P) (htransform : ∀ source, P Module (transform tools codemod source)) :
    P Unit (perFile tools codemod flow arguments) := by
  refine h.bind (h.require _ _) fun source => h.bind (htransform source) fun module => ?_
  refine h.bind (h.selection _ _) fun (patterns, matcher) => h.bind h.tree fun tree => ?_
  dsimp only
  split
  · exact h.emit _
  · exact h.emit _
  · exact h.bind (h.emit _) fun _ => h.bind (h.require _ _) fun _ => h.bind (h.emit _) fun _ => h.emit _

theorem wholeTree (h : Partwise P) (hfilemod : P Filemod (filemod tools codemod)) :
    P Unit (wholeTree tools codemod flow arguments) := by
  refine h.bind (h.require _ _) fun _ => h.bind hfilemod fun filemod => ?_
  refine h.bind (h.selection _ _) fun (patterns, matcher) => h.bind h.tree fun tree => ?_
  refine h.bind (h.require _ _) fun paths => ?_
  split
  · exact h.emit _
  · exact h.bind (h.emit _) fun _ => h.bind (h.record _) fun _ => h.bind (h.emit _) fun _ =>
      h.bind (h.require _ _) fun _ => h.bind (h.emit _) fun _ => h.emit _

/-- **A codemod that is no recipe** has the property if its code is found with it. -/
theorem single (h : Partwise P)
    (htransform : codemod.engine.isPerFile = true → ∀ source, P Module (transform tools codemod source))
    (hfilemod : P Filemod (filemod tools codemod)) :
    P Unit (single tools codemod flow arguments) := by
  unfold Run.single
  cases hengine : codemod.engine <;> rw [hengine] at htransform
  case piranha => exact h.throw _
  case recipe => exact h.pure _
  case filemod => exact h.wholeTree hfilemod
  all_goals exact h.perFile (htransform rfl)

end Partwise

end BulkEdit.Run
