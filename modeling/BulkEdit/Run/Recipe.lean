import BulkEdit.Command.Apply
import BulkEdit.Run.Codemod
import BulkEdit.Run.Snapshot

/-!
# Running recipes

For real, the steps run one after another and the commands of each are applied before the next
begins. As a dry run, the steps run the same way on a scratch copy of the selected files, and in the
end the commands are those that turn the selected files into what the copy holds.
-/

namespace BulkEdit

/-- How messages of a step reach the user: as they are, or with their figures spread over all
steps of a dry run. -/
inductive Relay where
  | forward
  | simulate (index steps total : Nat)
deriving DecidableEq, Repr

namespace Relay

/-- The progress that is shown for a step's progress. -/
def progress (relay : Relay) (step : Codemod) (p : Progress) : Progress :=
  match relay with
  | forward => { p with codemodName := step.name }
  | simulate index steps total =>
    { p with
      codemodName := step.name
      processed := total * index + p.processed
      total := total * steps }

/-- The message that is passed on for a step's message; a dry run has one end of its own. -/
def message? (relay : Relay) (step : Codemod) : Message → Option Message
  | .progress p => some (.progress (relay.progress step p))
  | .finish =>
    match relay with
    | forward => some .finish
    | simulate _ _ _ => none
  | m => some m

/-- The event that is passed on for a step's event; commands and successes are the recipe's
business. -/
def event? (relay : Relay) (step : Codemod) : Event → Option Event
  | .command _ => none
  | .message m => (relay.message? step m).map .message
  | .error e => some (.error e)
  | .success _ => none

end Relay

namespace Run

/-- Runs a part on its own; gives its commands and passes on the rest of its events, also when it
fails. -/
def capturing (relay : Event → Option Event) (part : Run Unit) : Run (List FileCommand) := fun w =>
  match part { w with events := [] } with
  | .ok () w' =>
    .ok (w'.events.filterMap Event.command?)
      { w' with events := w.events ++ w'.events.filterMap relay }
  | .error e w' => .error e { w' with events := w.events ++ w'.events.filterMap relay }

def applyWet (c : FileCommand) : Run Unit := fun w =>
  match c.applyWet w.tree with
  | (.ok (), tree) => .ok () { w with tree }
  | (.error e, tree) => .error (.tree e) { w with tree }

def step (tools : Toolset) (flow : Flow) (arguments : ArgumentRecord) (relay : Relay)
    (codemod : Codemod) : Run (List FileCommand) := do
  let commands ← capturing (relay.event? codemod) (single tools codemod flow arguments)
  commands.forM applyWet
  pure commands

/-- Runs the steps of a recipe for real; gives the commands of all of them. -/
def wetSteps (tools : Toolset) (flow : Flow) (arguments : ArgumentRecord)
    (recipeName : Option String) : List Codemod → Run (List FileCommand)
  | [] => pure []
  | codemod :: rest => do
    let commands ← step tools flow arguments .forward codemod
    emit [.success ⟨codemod.name, recipeName, commands⟩]
    return commands ++ (← wetSteps tools flow arguments recipeName rest)

def wetRecipe (tools : Toolset) (recipe : Descriptor) (flow : Flow) (arguments : ArgumentRecord) :
    Run Unit := do
  let commands ← wetSteps tools flow arguments recipe.name recipe.steps
  emit [.success ⟨recipe.name, recipe.name, commands⟩]

/-- Runs a part on another tree; gives what it leaves there. -/
def onScratch {α : Type} (scratch : FileTree) (part : Run α) : Run (α × FileTree) := fun w =>
  match part { w with tree := scratch } with
  | .ok a w' => .ok (a, w'.tree) { w' with tree := w.tree }
  | .error e w' => .error e { w' with tree := w.tree }

/-- The path that a command removes. -/
def removed? : FileCommand → Option Path
  | .delete oldPath => some oldPath
  | .move oldPath _ => some oldPath
  | _ => none

/-- Runs the steps of a recipe on a scratch tree, the first of them with the given index; gives the
paths that were removed on the way. -/
def drySteps (tools : Toolset) (flow : Flow) (arguments : ArgumentRecord) (steps total : Nat) :
    Nat → List Codemod → Run (List Path)
  | _, [] => pure []
  | index, codemod :: rest => do
    let commands ← step tools flow arguments (.simulate index steps total) codemod
    return commands.filterMap removed? ++
      (← drySteps tools flow arguments steps total (index + 1) rest)

def dryRecipe (tools : Toolset) (recipe : Descriptor) (flow : Flow) (arguments : ArgumentRecord) :
    Run Unit := do
  let (_, matcher) ← selection flow recipe.toCodemod none none
  let tree ← tree
  match ← require .tree (matcher.collect tree flow.target) with
  | [] => noFiles flow
  | paths =>
    let (snapshot, scratch) := Snapshot.capture tree (∅, .empty) paths
    let (removed, scratch) ← onScratch scratch
      (drySteps tools flow arguments recipe.steps.length snapshot.size 0 recipe.steps)
    let commands := snapshot.diff (.ofList removed) (.ofTree scratch) flow.format
    emit ((tools.formatters.formatCommands commands).map .command)
    emit [.message .finish]

/-- Runs a codemod or recipe. -/
def codemod (tools : Toolset) (d : Descriptor) (flow : Flow) (mode : RunMode)
    (arguments : ArgumentRecord) : Run Unit :=
  if d.engine = .recipe then
    if mode.isDry then dryRecipe tools d flow arguments else wetRecipe tools d flow arguments
  else single tools d.toCodemod flow arguments

end Run

end BulkEdit
