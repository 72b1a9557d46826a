import BulkEdit.Run.Recipe

/-!
# The whole of a run

Arguments are read, the codemod runs, and its commands are applied to the tree, or as previews in a
dry run.
-/

namespace BulkEdit

/-- What a run has produced. -/
structure RunReport where
  commands : List FileCommand
  previews : List Preview
  errors : List ExecutionError
  messages : List Message
deriving DecidableEq, Repr

namespace Run

/-- Applies a command in the given mode; gives the preview that was written. -/
def apply (mode : RunMode) (c : FileCommand) : Run (Option Preview) := fun w =>
  match c.apply mode w.tree with
  | (.ok preview, tree) => .ok preview { w with tree }
  | (.error e, tree) => .error (.tree e) { w with tree }

/-- Applies commands in order; gives the previews that were written. -/
def applyAll (mode : RunMode) : List FileCommand → Run (List Preview)
  | [] => pure []
  | c :: rest => do
    let preview ← apply mode c
    return preview.toList ++ (← applyAll mode rest)

/-- Runs a codemod on raw arguments and applies its commands. The report is on this run alone. -/
def report (tools : Toolset) (d : Descriptor) (flow : Flow) (mode : RunMode)
    (raw : String → Option String) : Run RunReport := do
  modify fun w => { w with events := [] }
  let arguments ← require .config (ArgumentRecord.build d.arguments raw)
  codemod tools d flow mode arguments
  let events := (← get).events
  let commands := events.filterMap Event.command?
  let previews ← applyAll mode commands
  pure {
    commands
    previews
    errors := events.filterMap Event.error?
    messages := events.filterMap Event.message? }

end Run

end BulkEdit
