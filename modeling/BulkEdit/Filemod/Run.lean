import BulkEdit.Filemod.Lifecycle
import BulkEdit.Report.Event

/-!
# Running filemods

A filemod runs on a list of files. In its report the changes become file commands, and what was
noted becomes messages.
-/

namespace BulkEdit

/-- How many files have been handled, and how many there seem to be. -/
structure FilemodTally where
  handled : List Route := []
  total : Nat

namespace FilemodTally

/-- The tally after a file has been handled, which may have been handled before. -/
def add (t : FilemodTally) (path : Path) : FilemodTally :=
  let handled := if t.handled.contains path.route then t.handled else path.route :: t.handled
  { handled, total := max t.total handled.length }

end FilemodTally

def Notice.events (codemodName : Option String) : FilemodTally → List Notice → List Event
  | _, [] => []
  | t, .handled path :: rest =>
    let t := t.add path
    .message (.progress {
      codemodName
      processed := t.handled.length
      total := t.total
      file := some path }) :: events codemodName t rest
  | t, .failed path message :: rest =>
    Event.failure codemodName path message ++ events codemodName t rest

/-- What a run of a filemod leaves: how it ended, the commands for its changes, what it told and the
calls that were made. -/
structure FilemodOutcome where
  result : Except Halt Unit
  commands : List FileCommand
  notices : List Notice
  calls : List HookCall

namespace Filemod

/-- How deep commands may lead to further commands in a run. -/
def maxDepth : Nat := 4096

/-- Runs a filemod over a tree. -/
def outcome (f : Filemod) (tree : FileTree) (root : Path) (paths : Option (List Path))
    (arguments : ArgumentRecord) (format : Bool) : FilemodOutcome :=
  match f.execute root paths arguments maxDepth { overlay := Overlay.ofTree tree } with
  | .ok () s => ⟨.ok (), s.overlay.commands format, s.notices, s.calls⟩
  | .error halt s => ⟨.error halt, s.overlay.commands format, s.notices, s.calls⟩

end Filemod

end BulkEdit
