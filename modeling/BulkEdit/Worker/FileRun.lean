import BulkEdit.Command.Basic
import BulkEdit.Path.Route
import BulkEdit.Source.Normalizer
import BulkEdit.Worker.Transform

/-!
# From transforms to file commands

What a transform did on a file is turned into file commands. A change of a script that comes to the
same program, up to redundant parentheses, is no change.
-/

namespace BulkEdit

/-- What is the same for all files of a run. -/
structure FileRun where
  engine : Engine
  arguments : ArgumentRecord
  format : Bool
  normalizer : Normalizer

namespace FileRun

/-- Where a created file goes: relative paths are taken from the folder of the transformed file. -/
def createdPath (file created : Path) : Path :=
  if created.isAbsolute then created
  else
    match file.folder? with
    | some folder => folder.join created
    | none => created

/-- Whether a new text is worth an update. -/
def isChange (run : FileRun) (old new : String) : Bool :=
  new ≠ old && !(run.engine.isScriptFamily && run.normalizer.equivalent old new)

def creations (run : FileRun) (file : SourceFile) (created : List (Path × String)) :
    List FileCommand :=
  created.map fun (path, data) => .create (createdPath file.path path) data run.format

/-- The command for the file itself. -/
def updates (run : FileRun) (file : SourceFile) : Verdict → List FileCommand
  | .changed source =>
    if run.isChange file.source source then [.update file.path file.source source run.format]
    else []
  | .unchanged => []
  | .skipped => []

/-- The commands that an execution asks for, or why it failed; nothing if it never ends. -/
def commands? (run : FileRun) (file : SourceFile) (e : Execution) :
    Option (Except SandboxError (List FileCommand)) :=
  match e.ending with
  | .hangs => none
  | .failed error => some (.error error)
  | .returned value =>
    match Verdict.ofValue value with
    | .error error => some (.error error)
    | .ok verdict => some (.ok (run.creations file e.created ++ run.updates file verdict))

end FileRun

end BulkEdit
