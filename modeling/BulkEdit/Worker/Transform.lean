import BulkEdit.Json.Basic
import BulkEdit.Report.Message
import BulkEdit.Settings.Argument
import BulkEdit.Worker.Error

/-!
# Transforms

A transform is code that is given one file at a time. It may write to the console, ask for new
files, and give the file a new text.
-/

namespace BulkEdit

/-- A file as a transform sees it. -/
structure SourceFile where
  path : Path
  source : String
deriving DecidableEq, Repr

/-- What a transform is given: the file, the engine and the codemod it runs for, and the arguments. -/
structure Assignment extends SourceFile where
  engine : Engine
  codemodName : String
  arguments : ArgumentRecord
deriving Repr

/-- How the work on a file ends, if it ends. -/
inductive Ending where
  | returned (value : Option Json)
  | failed (e : SandboxError)
  | hangs
deriving Repr

/-- What a transform does on one file. -/
structure Execution where
  console : List (ConsoleKind × String) := []
  created : List (Path × String) := []
  ending : Ending
deriving Repr

/-- A transform that runs inside the program. It depends on nothing but what it is given. -/
abbrev Transform := Assignment → Execution

/-- What the value that a transform returned asks for. -/
inductive Verdict where
  | changed (source : String)
  | unchanged
  | skipped
deriving DecidableEq, Repr

namespace Verdict

def typeName : Json → String
  | .null => "null"
  | .bool _ => "boolean"
  | .int _ => "number"
  | .real _ => "number"
  | .str _ => "string"
  | .arr _ => "array"
  | .obj _ => "object"
  | .unreadable => "undefined"
  | .partly _ _ => "undefined"

/-- Only a text, null or nothing may be returned. -/
def ofValue : Option Json → Except SandboxError Verdict
  | none => .ok unchanged
  | some .null => .ok skipped
  | some (.str source) => .ok (changed source)
  | some other =>
    .error (.validation ("Expected string | undefined | null, received " ++ typeName other))

end Verdict

end BulkEdit
