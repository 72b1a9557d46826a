import BulkEdit.Command.Basic
import BulkEdit.Report.Message

/-!
# Events

Everything that a run produces, in order. Commands stand in events as they are after formatting.
-/

namespace BulkEdit

/-- A file that a codemod failed on. -/
structure ExecutionError where
  codemodName : String
  filePath : Path
  message : String
deriving DecidableEq, Repr

namespace ExecutionError

def ofJson? (value : Json) : Option ExecutionError := do
  let ms ← Json.record? ["codemodName", "filePath", "message"] [] value
  pure {
    codemodName := ← Json.field? ms "codemodName" Json.text?
    filePath := ⟨← Json.field? ms "filePath" Json.text?⟩
    message := ← Json.field? ms "message" Json.text? }

def toJson (e : ExecutionError) : Json :=
  .obj [("codemodName", .str e.codemodName), ("filePath", .str e.filePath.text),
    ("message", .str e.message)]

end ExecutionError

/-- What a codemod has done when it is through; `recipeName` is set for a recipe and its steps. -/
structure Success where
  codemodName : Option String
  recipeName : Option String
  commands : List FileCommand
deriving DecidableEq, Repr

/-- Something that a run produces. -/
inductive Event where
  | command (c : FileCommand)
  | message (m : Message)
  | error (e : ExecutionError)
  | success (s : Success)
deriving DecidableEq, Repr

namespace Event

def console (kind : ConsoleKind) (message : String) : Event :=
  .message (.console kind message)

/-- The two events that tell of a file that failed. -/
def failure (codemodName : Option String) (path : Path) (message : String) : List Event :=
  [.message (.error (some path) message), .error ⟨codemodName.getD "", path, message⟩]

def command? : Event → Option FileCommand
  | command c => some c
  | _ => none

def message? : Event → Option Message
  | message m => some m
  | _ => none

def error? : Event → Option ExecutionError
  | error e => some e
  | _ => none

end Event

end BulkEdit
