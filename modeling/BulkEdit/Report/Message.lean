import BulkEdit.Json.Record
import BulkEdit.Path.Basic

/-!
# Messages

What a run tells its user while it works.
-/

namespace BulkEdit

/-- How urgent a line of console output is. -/
inductive ConsoleKind where
  | debug
  | error
  | info
  | log
  | trace
  | warn
deriving DecidableEq, Repr

namespace ConsoleKind

def name : ConsoleKind → String
  | debug => "debug"
  | error => "error"
  | info => "info"
  | log => "log"
  | trace => "trace"
  | warn => "warn"

def ofName? : String → Option ConsoleKind
  | "debug" => some debug
  | "error" => some error
  | "info" => some info
  | "log" => some log
  | "trace" => some trace
  | "warn" => some warn
  | _ => none

theorem ofName?_name (k : ConsoleKind) : ofName? k.name = some k := by
  cases k <;> rfl

def ofJson? (value : Json) : Option ConsoleKind :=
  value.choice?.bind ofName?

def toJson (k : ConsoleKind) : Json :=
  .str k.name

end ConsoleKind

/-- How far a run has come: the file just done, and how many of how many that makes. -/
structure Progress where
  codemodName : Option String
  processed : Nat
  total : Nat
  file : Option Path
deriving DecidableEq, Repr

/-- A message to the user. -/
inductive Message where
  | error (path : Option Path) (message : String)
  | progress (p : Progress)
  | finish
  | console (kind : ConsoleKind) (message : String)
deriving DecidableEq, Repr

namespace Message

def path? (value : Json) : Option Path :=
  value.text?.map Path.mk

def ofJson? (value : Json) : Option Message := do
  let (tag, body) ← Json.tagged? "kind" value
  match tag with
  | .str "error" =>
    let ms ← Json.record? ["path", "message"] [] body
    pure (error (← Json.nullableField? ms "path" path?) (← Json.field? ms "message" Json.text?))
  | .str "progress" =>
    let fields := ["codemodName", "processedFileNumber", "totalFileNumber", "processedFileName"]
    let ms ← Json.record? fields [] body
    pure (progress {
      codemodName := ← Json.nullableField? ms "codemodName" Json.text?
      processed := ← Json.field? ms "processedFileNumber" Json.count?
      total := ← Json.field? ms "totalFileNumber" Json.count?
      file := ← Json.nullableField? ms "processedFileName" path? })
  | .str "finish" => body.nothing?.map fun _ => finish
  | .str "console" =>
    let ms ← Json.record? ["consoleKind", "message"] [] body
    pure (console (← Json.field? ms "consoleKind" ConsoleKind.ofJson?)
      (← Json.field? ms "message" Json.text?))
  | _ => none

def toJson : Message → Json
  | error path message =>
    .obj [("kind", .str "error"), ("path", Json.ofOption (fun p => .str p.text) path),
      ("message", .str message)]
  | progress p =>
    .obj [("kind", .str "progress"), ("codemodName", Json.ofOption .str p.codemodName),
      ("processedFileNumber", .int p.processed), ("totalFileNumber", .int p.total),
      ("processedFileName", Json.ofOption (fun p => .str p.text) p.file)]
  | finish => .obj [("kind", .str "finish")]
  | console kind message =>
    .obj [("kind", .str "console"), ("consoleKind", kind.toJson), ("message", .str message)]

end Message

end BulkEdit
