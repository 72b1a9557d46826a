import BulkEdit.Json.Printer
import BulkEdit.Json.Reader
import BulkEdit.Json.Record
import BulkEdit.Text.Blank
import BulkEdit.Text.Search
import BulkEdit.Worker.Transform

/-!
# Transforms in child processes

Host and child exchange one JSON object a line: the host first says what is to be run and then hands
over one file at a time; the child answers with any number of lines, of which the last for a file
tells its result. Lines that are not read while one file is worked on are there for the next. A
child is described by what it writes: one batch of lines in answer to each line that it hears.
-/

namespace BulkEdit

/-- What a child says. -/
inductive WorkerMessage where
  | ready
  | initError (message : String)
  | console (kind : ConsoleKind) (message : String)
  | createFile (path : Path) (data : String)
  | result (value : Option Json)
  | error (message : String)
deriving Repr

namespace WorkerMessage

/-- A message from JSON; a result without a value differs from one with the value null. -/
def ofJson? (value : Json) : Option WorkerMessage := do
  let (tag, body) ← Json.tagged? "kind" value
  match tag with
  | .str "ready" => body.nothing?.map fun _ => ready
  | .str "initError" =>
    let ms ← Json.record? ["message"] [] body
    pure (initError (← Json.field? ms "message" Json.text?))
  | .str "console" =>
    let ms ← Json.record? ["consoleKind", "message"] [] body
    pure (console (← Json.field? ms "consoleKind" ConsoleKind.ofJson?)
      (← Json.field? ms "message" Json.text?))
  | .str "createFile" =>
    let ms ← Json.record? ["path", "data"] [] body
    pure (createFile (← Json.field? ms "path" Message.path?) (← Json.field? ms "data" Json.text?))
  | .str "result" =>
    let ms ← Json.record? ["value"] ["value"] body
    pure (result (← Json.optional? ms "value"))
  | .str "error" =>
    let ms ← Json.record? ["message"] [] body
    pure (error (← Json.field? ms "message" Json.text?))
  | _ => none

/-- The message that a line holds, blanks around it aside. -/
def ofLine? (line : String) : Option WorkerMessage :=
  (Json.parse? (Text.trim line)).bind ofJson?

end WorkerMessage

/-- What a child writes: some lines when it has been told what to run, then one batch for each file;
after the last batch it either falls silent for ever or ends. -/
structure ChildScript where
  init : List String
  runs : List (List String)
  hang : Bool
deriving DecidableEq, Repr

/-- A running child. -/
structure Child where
  /-- The lines that were written and not yet read. -/
  pending : List String := []
  /-- What is still to be written, a batch for each line heard. -/
  batches : List (List String)
  hang : Bool
  /-- The lines that the child has taken down. -/
  heard : List String := []
deriving DecidableEq, Repr

namespace Child

/-- A child that has heard nothing yet. -/
def start (script : ChildScript) : Child :=
  { batches := script.init :: script.runs, hang := script.hang }

/-- Says a line to the child. One that has written all its batches no longer listens. -/
def hear (child : Child) (line : String) : Child :=
  match child.batches with
  | [] => child
  | batch :: rest =>
    { child with
      pending := child.pending ++ batch.flatMap fun s =>
        (Text.pieces '\n' s.toList).map String.ofList
      batches := rest
      heard := child.heard ++ [line] }

/-- What comes after the pending lines: the end of the output, or nothing at all. -/
def after (child : Child) : Ending :=
  if child.batches.isEmpty && !child.hang then .failed .exited else .hangs

/-- The pending lines from the first that is not blank. -/
def nextLines : List String → List String :=
  List.dropWhile fun line => Text.trim line == ""

/-- The line that tells a child what to run. -/
def greeting (engine : Engine) (entryPath : Path) (source : String) : String :=
  (Json.obj [("kind", .str "initialization"), ("engine", engine.toJson),
    ("entryPath", .str entryPath.text), ("source", .str source)]).render

def request (a : Assignment) : String :=
  (Json.obj [("kind", .str "runCodemod"), ("path", .str a.path.text), ("data", .str a.source),
    ("arguments", a.arguments.toJson)]).render

/-- Tells the child what to run and waits until it is ready. -/
def greet (child : Child) (line : String) : Except SandboxError Unit × Child :=
  let child := child.hear line
  match nextLines child.pending with
  | [] =>
    let result := match child.after with
      | .failed e => .error e
      | _ => .error (.unexpectedMessage "no answer after initialization")
    (result, { child with pending := [] })
  | answer :: rest =>
    let result := match WorkerMessage.ofLine? answer with
      | some .ready => .ok ()
      | some (.initError message) => .error (.missingExport message)
      | some _ => .error (.unexpectedMessage "expected ready or initError after initialization")
      | none => .error (.unreadableMessage answer)
    (result, { child with pending := rest })

/-- Follows the lines on a file up to the one that ends it; gives the lines after it too. -/
def attend (after : Ending) : List String → Execution × List String
  | [] => ({ ending := after }, [])
  | line :: rest =>
    if Text.trim line = "" then attend after rest
    else
      match WorkerMessage.ofLine? line with
      | some (.console kind message) =>
        let (e, left) := attend after rest
        ({ e with console := (kind, message) :: e.console }, left)
      | some (.createFile path data) =>
        let (e, left) := attend after rest
        ({ e with created := (path, data) :: e.created }, left)
      | some (.result value) => ({ ending := .returned value }, rest)
      | some (.error message) => ({ ending := .failed (.execution message) }, rest)
      | some .ready => (lifecycle, rest)
      | some (.initError _) => (lifecycle, rest)
      | none => ({ ending := .failed (.unreadableMessage line) }, rest)
where
  /-- A message that has no place here. -/
  lifecycle : Execution :=
    { ending := .failed (.unexpectedMessage "unexpected lifecycle message while running") }

/-- Hands a file over and follows the work on it. -/
def execute (child : Child) (a : Assignment) : Execution × Child :=
  let child := child.hear (request a)
  let (e, left) := attend child.after child.pending
  (e, { child with pending := left })

end Child

end BulkEdit
