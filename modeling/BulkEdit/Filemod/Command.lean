import BulkEdit.Json.Record
import BulkEdit.Path.Basic

/-!
# Commands of filemods

The commands with which a filemod steers its way through a tree.
-/

namespace BulkEdit

/-- What a handler of a filemod asks for. -/
inductive FilemodCommand where
  | handleDirectory (path : Path)
  | handleFile (path : Path)
  /-- Reads the file and passes its content on. -/
  | upsertFile (path : Path)
  | deleteFile (path : Path)
  | moveFile (oldPath newPath : Path)
  | upsertData (path : Path) (data : String)
  | noop
deriving DecidableEq, Repr

namespace FilemodCommand

def ofJson? (value : Json) : Option FilemodCommand := do
  let (tag, body) ← Json.tagged? "kind" value
  let path? (members : List (String × Json)) (name : String) : Option Path :=
    (Json.field? members name Json.text?).map Path.mk
  let single? (make : Path → FilemodCommand) : Option FilemodCommand := do
    let ms ← Json.record? ["path"] [] body
    pure (make (← path? ms "path"))
  match tag with
  | .str "handleDirectory" => single? handleDirectory
  | .str "handleFile" => single? handleFile
  | .str "upsertFile" => single? upsertFile
  | .str "deleteFile" => single? deleteFile
  | .str "moveFile" =>
    let ms ← Json.record? ["oldPath", "newPath"] [] body
    pure (moveFile (← path? ms "oldPath") (← path? ms "newPath"))
  | .str "upsertData" =>
    let ms ← Json.record? ["path", "data"] [] body
    pure (upsertData (← path? ms "path") (← Json.field? ms "data" Json.text?))
  | .str "noop" => body.nothing?.map fun _ => noop
  | _ => none

def toJson : FilemodCommand → Json
  | handleDirectory path => .obj [("kind", .str "handleDirectory"), ("path", .str path.text)]
  | handleFile path => .obj [("kind", .str "handleFile"), ("path", .str path.text)]
  | upsertFile path => .obj [("kind", .str "upsertFile"), ("path", .str path.text)]
  | deleteFile path => .obj [("kind", .str "deleteFile"), ("path", .str path.text)]
  | moveFile oldPath newPath =>
    .obj [("kind", .str "moveFile"), ("oldPath", .str oldPath.text),
      ("newPath", .str newPath.text)]
  | upsertData path data =>
    .obj [("kind", .str "upsertData"), ("path", .str path.text), ("data", .str data)]
  | noop => .obj [("kind", .str "noop")]

end FilemodCommand

/-- Whether a filemod is through or wants to begin again. -/
inductive FinishCommand where
  | noop
  | restart
deriving DecidableEq, Repr

namespace FinishCommand

def name : FinishCommand → String
  | noop => "noop"
  | restart => "restart"

def ofName? : String → Option FinishCommand
  | "noop" => some noop
  | "restart" => some restart
  | _ => none

def ofJson? (value : Json) : Option FinishCommand :=
  value.choice?.bind ofName?

def toJson (c : FinishCommand) : Json :=
  .str c.name

end FinishCommand

end BulkEdit
