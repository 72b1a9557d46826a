import BulkEdit.FileTree.Basic
import BulkEdit.Json.Record

/-!
# File commands

What a codemod wants to be done to a file tree.
-/

namespace BulkEdit

/-- A change to one or two files; new contents may still have to be formatted. -/
inductive FileCommand where
  | create (newPath : Path) (newData : String) (format : Bool)
  | update (oldPath : Path) (oldData newData : String) (format : Bool)
  | delete (oldPath : Path)
  | move (oldPath newPath : Path)
  | copy (oldPath newPath : Path)
deriving DecidableEq, Repr

namespace FileCommand

def kindName : FileCommand → String
  | create _ _ _ => "createFile"
  | update _ _ _ _ => "updateFile"
  | delete _ => "deleteFile"
  | move _ _ => "moveFile"
  | copy _ _ => "copyFile"

def primaryPath : FileCommand → Path
  | create newPath _ _ => newPath
  | update oldPath _ _ _ => oldPath
  | delete oldPath => oldPath
  | move oldPath _ => oldPath
  | copy oldPath _ => oldPath

def description : FileCommand → String
  | create newPath _ _ => "Create file: " ++ newPath.text
  | update oldPath _ _ _ => "Update file: " ++ oldPath.text
  | delete oldPath => "Delete file: " ++ oldPath.text
  | move oldPath newPath => "Move: " ++ oldPath.text ++ " -> " ++ newPath.text
  | copy oldPath newPath => "Copy: " ++ oldPath.text ++ " -> " ++ newPath.text

def toMembers (c : FileCommand) : List (String × Json) :=
  ("kind", .str c.kindName) :: match c with
    | create newPath newData format =>
      [("newPath", .str newPath.text), ("newData", .str newData), ("format", .bool format)]
    | update oldPath oldData newData format =>
      [("oldPath", .str oldPath.text), ("oldData", .str oldData), ("newData", .str newData),
        ("format", .bool format)]
    | delete oldPath => [("oldPath", .str oldPath.text)]
    | move oldPath newPath => [("oldPath", .str oldPath.text), ("newPath", .str newPath.text)]
    | copy oldPath newPath => [("oldPath", .str oldPath.text), ("newPath", .str newPath.text)]

def toJson (c : FileCommand) : Json :=
  .obj c.toMembers

def ofJson? (value : Json) : Option FileCommand := do
  let (tag, body) ← Json.tagged? "kind" value
  let path? (members : List (String × Json)) (name : String) : Option Path :=
    (Json.field? members name Json.text?).map Path.mk
  match tag with
  | .str "createFile" =>
    let ms ← Json.record? ["newPath", "newData", "format"] [] body
    pure (create (← path? ms "newPath") (← Json.field? ms "newData" Json.text?)
      (← Json.field? ms "format" Json.bool?))
  | .str "updateFile" =>
    let ms ← Json.record? ["oldPath", "oldData", "newData", "format"] [] body
    pure (update (← path? ms "oldPath") (← Json.field? ms "oldData" Json.text?)
      (← Json.field? ms "newData" Json.text?) (← Json.field? ms "format" Json.bool?))
  | .str "deleteFile" =>
    let ms ← Json.record? ["oldPath"] [] body
    pure (delete (← path? ms "oldPath"))
  | .str "moveFile" =>
    let ms ← Json.record? ["oldPath", "newPath"] [] body
    pure (move (← path? ms "oldPath") (← path? ms "newPath"))
  | .str "copyFile" =>
    let ms ← Json.record? ["oldPath", "newPath"] [] body
    pure (copy (← path? ms "oldPath") (← path? ms "newPath"))
  | _ => none

end FileCommand

end BulkEdit
