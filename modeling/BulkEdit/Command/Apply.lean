import BulkEdit.Command.Basic
import BulkEdit.Digest
import BulkEdit.Settings.Flow

/-!
# Applying file commands

A command is applied to a tree for real, or as a preview in a folder of its own. It is a short list
of tree operations; the first that fails ends it, and what was done before stays.
-/

namespace BulkEdit

/-- An operation on a tree that may fail. -/
abbrev TreeStep := FileTree → Except TreeError FileTree

/-- Does the steps in order up to the first that fails; gives what went wrong, if anything, and the
tree that is left. -/
def FileTree.attempt (t : FileTree) : List TreeStep → Except TreeError Unit × FileTree
  | [] => (.ok (), t)
  | step :: rest =>
    match step t with
    | .ok t => t.attempt rest
    | .error e => (.error e, t)

/-- Makes the folder of a path, if the path names one. -/
def FileTree.ensureFolder (t : FileTree) (p : Path) : Except TreeError FileTree :=
  match p.folder? with
  | some folder => t.makeFolders folder
  | none => .ok t

namespace FileCommand

def steps : FileCommand → List TreeStep
  | create newPath newData _ => [(·.ensureFolder newPath), (·.write newPath newData)]
  | update oldPath _ newData _ => [(·.write oldPath newData)]
  | delete oldPath => [(·.remove oldPath)]
  | move oldPath newPath =>
    [(·.ensureFolder newPath), (·.copy oldPath newPath), (·.remove oldPath)]
  | copy oldPath newPath => [(·.ensureFolder newPath), (·.copy oldPath newPath)]

def applyWet (c : FileCommand) (t : FileTree) : Except TreeError Unit × FileTree :=
  t.attempt c.steps

end FileCommand

/-- What a preview file shows. -/
structure Preview where
  kind : String
  originalPath : Path
  previewPath : Path
deriving DecidableEq, Repr

namespace Preview

/-- The place of a preview: named by the SHA-256 value of the kind, the path and the content, with
the extension of the path. -/
def place (outputDir : Path) (kind : String) (path : Path) (data : String) : Path :=
  let name := Digest.urlText (Digest.sha256 (Digest.bytesOf (kind ++ path.text ++ data)))
  outputDir.join ⟨match path.extension? with
    | some ext => name ++ "." ++ ext
    | none => name⟩

def ofJson? (value : Json) : Option Preview := do
  let ms ← Json.record? ["kind", "originalPath", "previewPath"] [] value
  pure {
    kind := ← Json.field? ms "kind" Json.text?
    originalPath := ⟨← Json.field? ms "originalPath" Json.text?⟩
    previewPath := ⟨← Json.field? ms "previewPath" Json.text?⟩ }

def toJson (p : Preview) : Json :=
  .obj [("kind", .str p.kind), ("originalPath", .str p.originalPath.text),
    ("previewPath", .str p.previewPath.text)]

end Preview

namespace FileCommand

/-- The path and the content that a preview would show; only new contents have one. -/
def preview? : FileCommand → Option (Path × String)
  | create newPath newData _ => some (newPath, newData)
  | update oldPath _ newData _ => some (oldPath, newData)
  | _ => none

def applyDry (c : FileCommand) (outputDir : Path) (t : FileTree) :
    Except TreeError (Option Preview) × FileTree :=
  match c.preview? with
  | none => (.ok none, t)
  | some (path, data) =>
    let place := Preview.place outputDir c.kindName path data
    match t.attempt [(·.makeFolders outputDir), (·.write place data)] with
    | (.ok (), t) => (.ok (some ⟨c.kindName, path, place⟩), t)
    | (.error e, t) => (.error e, t)

def apply (c : FileCommand) (mode : RunMode) (t : FileTree) :
    Except TreeError (Option Preview) × FileTree :=
  match mode with
  | .wet _ =>
    let (result, t) := c.applyWet t
    (result.map fun _ => none, t)
  | .dry _ outputDir => c.applyDry outputDir t

end FileCommand

end BulkEdit
