import BulkEdit.Command.Basic

/-!
# Snapshots

Snapshots of files, and the commands that turn one snapshot into another.
-/

namespace BulkEdit

/-- The contents of some files by path. -/
abbrev Snapshot := Std.ExtTreeMap Path String

namespace Snapshot

def ofTree (tree : FileTree) : Snapshot :=
  .ofList tree.fileList

/-- Copies files into a scratch tree and remembers their contents; what cannot be read is left
out. -/
def capture (tree : FileTree) : Snapshot × FileTree → List Path → Snapshot × FileTree
  | kept, [] => kept
  | (snapshot, scratch), path :: rest =>
    match tree.read path with
    | .error _ => capture tree (snapshot, scratch) rest
    | .ok data => capture tree (snapshot.insert path data, scratch.seed path data) rest

/-- The files of a snapshot that another does not have, each once and in path order. Of the paths
that were removed on the way only those count that the first snapshot has. -/
def missing (before : Snapshot) (removed : Std.ExtTreeSet Path) (current : Snapshot) :
    List Path :=
  let gone := (before.keys ++ removed.toList).filter fun path =>
    before.contains path && !current.contains path
  (Std.ExtTreeMap.ofList (gone.map fun path => (path, ()))).keys

/-- The command that gives a file its new content, if that is needed. -/
def write? (before : Snapshot) (format : Bool) (path : Path) (data : String) :
    Option FileCommand :=
  match before[path]? with
  | none => some (.create path data format)
  | some old => if old = data then none else some (.update path old data format)

/-- The commands that turn one snapshot into another: deletions first, then new contents, each in
path order. -/
def diff (before : Snapshot) (removed : Std.ExtTreeSet Path) (current : Snapshot)
    (format : Bool) : List FileCommand :=
  (missing before removed current).map .delete ++
    current.toList.filterMap fun (path, data) => write? before format path data

end Snapshot

end BulkEdit
