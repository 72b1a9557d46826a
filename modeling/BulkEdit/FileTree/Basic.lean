import BulkEdit.Path.Route
import Std.Data.ExtTreeMap
import Std.Data.ExtTreeSet

/-!
# File trees in memory

The contents of the files and the set of folders, both by route. All operations take paths in any
spelling and normalize them first. Writing needs the folder to be there; seeding makes it.
-/

namespace BulkEdit

/-- Why an operation on a tree fails. -/
inductive TreeError where
  | notFound (path : Path)
  | unsupportedEntry (path : Path)
  | io (path : Path)
deriving DecidableEq, Repr

/-- The wording of the error; what the operating system says about other faults is left out. -/
def TreeError.message : TreeError → String
  | notFound path => "path not found: " ++ path.text
  | unsupportedEntry path => path.text ++ " is neither a regular file nor a directory"
  | io path => "I/O error at " ++ path.text

/-- What stands at a place. -/
inductive EntryKind where
  | file
  | directory
deriving DecidableEq, Repr

def EntryKind.name : EntryKind → String
  | file => "file"
  | directory => "directory"

def EntryKind.ofName? : String → Option EntryKind
  | "file" => some file
  | "directory" => some directory
  | _ => none

/-- Files and folders by route. -/
structure FileTree where
  files : Std.ExtTreeMap Route String := ∅
  folders : Std.ExtTreeSet Route := ∅

namespace FileTree

def empty : FileTree := {}

/-- Adds folders in order, up to the first that is there already. -/
def addMissing (folders : Std.ExtTreeSet Route) : List Route → Std.ExtTreeSet Route
  | [] => folders
  | r :: rest => if r ∈ folders then folders else addMissing (folders.insert r) rest

/-- Adds the folders above a place, the nearest first. -/
def addAncestors (t : FileTree) (r : Route) : FileTree :=
  { t with folders := addMissing t.folders r.ancestors }

/-- Puts a file into the tree together with the folders above it. -/
def seed (t : FileTree) (p : Path) (data : String) : FileTree :=
  let t := t.addAncestors p.route
  { t with files := t.files.insert p.route data }

def ofFiles (files : List (Path × String)) : FileTree :=
  files.foldl (fun t (p, data) => t.seed p data) empty

/-- What stands at a route; a file hides a folder. -/
def kindAt? (t : FileTree) (r : Route) : Option EntryKind :=
  if r ∈ t.files then some .file
  else if r ∈ t.folders then some .directory
  else none

def kind (t : FileTree) (p : Path) : Except TreeError EntryKind :=
  match t.kindAt? p.route with
  | some k => .ok k
  | none => .error (.notFound p.normalize)

def contains (t : FileTree) (p : Path) : Bool :=
  (t.kindAt? p.route).isSome

def isFile (t : FileTree) (p : Path) : Bool :=
  t.kindAt? p.route == some .file

def read (t : FileTree) (p : Path) : Except TreeError String :=
  match t.files[p.route]? with
  | some data => .ok data
  | none => .error (.notFound p.normalize)

/-- Writes a file into a folder that is there. -/
def write (t : FileTree) (p : Path) (data : String) : Except TreeError FileTree :=
  let put : Except TreeError FileTree :=
    if p.route ∈ t.folders then .error (.unsupportedEntry p.normalize)
    else .ok { t with files := t.files.insert p.route data }
  match p.route.folder? with
  | some folder => if folder ∈ t.folders then put else .error (.notFound folder.toPath)
  | none => put

/-- Makes a folder and all folders above it. -/
def makeFolders (t : FileTree) (p : Path) : Except TreeError FileTree :=
  if p.route ∈ t.files then .error (.unsupportedEntry p.normalize)
  else
    let t := t.addAncestors p.route
    .ok { t with folders := t.folders.insert p.route }

def remove (t : FileTree) (p : Path) : Except TreeError FileTree :=
  if p.route ∈ t.files then .ok { t with files := t.files.erase p.route }
  else .error (.notFound p.normalize)

def copy (t : FileTree) (source destination : Path) : Except TreeError FileTree := do
  let data ← t.read source
  t.write destination data

def entryOrder (a b : Route × EntryKind) : Bool :=
  (compare a.1 b.1).isLE

/-- The entries of a folder in path order. -/
def list (t : FileTree) (p : Path) : Except TreeError (List (Route × EntryKind)) :=
  if p.route ∈ t.folders then
    let inside (r : Route) : Bool := r.parent? == some p.route
    let folders := (t.folders.toList.filter inside).map fun r => (r, EntryKind.directory)
    let files := (t.files.keys.filter inside).map fun r => (r, EntryKind.file)
    .ok ((folders ++ files).mergeSort entryOrder)
  else .error (.notFound p.normalize)

/-- The files at and below a place, in path order. -/
def walk (t : FileTree) (p : Path) : Except TreeError (List Route) :=
  if p.route ∈ t.folders ∨ p.route ∈ t.files then
    .ok (t.files.keys.filter fun r => r.isBelow p.route)
  else .error (.notFound p.normalize)

/-- The files with their contents, in path order. -/
def fileList (t : FileTree) : List (Path × String) :=
  t.files.toList.map fun (r, data) => (r.toPath, data)

end FileTree

end BulkEdit
