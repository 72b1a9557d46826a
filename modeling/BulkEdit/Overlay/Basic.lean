import BulkEdit.Command.Basic
import BulkEdit.Overlay.ChildIndex
import BulkEdit.Selection.Matcher

/-!
# Overlays

An overlay holds pending changes on top of a tree that is not touched. Places are looked up once and
then remembered; a deleted file stays deleted until it is written again; and in the end the changes
are read off as file commands, each against what the tree held at the first change.
-/

namespace BulkEdit

/-- Why an operation on an overlay fails. -/
inductive OverlayError where
  | deleted (path : Path)
  | notFound (path : Path)
  | tree (e : TreeError)
deriving DecidableEq, Repr

def OverlayError.message : OverlayError → String
  | deleted path => "the file " ++ path.text ++ " has already been deleted"
  | notFound path => "the file " ++ path.text ++ " does not exist"
  | tree e => e.message

/-- What has become of a file, with what the tree held at the first change. -/
inductive Change where
  | written (baseline : Option String) (data : String)
  | deleted (baseline : Option String)
deriving DecidableEq, Repr

def Change.baseline : Change → Option String
  | written baseline _ => baseline
  | deleted baseline => baseline

/-- Pending changes on top of a tree. -/
structure Overlay where
  base : FileTree
  /-- The places that have been seen, and what stands there. -/
  entries : Std.ExtTreeMap Route EntryKind := ∅
  /-- The latest change of each changed file. -/
  changes : Std.ExtTreeMap Route Change := ∅
  /-- The changed files in the order of their first changes. -/
  order : List Route := []
  /-- The children that folders are known to have. -/
  index : ChildIndex Route := {}

namespace Overlay

def ofTree (base : FileTree) : Overlay :=
  { base }

/-- Whether the latest change of a place is a deletion. -/
def isDeleted (o : Overlay) (r : Route) : Bool :=
  match o.changes[r]? with
  | some (.deleted _) => true
  | _ => false

/-- Remembers what stands at a place, if nothing is known of it. -/
def remember (o : Overlay) (r : Route) (kind : EntryKind) : Overlay :=
  { o with entries := o.entries.insertIfNew r kind }

def lookup (o : Overlay) (p : Path) : Option EntryKind × Overlay :=
  let r := p.route
  if o.isDeleted r then (none, o)
  else
    match o.entries[r]? with
    | some kind => (some kind, o)
    | none =>
      match o.base.kindAt? r with
      | none => (none, o)
      | some kind => (some kind, o.remember r kind)

def contains (o : Overlay) (p : Path) : Bool × Overlay :=
  let (kind, o) := o.lookup p
  (kind.isSome, o)

def isKind (o : Overlay) (p : Path) (kind : EntryKind) : Bool × Overlay :=
  let (found, o) := o.lookup p
  (found == some kind, o)

/-- Takes in one entry that the tree lists in a folder. -/
def takeListed (folder : Route) (o : Overlay) (entry : Route × EntryKind) : Overlay :=
  let (child, kind) := entry
  if o.isDeleted child then { o with index := o.index.erase folder child }
  else
    let o := o.remember child kind
    { o with index := o.index.insert folder child }

/-- The entries of a folder in path order; a folder that the tree does not have may have entries
too. -/
def list (o : Overlay) (p : Path) : List Route × Overlay :=
  let folder := p.route
  let o := match o.base.list p with
    | .ok listed => listed.foldl (takeListed folder) o
    | .error _ => o
  ((o.index.toList folder).filter fun r => !o.isDeleted r && o.entries.contains r, o)

/-- The content of a file; what the tree does not hold is empty. -/
def read (o : Overlay) (p : Path) : Except OverlayError String :=
  match o.changes[p.route]? with
  | some (.written _ data) => .ok data
  | some (.deleted _) => .error (.deleted p.normalize)
  | none =>
    match o.base.read p with
    | .ok data => .ok data
    | .error _ => .ok ""

def baseContent (o : Overlay) (r : Route) : Option String :=
  o.base.files[r]?

/-- Records a change, which is made from the baseline of the place. -/
def record (o : Overlay) (r : Route) (change : Option String → Change) : Overlay :=
  match o.changes[r]? with
  | some earlier => { o with changes := o.changes.insert r (change earlier.baseline) }
  | none =>
    { o with
      order := o.order ++ [r]
      changes := o.changes.insert r (change (o.baseContent r)) }

def delete (o : Overlay) (p : Path) : Overlay :=
  let r := p.route
  let o := match r.folder? with
    | some folder => { o with index := o.index.erase folder r }
    | none => o
  o.record r .deleted

/-- Notes the folders above a place: each has the next as a child. -/
def registerAncestors (o : Overlay) (child : Route) : List Route → Overlay
  | [] => o
  | folder :: rest =>
    let o := { o with index := o.index.insert folder child }
    (o.remember folder .directory).registerAncestors folder rest

/-- Writes a file; its folders come with it. -/
def write (o : Overlay) (p : Path) (data : String) : Overlay :=
  let r := p.route
  let o := o.registerAncestors r r.ancestors
  let o := { o with entries := o.entries.insert r .file }
  o.record r (.written · data)

def move (o : Overlay) (source destination : Path) : Except OverlayError Unit × Overlay :=
  match o.isKind source .file with
  | (false, o) =>
    if o.isDeleted source.route then (.error (.deleted source.normalize), o)
    else (.error (.notFound source.normalize), o)
  | (true, o) =>
    match o.read source with
    | .error e => (.error e, o)
    | .ok data => (.ok (), (o.delete source).write destination data)

/-- Takes files for granted that have not been looked up. -/
def register (o : Overlay) (paths : List Path) : Overlay :=
  paths.foldl (fun o p => o.remember p.route .file) o

/-- The selected files of the tree at and below a place that are not deleted, in path order. -/
def select (o : Overlay) (root : Path) (m : Matcher) : Except OverlayError (List Path) × Overlay :=
  match m.collect o.base root with
  | .error e => (.error (.tree e), o)
  | .ok paths =>
    let kept := paths.filter fun p => !o.isDeleted p.route
    (.ok kept, o.register kept)

def change? (o : Overlay) (p : Path) : Option Change :=
  o.changes[p.route]?

/-- The command that brings about a change; a change that comes to nothing has none. -/
def commandOf? (format : Bool) (r : Route) : Change → Option FileCommand
  | .written (some old) data =>
    if old = data then none else some (.update r.toPath old data format)
  | .written none data => some (.create r.toPath data format)
  | .deleted (some _) => some (.delete r.toPath)
  | .deleted none => none

/-- The commands that bring about all changes, in the order of the first changes. -/
def commands (o : Overlay) (format : Bool) : List FileCommand :=
  o.order.filterMap fun r => o.changes[r]?.bind (commandOf? format r)

end Overlay

end BulkEdit
