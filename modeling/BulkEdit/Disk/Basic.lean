import BulkEdit.FileTree.Basic
import BulkEdit.Text.Utf8

/-!
# Disks

File systems as an operating system keeps them. Unlike the trees in memory they hold bytes and
symbolic links, they resolve paths step by step, so that `..` leads to where a folder really is, and
each operation fails in the ways of the system.
-/

namespace BulkEdit

/-- The names that lead from the top of a disk to a place. -/
abbrev Place := List String

/-- What stands at a place of a disk. -/
inductive DiskNode where
  | file (bytes : List UInt8)
  | folder
  | link (target : String)
  /-- A device, which gives nothing and takes everything. -/
  | device
deriving DecidableEq, Repr

/-- Why the system refuses an operation. -/
inductive DiskFault where
  | absent
  | other
deriving DecidableEq, Repr

/-- The nodes of a disk by place; the top folder is always there. Paths that do not begin at the top
begin at the working folder. -/
structure Disk where
  nodes : Std.ExtTreeMap Place DiskNode := ∅
  working : Place := []

/-- Where a path leads: to a node, or to a free place in a folder. -/
inductive Target where
  | found (place : Place) (node : DiskNode)
  | free (place : Place)
deriving DecidableEq, Repr

namespace Disk

def systemFolders : List String :=
  ["bin", "boot", "dev", "etc", "home", "lib", "lib64", "media", "mnt", "opt", "proc", "root", "run",
    "sbin", "srv", "sys", "tmp", "usr", "var"]

def systemDevices : List String :=
  ["full", "null", "random", "tty", "urandom", "zero"]

def fresh : Disk :=
  let working := ["tmp", "work"]
  let folders := systemFolders.map fun name => ([name], DiskNode.folder)
  let devices := systemDevices.map fun name => (["dev", name], DiskNode.device)
  { nodes := .ofList (folders ++ devices ++ [(working, .folder)]), working }

def node? (d : Disk) : Place → Option DiskNode
  | [] => some .folder
  | place => d.nodes[place]?

def segments (text : String) : List String :=
  ((Text.pieces '/' text.toList).filter (· ≠ [])).map String.ofList

/-- Whether the text asks for a folder by ending in a slash. -/
def wantsFolder (text : String) : Bool :=
  text.toList.getLast? == some '/'

/-- How long the name of a node may be in bytes. -/
def maxNameLength : Nat := 255

/-- How long a path may be in bytes. -/
def maxPathLength : Nat := 4095

def maxLinks : Nat := 40

def isBadPath (text : String) : Bool :=
  text.utf8ByteSize > maxPathLength || text.toList.contains '\x00'

/-- Where the way begins that a path text describes. -/
def origin (text : String) (current : Place) : Place :=
  if text.toList.head? = some '/' then [] else current

/-- Follows segments from a folder. A link at the end is followed if `follow` says so, and always if
a folder is wanted. -/
def walkTo (d : Disk) (follow : Bool) (links : Nat) (place : Place) (folder : Bool) :
    List String → Except DiskFault Target
  | [] =>
    match d.node? place with
    | some node => .ok (.found place node)
    | none => .error .absent
  | "." :: rest => d.walkTo follow links place folder rest
  | ".." :: rest => d.walkTo follow links place.dropLast folder rest
  | name :: rest =>
    let next := place ++ [name]
    if name.utf8ByteSize > maxNameLength then .error .other
    else
      match d.node? next with
      | none => if rest = [] then .ok (.free next) else .error .absent
      | some .folder => d.walkTo follow links next folder rest
      | some (.file bytes) =>
        if rest = [] ∧ folder = false then .ok (.found next (.file bytes)) else .error .other
      | some .device =>
        if rest = [] ∧ folder = false then .ok (.found next .device) else .error .other
      | some (.link target) =>
        if rest = [] ∧ follow = false ∧ folder = false then .ok (.found next (.link target))
        else
          match links with
          | 0 => .error .other
          | links + 1 =>
            d.walkTo follow links (origin target place) (folder || rest = [] && wantsFolder target)
              (segments target ++ rest)
termination_by segments => (links, segments.length)

def resolve (d : Disk) (follow : Bool) (p : Path) : Except DiskFault Target :=
  if isBadPath p.text then .error .other
  else
    d.walkTo follow maxLinks (origin p.text d.working) (wantsFolder p.text) (segments p.text)

def withoutSlash (p : Path) : Path :=
  ⟨String.ofList (p.text.toList.reverse.dropWhile (· = '/')).reverse⟩

/-- The node that a path names, links followed. -/
def look (d : Disk) (p : Path) : Except DiskFault (Place × DiskNode) :=
  match d.resolve true p with
  | .ok (.found place node) => .ok (place, node)
  | .ok (.free _) => .error .absent
  | .error e => .error e

def errorAt (p : Path) : DiskFault → TreeError
  | .absent => .notFound p
  | .other => .io p

def kind (d : Disk) (p : Path) : Except TreeError EntryKind :=
  match d.look p with
  | .ok (_, .file _) => .ok .file
  | .ok (_, .folder) => .ok .directory
  | .ok _ => .error (.unsupportedEntry p)
  | .error e => .error (errorAt p e)

def contains (d : Disk) (p : Path) : Bool :=
  match d.kind p with
  | .ok _ => true
  | .error _ => false

def isFile (d : Disk) (p : Path) : Bool :=
  match d.kind p with
  | .ok .file => true
  | _ => false

def read (d : Disk) (p : Path) : Except TreeError String :=
  match d.look p with
  | .ok (_, .file bytes) =>
    match Text.ofBytes? bytes with
    | some text => .ok text
    | none => .error (.io p)
  | .ok (_, .device) => .ok ""
  | .ok _ => .error (.io p)
  | .error e => .error (errorAt p e)

def put (d : Disk) (place : Place) (node : DiskNode) : Disk :=
  { d with nodes := d.nodes.insert place node }

/-- The disk with bytes in a file at a place; what goes to a device is gone. -/
def store (d : Disk) (place : Place) (bytes : List UInt8) : Disk :=
  if d.node? place = some .device then d else d.put place (.file bytes)

def writable (d : Disk) (p : Path) : Except DiskFault Place :=
  match d.resolve true p with
  | .ok (.found place (.file _)) => .ok place
  | .ok (.found place .device) => .ok place
  | .ok (.found _ _) => .error .other
  | .ok (.free place) => if wantsFolder p.text then .error .other else .ok place
  | .error e => .error e

/-- Writes bytes to a file in a folder that is there. -/
def writeBytes (d : Disk) (p : Path) (bytes : List UInt8) : Except TreeError Disk :=
  match d.writable p with
  | .ok place => .ok (d.store place bytes)
  | .error e => .error (errorAt p e)

/-- Makes a symbolic link, which leads to some path and does not end in a slash itself. -/
def makeLink (d : Disk) (p : Path) (target : String) : Except TreeError Disk :=
  if isBadPath target then .error (.io p)
  else if target = "" then .error (.notFound p)
  else
    match d.resolve false p with
    | .ok (.found _ _) => .error (.io p)
    | .ok (.free place) =>
      if wantsFolder p.text then .error (.notFound p) else .ok (d.put place (.link target))
    | .error e => .error (errorAt p e)

def makeFolder (d : Disk) (p : Path) : Except DiskFault Disk :=
  match d.resolve false (withoutSlash p) with
  | .ok (.found _ _) => .error .other
  | .ok (.free place) => .ok (d.put place .folder)
  | .error e => .error e

/-- Makes one folder unless there is one. -/
def ensureOne (d : Disk) (p : Path) : Except DiskFault Disk :=
  match d.makeFolder p with
  | .ok d => .ok d
  | .error e =>
    match d.kind p with
    | .ok .directory => .ok d
    | _ => .error e

/-- Makes a folder and the folders above it, going up at most as often as the number says. -/
def ensure (d : Disk) (p : Path) : Nat → Except DiskFault Disk
  | 0 => d.ensureOne p
  | ups + 1 =>
    match d.makeFolder p, p.parent? with
    | .error .absent, some parent =>
      match d.ensure parent ups with
      | .ok d => d.ensureOne p
      | .error e => .error e
    | _, _ => d.ensureOne p

/-- Makes a folder and all folders above it. -/
def makeFolders (d : Disk) (p : Path) : Except TreeError Disk :=
  match d.ensure p p.text.length with
  | .ok d => .ok d
  | .error e => .error (errorAt p e)

/-- Removes a file or a link, which a path that ends in a slash never names. -/
def remove (d : Disk) (p : Path) : Except TreeError Disk :=
  match d.resolve false (withoutSlash p) with
  | .ok (.found _ .folder) => .error (.io p)
  | .ok (.found place _) =>
    if wantsFolder p.text then .error (.io p) else .ok { d with nodes := d.nodes.erase place }
  | .ok (.free _) => .error (.notFound p)
  | .error e => .error (errorAt p e)

/-- Copies a file; errors name the source. The destination is emptied first, so a file that is copied
to itself is lost. -/
def copy (d : Disk) (source destination : Path) : Except TreeError Disk :=
  match d.look source with
  | .ok (place, .file bytes) =>
    match d.writable destination with
    | .ok goal => .ok (d.store goal (if goal = place then [] else bytes))
    | .error e => .error (errorAt source e)
  | .ok _ => .error (.io source)
  | .error e => .error (errorAt source e)

/-- The nodes in a folder with their names, in the order of the names. -/
def children (d : Disk) (place : Place) : List (String × DiskNode) :=
  d.nodes.toList.filterMap fun (seat, node) =>
    if seat.dropLast = place then seat.getLast?.map fun name => (name, node) else none

/-- The files and folders in a folder in path order; links and devices are left out. -/
def list (d : Disk) (p : Path) : Except TreeError (List (Path × EntryKind)) :=
  match d.look p with
  | .ok (place, .folder) =>
    .ok ((d.children place).filterMap fun (name, node) =>
      match node with
      | .file _ => some (p.join ⟨name⟩, .file)
      | .folder => some (p.join ⟨name⟩, .directory)
      | _ => none)
  | .ok _ => .error (.io p)
  | .error e => .error (errorAt p e)

/-- The files in and below a folder, as deep as the number says, in path order; links are not
followed. -/
def filesBelow (d : Disk) : Nat → Place → Path → List Path
  | 0, _, _ => []
  | depth + 1, place, p =>
    (d.children place).flatMap fun (name, node) =>
      match node with
      | .file _ => [p.join ⟨name⟩]
      | .folder => d.filesBelow depth (place ++ [name]) (p.join ⟨name⟩)
      | _ => []

/-- The files at and below a path, in path order. A link is followed only if it is the path itself
and leads to a folder. -/
def walk (d : Disk) (p : Path) : Except TreeError (List Path) :=
  match d.look p, d.resolve false p with
  | .error _, _ => .error (.notFound p)
  | .ok (place, .folder), _ => .ok (d.filesBelow (d.nodes.size + 1) place p)
  | .ok (_, .file _), .ok (.found _ (.link _)) => .ok []
  | .ok (_, .file _), _ => .ok [p]
  | .ok _, _ => .ok []

end Disk

end BulkEdit
