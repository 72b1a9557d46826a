import BulkEdit.Filemod.Hooks
import BulkEdit.Worker.Error

/-!
# The life of a filemod

A run consists of passes of the form initialization, handlers, finish, over one overlay, until the
filemod no longer wants to begin again. Handlers that fail are noted and do not stop the run. How
deep commands may lead to further commands is bounded by a number that the caller gives.
-/

namespace BulkEdit

/-- A call of a hook, or a question that a hook asked. -/
inductive HookCall where
  | init (previous : FilemodState) (paths : Option (List Path)) (arguments : ArgumentRecord)
  | directory (path : Path) (state : FilemodState)
  | file (path : Path) (state : FilemodState)
  | data (path : Path) (data : String) (state : FilemodState)
  | finish (state : FilemodState)
  | query (q : Query) (answer : q.Answer)

/-- What a run has to tell of a file. -/
inductive Notice where
  | handled (path : Path)
  | failed (path : Path) (message : String)
deriving DecidableEq, Repr

/-- Why a run stops before its end. -/
inductive Halt where
  | failed (e : SandboxError)
  | crashed
  | exhausted
deriving DecidableEq, Repr

/-- A run so far: the changes it has made, the calls it has made and what it has noted. -/
structure Session where
  overlay : Overlay
  calls : List HookCall := []
  notices : List Notice := []

/-- A part of a run. -/
abbrev Act := EStateM Halt Session

namespace Act

def record (call : HookCall) : Act Unit :=
  modify fun s => { s with calls := s.calls ++ [call] }

def note (n : Notice) : Act Unit :=
  modify fun s => { s with notices := s.notices ++ [n] }

def change (f : Overlay → Overlay) : Act Unit :=
  modify fun s => { s with overlay := f s.overlay }

/-- Consults the overlay, which may remember what it has looked up. -/
def consult {α : Type} (f : Overlay → α × Overlay) : Act α :=
  modifyGet fun s =>
    let (a, overlay) := f s.overlay
    (a, { s with overlay })

def select (root : Path) (included excluded : List String) : Act (Except String (List Path)) :=
  match Matcher.build root included excluded with
  | .error e => pure (.error e.message)
  | .ok m => do
    match ← consult (·.select root m) with
    | .error e => pure (.error e.message)
    | .ok paths => pure (.ok paths)

def answer (root : Path) : (q : Query) → Act q.Answer
  | .root => pure root
  | .content path => consult fun o => (o.read path, o)
  | .children path =>
    consult fun o =>
      let (routes, o) := o.list path
      (routes.map Route.toPath, o)
  | .isDirectory path => consult (·.isKind path .directory)
  | .contains path => consult (·.contains path)
  | .select included excluded => select root included excluded

/-- Does what a hook does, recording its questions. -/
def inquire {α : Type} (root : Path) : Inquiry α → Act α
  | .done a => pure a
  | .ask q next => do
    let a ← answer root q
    record (.query q a)
    inquire root (next a)
  | .crash => throw .crashed

end Act

/-- What stays the same during a pass. -/
structure Pass where
  filemod : Filemod
  root : Path
  arguments : ArgumentRecord
  state : FilemodState

namespace Pass

/-- The commands for a folder without a handler: its folders and files are handled. -/
def defaultCommands (path : Path) : Act (List FilemodCommand) := do
  let children ← Act.consult (·.list path)
  children.mapM fun child => do
    let child := child.toPath
    if ← Act.consult (·.isKind child .directory) then
      pure (.handleDirectory child)
    else
      pure (.handleFile child)

/-- Carries out a command and all commands it leads to. -/
def handle (pass : Pass) : Nat → FilemodCommand → Act Unit
  | 0, _ => throw .exhausted
  | depth + 1, .handleDirectory path => do
    if ← Act.consult (·.isKind path .directory) then
      Act.record (.directory path pass.state)
      match ← Act.inquire pass.root (pass.filemod.directory path pass.arguments pass.state) with
      | some (.ok commands) => commands.forM (pass.handle depth)
      | some (.error message) => Act.note (.failed path message)
      | none =>
        if pass.filemod.included.isNone then
          (← defaultCommands path).forM (pass.handle depth)
  | depth + 1, .handleFile path => do
    if ← Act.consult (·.isKind path .file) then
      Act.record (.file path pass.state)
      match ← Act.inquire pass.root (pass.filemod.file path pass.arguments pass.state) with
      | .ok commands => commands.forM (pass.handle depth)
      | .error message => Act.note (.failed path message)
      Act.note (.handled path)
  | depth + 1, .upsertFile path => do
    match ← Act.consult fun o => (o.read path, o) with
    | .error e => Act.note (.failed path e.message)
    | .ok data =>
      Act.record (.data path data pass.state)
      match ← Act.inquire pass.root (pass.filemod.data path data pass.arguments pass.state) with
      | .ok command => pass.handle depth command
      | .error message => Act.note (.failed path message)
  | _ + 1, .deleteFile path => Act.change (·.delete path)
  | _ + 1, .moveFile oldPath newPath => do
    match ← Act.consult (·.move oldPath newPath) with
    | .ok () => pure ()
    | .error e => Act.note (.failed oldPath e.message)
  | _ + 1, .upsertData path data => Act.change (·.write path data)
  | _ + 1, .noop => pure ()

end Pass

namespace Filemod

def maxRestarts : Nat := 64

/-- The files that a pass is about, if it is about a list of files: those given, else those that the
filemod's own patterns select. -/
def scope (f : Filemod) (root : Path) (paths : Option (List Path)) : Act (Option (List Path)) :=
  match paths, f.included with
  | some paths, _ => do
    Act.change (·.register paths)
    pure (some paths)
  | none, some (p :: ps) => do
    match ← Act.select root (p :: ps) f.excluded with
    | .ok selected => pure (some selected)
    | .error message => throw (.failed (.execution message))
  | none, _ => pure none

def openingCommands (root : Path) (kind : EntryKind) : Option (List Path) → List FilemodCommand
  | some paths => paths.map .handleFile
  | none =>
    match kind with
    | .directory => [.handleDirectory root]
    | .file => [.handleFile root]

/-- The value of a hook; its failure ends the run. -/
def require {α : Type} : Except String α → Act α
  | .ok a => pure a
  | .error message => throw (.failed (.execution message))

/-- Runs at most the given number of passes, the first with the given state. A root that is not there
ends the run. -/
def passes (f : Filemod) (root : Path) (paths : Option (List Path)) (arguments : ArgumentRecord)
    (depth : Nat) : Nat → FilemodState → Act Unit
  | 0, _ =>
    throw (.failed (.execution
      ("filemod restarted more than " ++ Nat.repr maxRestarts ++ " times")))
  | left + 1, previous => do
    match ← Act.consult (·.lookup root) with
    | none => pure ()
    | some kind =>
      let selected ← f.scope root paths
      Act.record (.init previous selected arguments)
      let state ← require (← Act.inquire root (f.init previous selected arguments))
      let pass : Pass := { filemod := f, root, arguments, state }
      (openingCommands root kind selected).forM (pass.handle depth)
      Act.record (.finish state)
      match ← require (f.finish arguments state) with
      | .noop => pure ()
      | .restart => f.passes root paths arguments depth left state

/-- Runs a filemod at a root, on the given files if there are any given. -/
def execute (f : Filemod) (root : Path) (paths : Option (List Path)) (arguments : ArgumentRecord)
    (depth : Nat) : Act Unit :=
  f.passes root paths arguments depth (maxRestarts + 1) none

end Filemod

end BulkEdit
