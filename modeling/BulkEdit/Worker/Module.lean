import BulkEdit.Worker.Child

/-!
# Transforms and workers

A transform is resolved before workers run it. It is part of the program or runs in child processes;
each worker then has a child of its own.
-/

namespace BulkEdit

/-- How a child process is started. -/
inductive Launch where
  | script (s : ChildScript)
  | missing (program : String)
deriving DecidableEq, Repr

/-- Where a transform's code runs. -/
inductive Code where
  | builtin (transform : Transform)
  | external (launch : Launch) (entryPath : Path) (source : String)

/-- A transform that is ready to be run, for an engine and under a name. -/
structure Module where
  engine : Engine
  codemodName : String
  code : Code

/-- Something that works on one file after another. -/
inductive Worker where
  | builtin (transform : Transform)
  | external (child : Child)

/-- The outcome of starting a worker, with the lines that its child has heard. -/
structure Spawned where
  worker : Except SandboxError Worker
  heard : List String := []

namespace Module

def spawn (m : Module) : Spawned :=
  match m.code with
  | .builtin transform => { worker := .ok (.builtin transform) }
  | .external (.missing program) _ _ => { worker := .error (.startFailed program) }
  | .external (.script s) entryPath source =>
    let (result, child) := (Child.start s).greet (Child.greeting m.engine entryPath source)
    { worker := result.map fun _ => .external child, heard := child.heard }

/-- Starts the given number of workers; the first that fails decides. -/
def spawnAll (m : Module) : Nat → Except SandboxError (List Worker)
  | 0 => .ok []
  | count + 1 =>
    match m.spawn.worker with
    | .error e => .error e
    | .ok worker =>
      match m.spawnAll count with
      | .error e => .error e
      | .ok workers => .ok (worker :: workers)

/-- What a transform is given for a file. -/
def assignment (m : Module) (file : SourceFile) (arguments : ArgumentRecord) : Assignment :=
  { file with engine := m.engine, codemodName := m.codemodName, arguments }

end Module

namespace Worker

def execute (w : Worker) (a : Assignment) : Execution × Worker :=
  match w with
  | builtin transform => (transform a, w)
  | external child =>
    let (e, child) := child.execute a
    (e, external child)

/-- Whether the worker can be stopped while it works. -/
def isKillable : Worker → Bool
  | builtin _ => false
  | external _ => true

def heard : Worker → List String
  | builtin _ => []
  | external child => child.heard

end Worker

end BulkEdit
