import BulkEdit.Formatter.Registry
import BulkEdit.Report.Event
import BulkEdit.Worker.FileRun
import BulkEdit.Worker.Module

/-!
# Worker pools

Some workers share a stream of files: a file is taken from the stream when a worker is idle, a
worker is busy with one file at a time, and each file is told of when it is done. A file that cannot
be loaded fails at once and takes no worker. When no worker that is busy will ever report again, the
pool gives up.

The state of a pool changes by three moves, which any schedule is made of: a path is taken, a busy
worker speaks, and a busy worker is done. `Pool.start` follows the schedule that takes paths as long as a
worker is idle and else waits for the worker that has been busy longest.
-/

namespace BulkEdit

/-- The figures of a pool's run. -/
structure PoolReport where
  /-- The paths taken from the stream. -/
  totalFiles : Nat := 0
  /-- The paths that came to a result or an error. -/
  processedFiles : Nat := 0
  failedFiles : Nat := 0
  commands : Nat := 0
  /-- Whether the pool gave up. -/
  timedOut : Bool := false
deriving DecidableEq, Repr

namespace PoolReport

def ofJson? (value : Json) : Option PoolReport := do
  let fields := ["totalFiles", "processedFiles", "failedFiles", "commands", "timedOut"]
  let ms ← Json.record? fields [] value
  pure {
    totalFiles := ← Json.field? ms "totalFiles" Json.count?
    processedFiles := ← Json.field? ms "processedFiles" Json.count?
    failedFiles := ← Json.field? ms "failedFiles" Json.count?
    commands := ← Json.field? ms "commands" Json.count?
    timedOut := ← Json.field? ms "timedOut" Json.bool? }

def toJson (r : PoolReport) : Json :=
  .obj [("totalFiles", .int r.totalFiles), ("processedFiles", .int r.processedFiles),
    ("failedFiles", .int r.failedFiles), ("commands", .int r.commands),
    ("timedOut", .bool r.timedOut)]

end PoolReport

/-- What becomes of a file: its commands, or why it failed. -/
abbrev FileResult := Except SandboxError (List FileCommand)

/-- A file that a worker is busy with; the result is missing if the worker hangs. -/
structure Job where
  worker : Nat
  path : Path
  result : Option FileResult

/-- A pool: what its workers run, on which tree, and under which name it reports. -/
structure Pool where
  module : Module
  tree : FileTree
  run : FileRun
  formatters : FormatterRegistry
  codemodName : Option String
  target : Path

structure PoolState where
  /-- The workers by number. -/
  workers : List Worker
  /-- The numbers of the idle workers, the next one first. -/
  idle : List Nat
  /-- The jobs of the busy workers, the longest first. -/
  busy : List Job := []
  report : PoolReport := {}
  events : List Event := []

namespace PoolState

/-- All workers are idle. -/
def ofWorkers (workers : List Worker) : PoolState :=
  { workers, idle := List.range workers.length }

def count (st : PoolState) : PoolState :=
  { st with report := { st.report with totalFiles := st.report.totalFiles + 1 } }

/-- Passes on console output. -/
def say (st : PoolState) (lines : List (ConsoleKind × String)) : PoolState :=
  { st with events := st.events ++ lines.map fun (kind, message) => Event.console kind message }

end PoolState

namespace Pool

def resultEvents (pool : Pool) (path : Path) : FileResult → List Event
  | .ok commands => commands.map .command
  | .error e => Event.failure pool.codemodName path e.message

def tally (report : PoolReport) : FileResult → PoolReport
  | .ok commands =>
    { report with
      processedFiles := report.processedFiles + 1
      commands := report.commands + commands.length }
  | .error _ =>
    { report with
      processedFiles := report.processedFiles + 1
      failedFiles := report.failedFiles + 1 }

/-- The progress that a report shows when a file is done. -/
def progress (pool : Pool) (report : PoolReport) (path : Path) : Event :=
  .message (.progress {
    codemodName := pool.codemodName
    processed := report.processedFiles
    total := report.totalFiles
    file := some ((path.relativeTo? pool.target).getD path) })

def complete (pool : Pool) (st : PoolState) (path : Path) (result : FileResult) : PoolState :=
  let report := tally st.report result
  { st with
    report
    events := st.events ++ pool.resultEvents path result ++ [pool.progress report path] }

/-- What a worker makes of a file: what it says, its result after formatting, and the worker
afterwards. -/
def execute (pool : Pool) (worker : Worker) (file : SourceFile) :
    List (ConsoleKind × String) × Option FileResult × Worker :=
  let (e, worker) := worker.execute (pool.module.assignment file pool.run.arguments)
  (e.console, (pool.run.commands? file e).map (·.map pool.formatters.formatCommands), worker)

def assign (pool : Pool) (st : PoolState) (file : SourceFile) : PoolState :=
  match st.idle with
  | [] => st
  | number :: idle =>
    match st.workers[number]? with
    | none => st
    | some worker =>
      let (console, result, worker) := pool.execute worker file
      let st := st.say console
      { st with
        idle
        workers := st.workers.set number worker
        busy := st.busy ++ [⟨number, file.path, result⟩] }

def take (pool : Pool) (st : PoolState) (path : Path) : PoolState :=
  match pool.tree.read path with
  | .ok source => pool.assign st.count ⟨path, source⟩
  | .error e => pool.complete st.count path (.error (.execution e.message))

/-- The worker of a job is done and idle again. -/
def done (pool : Pool) (st : PoolState) (job : Job) (result : FileResult) : PoolState :=
  pool.complete { st with idle := job.worker :: st.idle } job.path result

/-- The first job that comes to an end, and the jobs without it. -/
def firstEnding : List Job → Option (Job × FileResult × List Job)
  | [] => none
  | job :: rest =>
    match job.result with
    | some result => some (job, result, rest)
    | none => (firstEnding rest).map fun (j, r, others) => (j, r, job :: others)

/-- Waits for the busy worker that is the first to be done; nothing if all of them hang. -/
def await? (pool : Pool) (st : PoolState) : Option PoolState :=
  (firstEnding st.busy).map fun (job, result, busy) => pool.done { st with busy } job result

/-- Waits until a worker is idle. -/
def ready? (pool : Pool) (st : PoolState) : Option PoolState :=
  if st.idle.isEmpty then pool.await? st else some st

/-- Waits for as many busy workers as the number says, unless all hang. -/
def drain (pool : Pool) (st : PoolState) : Nat → PoolState
  | 0 => st
  | count + 1 =>
    match pool.await? st with
    | some st => pool.drain st count
    | none => st

/-- Takes the paths one after another, each when a worker is idle, and waits for the rest. -/
def feed (pool : Pool) (st : PoolState) : List Path → PoolState
  | [] => pool.drain st st.busy.length
  | path :: rest =>
    match pool.ready? st with
    | some st => pool.feed (pool.take st path) rest
    | none => st

/-- The pool ends: workers that are busy still are given up. -/
def close (st : PoolState) : PoolReport × List Event :=
  ({ st.report with timedOut := !st.busy.isEmpty }, st.events ++ [.message .finish])

/-- Runs all paths through the given number of workers; it fails only if they cannot be started. -/
def start (pool : Pool) (threads : Nat) (paths : List Path) :
    Except SandboxError (PoolReport × List Event) :=
  match pool.module.spawnAll (max threads 1) with
  | .error e => .error e
  | .ok workers => .ok (close (pool.feed (.ofWorkers workers) paths))

end Pool

end BulkEdit
