import BulkEdit.Filemod.Run
import BulkEdit.Run.Error
import BulkEdit.Run.Host
import BulkEdit.Selection.Matcher
import BulkEdit.Worker.Pool

/-!
# Running a codemod

What a codemod produces are events; its commands are applied by whoever runs it.
-/

namespace BulkEdit

/-- What a run works with: the code of codemods, the formatters, and what counts as the same
source. -/
structure Toolset where
  host : Host
  formatters : FormatterRegistry := {}
  normalizer : Normalizer := Normalizer.parenthesis

/-- What a run changes: the tree, what has been resolved, and what has been told. -/
structure World where
  tree : FileTree
  cache : ModuleCache := {}
  events : List Event := []
  /-- The calls of filemod hooks. -/
  calls : List HookCall := []

/-- A part of a run. -/
abbrev Run := EStateM RunError World

namespace Run

def emit (events : List Event) : Run Unit :=
  modify fun w => { w with events := w.events ++ events }

/-- Goes on with a value unless there is none. -/
def require {ε α : Type} (wrap : ε → RunError) : Except ε α → Run α
  | .ok a => pure a
  | .error e => throw (wrap e)

def tree : Run FileTree :=
  return (← get).tree

/-- A codemod without a usable entry is a fault of the configuration. -/
def resolutionError (codemod : Codemod) : SandboxError → RunError
  | .missingExport detail =>
    .config (.unresolvableExport (codemod.entryPath.text ++ " (" ++ detail ++ ")"))
  | e => .sandbox e

def transform (tools : Toolset) (codemod : Codemod) (source : String) : Run Module := do
  let cache := (← get).cache
  let (module, cache) ← require (resolutionError codemod) <|
    cache.transform codemod.entryPath fun _ =>
      (tools.host.resolveTransform codemod source).module
  modify fun w => { w with cache }
  pure module

def filemod (tools : Toolset) (codemod : Codemod) : Run Filemod := do
  let cache := (← get).cache
  let (filemod, cache) ← require (resolutionError codemod) <|
    cache.filemod codemod.entryPath fun _ => tools.host.resolveFilemod codemod
  modify fun w => { w with cache }
  pure filemod

/-- The patterns of a codemod and their matcher. -/
def selection (flow : Flow) (codemod : Codemod) (ruleSource : Option String)
    (filemodIncluded : Option (List String)) : Run (PatternSet × Matcher) := do
  let patterns ← require .config
    (PatternSet.build (← tree) flow codemod ruleSource filemodIncluded)
  let matcher ← require .config (Matcher.ofPatterns flow.target patterns)
  pure (patterns, matcher)

/-- Says that there is nothing to do. -/
def noFiles (flow : Flow) : Run Unit :=
  emit [.console .error (noFilesMessage flow.target)]

/-- Says what is about to be run. -/
def announce (patterns : PatternSet) (codemod : Codemod) (flow : Flow) : Run Unit :=
  emit [.console .info (patterns.summary codemod flow.target)]

def pool (tools : Toolset) (codemod : Codemod) (flow : Flow) (arguments : ArgumentRecord)
    (module : Module) (tree : FileTree) : Pool where
  module
  tree
  run := {
    engine := module.engine, arguments, format := flow.format, normalizer := tools.normalizer }
  formatters := tools.formatters
  codemodName := codemod.name
  target := flow.target

/-- Runs a codemod that transforms files one by one. -/
def perFile (tools : Toolset) (codemod : Codemod) (flow : Flow) (arguments : ArgumentRecord) :
    Run Unit := do
  let source ← require .tree (tools.host.loadSource codemod.entryPath)
  let module ← transform tools codemod source
  let ruleSource := if codemod.engine = .astGrep then some source else none
  let (patterns, matcher) ← selection flow codemod ruleSource none
  let tree ← tree
  match matcher.collect tree flow.target with
  | .error _ => noFiles flow
  | .ok [] => noFiles flow
  | .ok paths =>
    announce patterns codemod flow
    let (_, events) ← require .sandbox
      ((pool tools codemod flow arguments module tree).start flow.workerCount paths)
    emit events
    emit [.success ⟨codemod.name, none, events.filterMap Event.command?⟩]

/-- Why a filemod did not come to its end. -/
def haltError : Halt → RunError
  | .failed e => .sandbox e
  | .crashed => .sandbox (.execution "filemod task failed")
  | .exhausted => .sandbox (.execution "filemod task failed")

/-- Runs a filemod. -/
def wholeTree (tools : Toolset) (codemod : Codemod) (flow : Flow) (arguments : ArgumentRecord) :
    Run Unit := do
  let _ ← require .tree (tools.host.loadSource codemod.entryPath)
  let filemod ← filemod tools codemod
  let (patterns, matcher) ← selection flow codemod none filemod.included
  let tree ← tree
  match ← require .tree (matcher.collect tree flow.target) with
  | [] => noFiles flow
  | paths =>
    announce patterns codemod flow
    let outcome := filemod.outcome tree flow.target (some paths) arguments flow.format
    modify fun w => { w with calls := w.calls ++ outcome.calls }
    emit (Notice.events codemod.name { total := paths.length } outcome.notices)
    require haltError outcome.result
    let commands := tools.formatters.formatCommands outcome.commands
    emit (commands.map .command)
    emit [.success ⟨codemod.name, none, commands⟩]

/-- Runs a codemod that is no recipe. -/
def single (tools : Toolset) (codemod : Codemod) (flow : Flow) (arguments : ArgumentRecord) :
    Run Unit :=
  match codemod.engine with
  | .piranha => throw (.config .piranhaUnsupported)
  | .recipe => pure ()
  | .filemod => wholeTree tools codemod flow arguments
  | .jscodeshift => perFile tools codemod flow arguments
  | .tsMorph => perFile tools codemod flow arguments
  | .astGrep => perFile tools codemod flow arguments

end Run

end BulkEdit
