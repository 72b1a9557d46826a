import BulkEdit.Filemod.Hooks
import BulkEdit.Settings.Codemod
import BulkEdit.Worker.Module

/-!
# Hosts

The code of codemods comes from a host. It knows codemods that are part of the program, by the
places of their entries, or it runs them in child processes.
-/

namespace BulkEdit

/-- Codemods that are part of the program, the latest registration first. -/
structure Builtins where
  transforms : List (Route × Transform) := []
  filemods : List (Route × Filemod) := []
  sources : List (Route × String) := []

/-- Where the code of codemods comes from. -/
inductive Host where
  | builtin (known : Builtins)
  | external (launch : Launch) (sources : FileTree)

/-- The outcome of looking for a transform, with the lines that a child heard when it was tried. -/
structure Resolved where
  module : Except SandboxError Module
  heard : List String := []

namespace Host

/-- The source of an entry. A host of built-in codemods knows some sources; what it does not know is
empty. -/
def loadSource (host : Host) (entry : Path) : Except TreeError String :=
  match host with
  | builtin known => .ok ((known.sources.lookup entry.route).getD "")
  | external _ sources => sources.read entry

/-- The transform of a codemod. A child is started once to see whether it has one. -/
def resolveTransform (host : Host) (codemod : Codemod) (source : String) : Resolved :=
  match host with
  | builtin known =>
    match known.transforms.lookup codemod.entryPath.route with
    | none => { module := .error (.missingExport codemod.entryPath.normalize.text) }
    | some transform =>
      { module := .ok ⟨codemod.engine, codemod.displayName, .builtin transform⟩ }
  | external launch _ =>
    let module : Module :=
      ⟨codemod.engine, codemod.displayName, .external launch codemod.entryPath source⟩
    let probe := module.spawn
    { module := probe.worker.map fun _ => module, heard := probe.heard }

/-- The filemod of a codemod; children cannot run one. -/
def resolveFilemod (host : Host) (codemod : Codemod) : Except SandboxError Filemod :=
  match host with
  | builtin known =>
    match known.filemods.lookup codemod.entryPath.route with
    | none => .error (.missingExport codemod.entryPath.normalize.text)
    | some filemod => .ok filemod
  | external _ _ =>
    .error (.unsupported ("filemod " ++ codemod.displayName ++ " cannot run out of process"))

end Host

/-- What has been resolved so far, by the entry path of the codemod. -/
structure ModuleCache where
  transforms : List (List Component × Module) := []
  filemods : List (List Component × Filemod) := []

namespace ModuleCache

/-- How much has been resolved. -/
def size (cache : ModuleCache) : Nat :=
  cache.transforms.length + cache.filemods.length

/-- The transform of an entry, resolved now if it has not been resolved before. -/
def transform (cache : ModuleCache) (entry : Path) (resolve : Unit → Except SandboxError Module) :
    Except SandboxError (Module × ModuleCache) :=
  match cache.transforms.lookup entry.components with
  | some module => .ok (module, cache)
  | none =>
    (resolve ()).map fun module =>
      (module, { cache with transforms := (entry.components, module) :: cache.transforms })

/-- The filemod of an entry, resolved now if it has not been resolved before. -/
def filemod (cache : ModuleCache) (entry : Path) (resolve : Unit → Except SandboxError Filemod) :
    Except SandboxError (Filemod × ModuleCache) :=
  match cache.filemods.lookup entry.components with
  | some filemod => .ok (filemod, cache)
  | none =>
    (resolve ()).map fun filemod =>
      (filemod, { cache with filemods := (entry.components, filemod) :: cache.filemods })

end ModuleCache

end BulkEdit
