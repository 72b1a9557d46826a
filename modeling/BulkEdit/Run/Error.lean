import BulkEdit.FileTree.Basic
import BulkEdit.Settings.Error
import BulkEdit.Worker.Error

/-!
# Failing runs

Why a run as a whole fails. Files that fail one by one are told of in events and do not end a run.
-/

namespace BulkEdit

/-- A fault that ends a run. -/
inductive RunError where
  | config (e : ConfigError)
  | tree (e : TreeError)
  | sandbox (e : SandboxError)
deriving DecidableEq, Repr

namespace RunError

def message : RunError → String
  | config e => "configuration error: " ++ e.message
  | tree e => e.message
  | sandbox e => e.message

/-- Whether what the user configured is at fault. -/
def isConfig : RunError → Bool
  | config _ => true
  | _ => false

end RunError

end BulkEdit
