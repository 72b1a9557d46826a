/-!
# Failing code

What can go wrong with the code of a codemod.
-/

namespace BulkEdit

/-- A fault of a codemod's code or of the process that runs it. -/
inductive SandboxError where
  | missingExport (detail : String)
  | validation (detail : String)
  | execution (detail : String)
  | panicked (detail : String)
  | startFailed (program : String)
  | exited
  | unreadableMessage (line : String)
  | unexpectedMessage (detail : String)
  | unsupported (detail : String)
deriving DecidableEq, Repr

/-- The wording of the error; why a program does not start or a line cannot be read is left out. -/
def SandboxError.message : SandboxError → String
  | missingExport detail => "no callable transform export found: " ++ detail
  | validation detail => detail
  | execution detail => "transform failed: " ++ detail
  | panicked detail => "transform panicked: " ++ detail
  | startFailed program => "sandbox process error: failed to start " ++ program
  | exited => "sandbox process error: worker exited"
  | unreadableMessage line => "sandbox protocol error: invalid worker message " ++ line
  | unexpectedMessage detail => "sandbox protocol error: " ++ detail
  | unsupported detail => detail

end BulkEdit
