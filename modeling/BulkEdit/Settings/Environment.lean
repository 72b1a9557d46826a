import BulkEdit.Settings.Flow

/-!
# Environment variables

Some defaults of the settings are taken from environment variables.
-/

namespace BulkEdit

/-- What the environment decides; what it does not say stays at the machine's default. -/
structure Environment where
  threads : Option Nat := none
  idleTimeoutMs : Nat := 30000
  outputDir : Option Path := none
  format : Bool := true
deriving DecidableEq, Repr

namespace Environment

/-- A whole number of sixty-four bits: digits, with at most a plus sign before them. -/
def readCount? (s : String) : Option Nat :=
  let digits := match s.toList with
    | '+' :: rest => rest
    | cs => cs
  if digits ≠ [] ∧ digits.all Char.isDigit ∧ Number.digitsValue digits < 0x10000000000000000 then
    some (Number.digitsValue digits)
  else none

def readBool? : String → Option Bool
  | "true" => some true
  | "false" => some false
  | _ => none

/-- Reads a variable if it is set; blanks around its value do not count. -/
def setting {α : Type} (lookup : String → Option String) (key : String)
    (read? : String → Option α) : Except ConfigError (Option α) :=
  match lookup key with
  | none => .ok none
  | some value =>
    match read? (Text.trim value) with
    | some a => .ok (some a)
    | none => .error (.invalidEnvironment key value)

/-- Reads all variables; the first that cannot be read decides. -/
def ofLookup (lookup : String → Option String) : Except ConfigError Environment := do
  let threads ← setting lookup "CODEMOD_THREADS" readCount?
  let timeout ← setting lookup "CODEMOD_IDLE_TIMEOUT_MS" readCount?
  let dir := ((lookup "CODEMOD_OUTPUT_DIR").map Text.trim).filter (· ≠ "")
  let format ← setting lookup "CODEMOD_FORMAT" readBool?
  pure {
    threads := threads.map (max · 1)
    idleTimeoutMs := timeout.getD 30000
    outputDir := dir.map Path.mk
    format := format.getD true }

/-- The flow settings for a target. The machine's own number of threads is given by the caller. -/
def flow (e : Environment) (machineThreads : Nat) (target : Path) : Flow :=
  { target
    threads := e.threads.getD machineThreads
    format := e.format
    idleTimeoutMs := e.idleTimeoutMs }

end Environment

end BulkEdit
