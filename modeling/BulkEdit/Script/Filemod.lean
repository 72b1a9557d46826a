import BulkEdit.Filemod.Hooks
import BulkEdit.Json.Printer

/-!
# Filemods written as rules

The first rule that fits a path, the content and the state applies: it asks its questions, and then
fails or gives its commands, in whose texts marks stand for the path, its folder, the state and the
content.
-/

namespace BulkEdit.Script

/-- How the state of a pass is made. -/
structure InitRule where
  queries : List Query := []
  error : Option String := none
  /-- Counts the passes. -/
  count : Bool := false
  value : Option Json := none
deriving Repr

/-- What a handler does where the rule fits. -/
structure HandlerRule where
  suffix : String := ""
  substring : String := ""
  state : Option Json := none
  queries : List Query := []
  error : Option String := none
  panic : Bool := false
  commands : List FilemodCommand := []
deriving Repr

/-- When a filemod begins again. -/
structure FinishRule where
  error : Option String := none
  restartBelow : Option Nat := none
deriving DecidableEq, Repr

/-- A filemod as rules. -/
structure FilemodScript where
  included : Option (List String) := none
  excluded : List String := []
  init : InitRule := {}
  directory : Option (List HandlerRule) := none
  file : List HandlerRule := []
  data : List HandlerRule := []
  finish : FinishRule := {}

/-- The state as a number; what is no whole number that is not negative counts as zero. -/
def stateCount (state : FilemodState) : Nat :=
  match state with
  | some (.int n) => n.toNat
  | _ => 0

def HandlerRule.fits (rule : HandlerRule) (path : Path) (data : String) (state : FilemodState) :
    Bool :=
  Text.endsWith path.text rule.suffix && Text.contains data rule.substring &&
    rule.state.all fun wanted => wanted.sorted.same (state.getD .null).sorted

/-- The text before the last slash. -/
def folderText (text : String) : String :=
  String.ofList ((text.toList.reverse.dropWhile (· ≠ '/')).drop 1).reverse

/-- A text with its marks filled in, one kind of mark after the other. -/
def fill (path : Path) (data : String) (state : FilemodState) (text : String) : String :=
  let text := Text.replaceAll text "\x7bpath\x7d" path.text
  let text := Text.replaceAll text "\x7bdir\x7d" (folderText path.text)
  let text := Text.replaceAll text "\x7bstate\x7d" (state.getD .null).sortedText
  Text.replaceAll text "\x7bdata\x7d" data

def fillCommand (f : String → String) : FilemodCommand → FilemodCommand
  | .handleDirectory path => .handleDirectory ⟨f path.text⟩
  | .handleFile path => .handleFile ⟨f path.text⟩
  | .upsertFile path => .upsertFile ⟨f path.text⟩
  | .deleteFile path => .deleteFile ⟨f path.text⟩
  | .moveFile oldPath newPath => .moveFile ⟨f oldPath.text⟩ ⟨f newPath.text⟩
  | .upsertData path data => .upsertData ⟨f path.text⟩ (f data)
  | .noop => .noop

def HandlerRule.perform (rule : HandlerRule) (path : Path) (data : String)
    (state : FilemodState) : Inquiry (Except String (List FilemodCommand)) :=
  .askAll rule.queries <|
    match rule.error, rule.panic with
    | some message, _ => .done (.error message)
    | none, true => .crash
    | none, false => .done (.ok (rule.commands.map (fillCommand (fill path data state))))

def InitRule.perform (rule : InitRule) (previous : FilemodState) :
    Inquiry (Except String FilemodState) :=
  .askAll rule.queries <| .done <|
    match rule.error, rule.count, rule.value with
    | some message, _, _ => .error message
    | none, true, _ => .ok (some (.int (stateCount previous + 1)))
    | none, false, some value => .ok (some value)
    | none, false, none => .ok previous

/-- Whether a rule wants another pass. -/
def FinishRule.perform (rule : FinishRule) (state : FilemodState) : Except String FinishCommand :=
  match rule.error, rule.restartBelow with
  | some message, _ => .error message
  | none, some limit => .ok (if stateCount state < limit then .restart else .noop)
  | none, none => .ok .noop

def filemod (script : FilemodScript) : Filemod where
  included := script.included
  excluded := script.excluded
  init previous _ _ := script.init.perform previous
  directory path _ state :=
    match script.directory.bind (·.find? (·.fits path "" state)) with
    | none => .done none
    | some rule => (rule.perform path "" state).bind fun result => .done (some result)
  file path _ state :=
    match script.file.find? (·.fits path "" state) with
    | none => .done (.ok [.upsertFile path])
    | some rule => rule.perform path "" state
  data path data _ state :=
    match script.data.find? (·.fits path data state) with
    | none => .done (.ok .noop)
    | some rule =>
      (rule.perform path data state).bind fun result =>
        .done (result.map fun commands => commands.head?.getD .noop)
  finish _ state := script.finish.perform state

end BulkEdit.Script
