import BulkEdit.Command.Basic
import BulkEdit.Text.Formless
import BulkEdit.Text.Search

/-!
# Formatters

Texts are formatted on their own or in commands. A formatter is chosen by the extension of a file,
in any case of its ASCII letters; where it fails, the text stays as it is.
-/

namespace BulkEdit

/-- Why a formatter gives no text. -/
inductive FormatError where
  | spawn (program : String)
  | failed (program stderr : String)
  | invalidOutput
  | rejected (reason : String)
deriving DecidableEq, Repr

/-- The wording of the error; why a program cannot be started is left out. -/
def FormatError.message : FormatError → String
  | spawn program => "failed to run formatter " ++ program
  | failed program stderr => "formatter " ++ program ++ " exited unsuccessfully: " ++ stderr
  | invalidOutput => "formatter produced invalid UTF-8"
  | rejected reason => reason

abbrev Formatter := Path → String → Except FormatError String

/-- The formatters by extension, the latest registration of an extension first. -/
structure FormatterRegistry where
  byExtension : List (String × Formatter) := []

namespace FormatterRegistry

def register (r : FormatterRegistry) (extensions : List String) (f : Formatter) :
    FormatterRegistry :=
  ⟨extensions.foldl (fun known ext => (Text.lowerAscii ext, f) :: known) r.byExtension⟩

def isEmpty (r : FormatterRegistry) : Bool :=
  r.byExtension.isEmpty

def find? (r : FormatterRegistry) (p : Path) : Option Formatter :=
  p.extension?.bind fun ext => r.byExtension.lookup (Text.lowerAscii ext)

def formatText (r : FormatterRegistry) (p : Path) (data : String) : String :=
  match r.find? p with
  | none => data
  | some f =>
    match f p data with
    | .ok formatted => formatted
    | .error _ => data

/-- The formatted content, if it is to be formatted. -/
def formatIf (r : FormatterRegistry) (format : Bool) (p : Path) (data : String) : String :=
  if format then r.formatText p data else data

/-- A character between the quotes of a shown text; one without a form of its own is named by its
number. -/
def shownChar (c : Char) : String :=
  if c = '"' then "\\\""
  else if c = '\\' then "\\\\"
  else if c = '\n' then "\\n"
  else if c = '\r' then "\\r"
  else if c = '\t' then "\\t"
  else if c = '\x00' then "\\0"
  else if Text.isFormless c then
    "\\u\x7b" ++ String.ofList (Nat.toDigits 16 c.toNat) ++ "\x7d"
  else String.singleton c

/-- A text between quotes. -/
def shown (s : String) : String :=
  "\"" ++ String.join (s.toList.map shownChar) ++ "\""

/-- The extensions in order. -/
def extensions (r : FormatterRegistry) : List String :=
  (Json.sortMembers (r.byExtension.map fun (ext, _) => (ext, ()))).map Prod.fst

/-- The registry as shown in logs. -/
def describe (r : FormatterRegistry) : String :=
  "FormatterRegistry \x7b extensions: [" ++ ", ".intercalate (r.extensions.map shown) ++ "] \x7d"

/-- The command with its new content formatted; an update that changes nothing is dropped. -/
def formatCommand? (r : FormatterRegistry) : FileCommand → Option FileCommand
  | .create newPath newData format =>
    some (.create newPath (r.formatIf format newPath newData) format)
  | .update oldPath oldData newData format =>
    let formatted := r.formatIf format oldPath newData
    if formatted = oldData then none else some (.update oldPath oldData formatted format)
  | c => some c

/-- The commands that are left after formatting. -/
def formatCommands (r : FormatterRegistry) (commands : List FileCommand) : List FileCommand :=
  commands.filterMap r.formatCommand?

end FormatterRegistry

end BulkEdit
