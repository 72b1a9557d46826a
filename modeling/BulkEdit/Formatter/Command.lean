import BulkEdit.Formatter.Registry
import BulkEdit.Program.Shell.Run
import BulkEdit.Text.Blank
import BulkEdit.Text.Utf8

/-!
# Formatters that are programs

Such a formatter reads the source and writes the formatted text. A program that fails, or whose
output is no text, gives no formatted text.
-/

namespace BulkEdit

/-- What a program does, by its name; nothing for a program that is not there. -/
abbrev Programs := String → Option (Program.Task → Program.Outcome)

/-- A program with its arguments. -/
structure CommandFormatter where
  program : String
  arguments : List String
deriving DecidableEq, Repr

namespace CommandFormatter

/-- What stands for the path in arguments. -/
def pathMark : String := "\x7bpath\x7d"

def argumentsFor (f : CommandFormatter) (p : Path) : List String :=
  f.arguments.map fun argument => Text.replaceAll argument pathMark p.text

/-- Whether the system can be given a word: a byte of value zero would end it early. -/
def isPassable (word : String) : Bool :=
  !word.toList.contains '\x00'

def formatter (f : CommandFormatter) (programs : Programs) : Formatter := fun p data =>
  let arguments := f.argumentsFor p
  match if (f.program :: arguments).all isPassable then programs f.program else none with
  | none => .error (.spawn f.program)
  | some run =>
    let o := run
      { name := Program.octets f.program
        arguments := arguments.map Program.octets
        input := Program.octets data }
    if o.status ≠ 0 then
      .error (.failed f.program (Text.trim (Program.shown o.stderr)))
    else
      match Text.ofBytes? (Program.bytesOf o.stdout) with
      | some text => .ok text
      | none => .error .invalidOutput

end CommandFormatter

end BulkEdit
