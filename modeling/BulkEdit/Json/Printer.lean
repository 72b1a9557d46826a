import BulkEdit.Digest
import BulkEdit.Json.Basic
import BulkEdit.Number.Shortest

/-!
# Writing JSON values

The text is compact, without spaces. Only quotes, backslashes and control characters are escaped in
strings.
-/

namespace BulkEdit.Json

/-- A character as it stands in a string. -/
def escaped (c : Char) : List Char :=
  if c = '"' then ['\\', '"']
  else if c = '\\' then ['\\', '\\']
  else if c = '\x08' then ['\\', 'b']
  else if c = '\t' then ['\\', 't']
  else if c = '\n' then ['\\', 'n']
  else if c = '\x0c' then ['\\', 'f']
  else if c = '\r' then ['\\', 'r']
  else if c.toNat < 0x20 then
    ['\\', 'u', '0', '0', Digest.hexDigit (c.toNat / 16), Digest.hexDigit (c.toNat % 16)]
  else [c]

def quoted (s : String) : String :=
  String.ofList ('"' :: s.toList.flatMap escaped ++ ['"'])

def wholeText (n : Int) : String :=
  if n < 0 then "-" ++ Nat.repr n.natAbs else Nat.repr n.natAbs

/-- A double, with the sign of its exponent; what is not finite has no number and is written as
null. -/
def realText (d : Double) : String :=
  if d.isNaN || d.isInfinite then "null" else Number.finiteText d "+"

mutual

/-- The text of a value, members in the order in which they are kept. -/
def render : Json → String
  | null => "null"
  | bool true => "true"
  | bool false => "false"
  | int n => wholeText n
  | real d => realText d
  | str s => quoted s
  | arr items => "[" ++ ",".intercalate (renderItems items) ++ "]"
  | obj members => "\x7b" ++ ",".intercalate (renderMembers members) ++ "\x7d"
  | unreadable => "null"
  | partly seen _ => seen.render

def renderItems : List Json → List String
  | [] => []
  | item :: rest => item.render :: renderItems rest

def renderMembers : List (String × Json) → List String
  | [] => []
  | (name, item) :: rest => (quoted name ++ ":" ++ item.render) :: renderMembers rest

end

/-- The text with all objects read as maps and their names in order. -/
def sortedText (value : Json) : String :=
  value.sorted.render

end BulkEdit.Json
