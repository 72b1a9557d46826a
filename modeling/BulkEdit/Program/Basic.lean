import BulkEdit.Digest
import BulkEdit.Disk.Basic
import BulkEdit.Text.Utf8

/-!
# Programs

What programs are given, what they leave, and how they name files in their complaints. Programs work
on bytes. Here a byte is the character of its number, so that the bytes that matter to a program can
be written as characters.
-/

namespace BulkEdit.Program

/-- Bytes, each as the character of its number. -/
abbrev Octets := List Char

def octets (s : String) : Octets :=
  (Digest.bytesOf s).map fun b => Char.ofNat b.toNat

def bytesOf (o : Octets) : List UInt8 :=
  o.map fun c => c.toNat.toUInt8

def ofBytes (bytes : List UInt8) : Octets :=
  bytes.map fun b => Char.ofNat b.toNat

/-- The text that octets spell, with marks for what is not well formed. -/
def shown (o : Octets) : String :=
  Text.ofBytesLossy (bytesOf o)

/-- Whether octets come no later than others in the order of their bytes. -/
def inOrder (a b : Octets) : Bool :=
  !List.lex b a fun x y => Nat.blt x.toNat y.toNat

/-- What a program is given: its name and arguments, what it reads, and the disk. -/
structure Task where
  /-- How the program was called; its complaints begin with that. -/
  name : Octets
  arguments : List Octets
  input : Octets
  /-- Whether there is anything to read from. -/
  reads : Bool := true
  /-- Whether there is anything to write to. -/
  writes : Bool := true
  disk : Disk := .fresh

/-- What a program leaves: its two outputs, its exit status, what it did not read, and the disk. -/
structure Outcome where
  stdout : Octets := []
  stderr : Octets := []
  status : Nat := 0
  unread : Octets := []
  disk : Disk := .fresh

namespace Task

/-- The outcome of a program that has done nothing yet. -/
def start (t : Task) : Outcome :=
  { unread := t.input, disk := t.disk }

def complaint (t : Task) (text : Octets) : Octets :=
  t.name ++ ": ".toList ++ text ++ ['\n']

/-- The outcome of a program that gives up with a complaint. -/
def fail (t : Task) (status : Nat) (complaint : Octets) : Outcome :=
  { t.start with stderr := complaint, status }

/-- What the system says of a descriptor that is not open. -/
def closedText : String := "Bad file descriptor"

/-- The outcome of a program that writes a text and reads nothing. -/
def print (t : Task) (text : Octets) : Outcome :=
  if t.writes || text.isEmpty then { t.start with stdout := text }
  else t.fail 1 (t.complaint (octets ("write error: " ++ closedText)))

/-- The outcome of a program that turns all it reads into something else. -/
def convert (t : Task) (f : Octets → Octets) : Outcome :=
  if !t.reads then t.fail 1 (t.complaint (octets ("read error: " ++ closedText)))
  else { t.print (f t.input) with unread := [] }

end Task

/-- The outcome with a complaint added; the program goes on. -/
def Outcome.complain (o : Outcome) (complaint : Octets) : Outcome :=
  { o with stderr := o.stderr ++ complaint, status := 1 }

/-! ### Names in complaints -/

/-- Characters that mean nothing to a shell anywhere in a word. -/
def isHarmless (c : Char) : Bool :=
  c.isAlphanum || "%+,-./:]_@\\".toList.contains c

/-- Characters that a terminal shows as they are. -/
def isGraphic (c : Char) : Bool :=
  32 ≤ c.toNat && c.toNat < 127

def needsQuotes (name : Octets) : Bool :=
  match name with
  | [] => true
  | ['\x7b'] => true
  | ['\x7d'] => true
  | first :: rest =>
    first = '#' || first = '~' ||
      (first :: rest).any fun c =>
        !(isHarmless c || "#~\x7b\x7d".toList.contains c) || c = '\\' || c = ':'

/-- The letter of a byte with an escape of its own. -/
def escapeLetter? (c : Char) : Option Char :=
  match c.toNat with
  | 7 => some 'a'
  | 8 => some 'b'
  | 9 => some 't'
  | 10 => some 'n'
  | 11 => some 'v'
  | 12 => some 'f'
  | 13 => some 'r'
  | _ => none

def octalDigits (c : Char) : Octets :=
  let digit (n : Nat) : Char := Char.ofNat (48 + n % 8)
  [digit (c.toNat / 64), digit (c.toNat / 8), digit c.toNat]

/-- The inside of a name in single quotes; `escaping` tells whether a run of escapes is open. -/
def quotedInside : Bool → Octets → Octets
  | true, [] => []
  | false, [] => []
  | escaping, c :: rest =>
    if isGraphic c then
      (if escaping then "''".toList else []) ++ (if c = '\'' then "'\\''".toList else [c])
        ++ quotedInside false rest
    else
      (if escaping then [] else "'$'".toList)
        ++ '\\' :: (match escapeLetter? c with
          | some letter => [letter]
          | none => octalDigits c)
        ++ quotedInside true rest

/-- A name as complaints show it: quoted for a shell if it has to be. -/
def quotedName (name : Octets) : Octets :=
  if !needsQuotes name then name
  else if name.contains '\'' &&
      name.all fun c => isHarmless c && c ≠ '\\' || c = '\'' || c = ' ' then
    '"' :: name ++ ['"']
  else '\'' :: quotedInside false name ++ ['\'']

/-- An argument as complaints show it: always between quotes. -/
def quotedArgument (argument : Octets) : Octets :=
  let inside := argument.flatMap fun c =>
    if c = '\'' then "\\'".toList
    else if c = '\\' then "\\\\".toList
    else if isGraphic c then [c]
    else '\\' :: (match escapeLetter? c with
      | some letter => [letter]
      | none => octalDigits c)
  '\'' :: inside ++ ['\'']

/-! ### Files -/

def pathOf (name : Octets) : Path :=
  ⟨shown name⟩

/-- How the system explains a fault at a path. -/
def faultText (p : Path) : DiskFault → String
  | .absent => "No such file or directory"
  | .other =>
    if Disk.isBadPath p.text || (Disk.segments p.text).any (·.utf8ByteSize > Disk.maxNameLength) then
      "File name too long"
    else "Not a directory"

/-- The contents of a file, or why it cannot be read. -/
def contents (d : Disk) (name : Octets) : Except String Octets :=
  let p := pathOf name
  if name = [] then .error (faultText p .absent)
  else
    match d.look p with
    | .ok (_, .file bytes) => .ok (ofBytes bytes)
    | .ok (_, .device) => .ok []
    | .ok _ => .error "Is a directory"
    | .error e => .error (faultText p e)

/-- Whether a name stands for what the program reads anyway. -/
def isInputName (name : Octets) : Bool :=
  name == "-".toList || name == "/dev/stdin".toList || name == "/dev/fd/0".toList ||
    name == "/proc/self/fd/0".toList

end BulkEdit.Program
