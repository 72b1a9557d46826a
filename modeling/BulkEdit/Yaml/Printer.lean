import BulkEdit.Digest
import BulkEdit.Json.Printer
import BulkEdit.Yaml.Value

/-!
# Writing YAML values

Values are written in block style: one line for each item or entry, and a text without quotes where
nothing in it could be misread.
-/

namespace BulkEdit.Yaml

/-! ### Texts -/

/-- Whether a text would be read as something else, or is a row of digits that begins with an idle
zero. -/
def looksResolved (s : String) : Bool :=
  hasIdleZero s.toList ||
    (match resolve? s with
      | some (.str _) => false
      | _ => true)

/-- Characters that are written as they are. -/
def isPrintable (c : Char) : Bool :=
  let n := c.toNat
  n = 10 || (0x20 ≤ n && n ≤ 0x7E) || (0xA0 ≤ n && n ≤ 0xFFFD && n ≠ 0xFEFF) || 0x10000 ≤ n

/-- Whether a character at some place keeps a text from being written plain. -/
def spoilsPlain (before after : Option Char) (c : Char) : Bool :=
  let isGap (d : Option Char) : Bool := match d with
    | none => true
    | some d => isSpaceOrTab d || isBreak d
  match before with
  | none =>
    "#,[]&*!|>'\"%@".toList.contains c || c = '\x7b' || c = '\x7d' || c = '\x60' ||
      ((c = '?' || c = ':' || c = '-') && isGap after)
  | some _ => (c = ':' && isGap after) || (c = '#' && isGap before)

def anySpoils : Option Char → List Char → Bool
  | _, [] => false
  | before, c :: rest => spoilsPlain before rest.head? c || anySpoils (some c) rest

def isPlainText (s : String) : Bool :=
  let cs := s.toList
  let marked := ['-', '-', '-'].isPrefixOf cs || ['.', '.', '.'].isPrefixOf cs
  let edged := cs.head? == some ' ' || cs.getLast? == some ' '
  !marked && !edged && !cs.any isBreak && !anySpoils none cs

def doubleQuoted (c : Char) : List Char :=
  let hex (n : Nat) : Char := Digest.hexDigit n |>.toUpper
  let n := c.toNat
  if c = '"' then ['\\', '"']
  else if c = '\\' then ['\\', '\\']
  else if isPrintable c && !isBreak c then [c]
  else
    match c with
    | '\x00' => ['\\', '0']
    | '\x07' => ['\\', 'a']
    | '\x08' => ['\\', 'b']
    | '\t' => ['\\', 't']
    | '\n' => ['\\', 'n']
    | '\x0b' => ['\\', 'v']
    | '\x0c' => ['\\', 'f']
    | '\r' => ['\\', 'r']
    | '\x1b' => ['\\', 'e']
    | '\x85' => ['\\', 'N']
    | '\xa0' => ['\\', '_']
    | '\u2028' => ['\\', 'L']
    | '\u2029' => ['\\', 'P']
    | _ =>
      if n < 0x100 then ['\\', 'x', hex (n / 16), hex (n % 16)]
      else ['\\', 'u', hex (n / 4096), hex (n / 256 % 16), hex (n / 16 % 16), hex (n % 16)]

/-! ### Lines -/

/-- A line, and the character that ends it where another one follows. -/
structure Line where
  text : String
  stop : Char := '\n'
deriving DecidableEq, Repr

namespace Line

/-- Moves a line to the right; an empty line stays empty. -/
def indented (line : Line) : Line :=
  if line.text = "" then line else { line with text := "  " ++ line.text }

/-- Puts a text before a line. -/
def behind (line : Line) (before : String) : Line :=
  { line with text := before ++ line.text }

/-- The lines of a text, at least one. -/
def ofChars : List Char → List Char → List Line
  | held, [] => [⟨String.ofList held.reverse, '\n'⟩]
  | held, c :: rest =>
    if isBreak c then ⟨String.ofList held.reverse, c⟩ :: ofChars [] rest
    else ofChars (c :: held) rest

def join : List Line → String
  | [] => ""
  | [line] => line.text
  | line :: rest => line.text ++ String.singleton line.stop ++ join rest

end Line

def hasSpaceBeforeBreak : List Char → Bool
  | c :: d :: rest => (c = ' ' && isBreak d) || hasSpaceBeforeBreak (d :: rest)
  | _ => false

def hasSpaceAfterBreak : List Char → Bool
  | c :: d :: rest => (isBreak c && d = ' ') || hasSpaceAfterBreak (d :: rest)
  | _ => false

/-- The lines of a text without quotes or in the quotes that its characters allow. -/
def textLines (s : String) : List Line :=
  let cs := s.toList
  if cs.all isPrintable && !cs.contains '\n' && !hasSpaceBeforeBreak cs && !hasSpaceAfterBreak cs then
    if !looksResolved s && isPlainText s then [⟨s, '\n'⟩]
    else
      let doubled := cs.flatMap fun c => if c = '\'' then ['\'', '\''] else [c]
      Line.ofChars [] ('\'' :: doubled ++ ['\''])
  else [⟨"\"" ++ String.ofList (cs.flatMap doubleQuoted) ++ "\"", '\n'⟩]

/-! ### Texts kept line by line -/

/-- Whether a text is kept line by line: it has several lines, and none of them ends in a space or
holds a character that must be escaped. -/
def isLiteral (s : String) : Bool :=
  let cs := s.toList
  cs.contains '\n' && cs.all isPrintable && !hasSpaceBeforeBreak cs && cs.getLast? != some ' '

/-- How the breaks at the end of a text are marked: none, one, or all of those that are there. -/
def chompMark (s : String) : String :=
  match s.toList.reverse with
  | [] => "-"
  | [c] => if isBreak c then "+" else "-"
  | c :: d :: _ => if !isBreak c then "-" else if isBreak d then "+" else ""

/-- The mark before the lines of a text. Where the first line does not show the indentation, the mark
gives it. -/
def literalMark (s : String) : String :=
  let isHidden := match s.toList with
    | [] => false
    | c :: _ => c = ' ' || isBreak c
  "|" ++ (if isHidden then "2" else "") ++ chompMark s

/-- The lines of a text; the break at the end of the last line opens no further one. -/
def literalLines (s : String) : List Line :=
  let lines := Line.ofChars [] s.toList
  if (lines.getLast?.map Line.text) = some "" then lines.dropLast else lines

/-! ### Values -/

/-- What the lines below the head of a value are. -/
inductive Shape where
  | text
  | sequence
  | mapping
deriving DecidableEq, Repr

/-- A written value: the line on which it begins and the lines below. The lines of a collection
without a tag have no such head. -/
inductive Written where
  | headed (head : Line) (lines : List Line) (shape : Shape)
  | block (lines : List Line) (shape : Shape)

namespace Written

def inline (text : String) : Written :=
  headed ⟨text, '\n'⟩ [] .text

/-- A text that begins on one line and goes on below. -/
def ofLines : List Line → Written
  | [] => inline ""
  | head :: lines => headed head lines .text

/-- All lines of a value that stands alone. -/
def lines : Written → List Line
  | headed head lines .text => head :: lines.map Line.indented
  | headed head lines _ => head :: lines
  | block lines _ => lines

/-- The lines of a value after a sign. Without a head the first line follows the sign; with one, the
lines go below it, and those of a sequence keep the column of the sign if `keepsColumn` says so. -/
def after (sign : String) (keepsColumn : Bool) : Written → List Line
  | headed head lines shape =>
    head.behind (sign ++ " ") ::
      (if keepsColumn && shape = .sequence then lines else lines.map Line.indented)
  | block [] _ => [⟨sign, '\n'⟩]
  | block (first :: rest) _ => first.behind (sign ++ " ") :: rest.map Line.indented

def asItem (w : Written) : List Line :=
  w.after "-" false

/-- The lines of an entry whose key fits on its line. A sequence keeps the column of the key. -/
def asEntry (key : String) : Written → List Line
  | block lines shape =>
    ⟨key ++ ":", '\n'⟩ :: (if shape = .sequence then lines else lines.map Line.indented)
  | value => value.after (key ++ ":") true

/-- The lines of an entry whose key takes lines of its own. -/
def asLongEntry (key value : Written) : List Line :=
  key.after "?" true ++ value.after ":" true

end Written

/-! ### Tags -/

/-- A character of a tag; those without a place in tags are written as the bytes of their encoding. -/
def tagChar (c : Char) : List Char :=
  if isWordChar c || ";/?:@&=+$,.~*'()[]".toList.contains c then [c]
  else (String.singleton c).toUTF8.toList.flatMap fun b =>
    ['%', (Digest.hexDigit (b.toNat / 16)).toUpper, (Digest.hexDigit (b.toNat % 16)).toUpper]

/-- What stands behind the mark of a tag. -/
def tagSuffix (name : String) : List Char :=
  match name.toList with
  | '!' :: rest => rest
  | cs => cs

/-- A local tag. The bare tag takes the form with angle brackets. -/
def tagText (name : String) : String :=
  match tagSuffix name with
  | [] => "!<%21>"
  | suffix => "!" ++ String.ofList (suffix.flatMap tagChar)

def Written.withTag (name : String) : Written → Written
  | headed head lines shape => headed (head.behind (tagText name ++ " ")) lines shape
  | block lines shape => headed ⟨tagText name, '\n'⟩ lines shape

/-! ### Keys -/

def doubleText (d : Double) : String :=
  if d.isNaN then ".nan"
  else if d.isInfinite then (if d.isNegative then "-.inf" else ".inf")
  else Number.finiteText d ""

/-- How many bytes a key takes before any quoting; `none` if it does not fit on one line. -/
def keySize? : Value → Option Nat
  | .null => some 4
  | .bool b => some (if b then 4 else 5)
  | .int n => some (Json.wholeText n).utf8ByteSize
  | .real d => some (doubleText d).utf8ByteSize
  | .str s => if s.toList.any isBreak then none else some s.utf8ByteSize
  | .sequence items => if items.isEmpty then some 0 else none
  | .mapping entries => if entries.isEmpty then some 0 else none
  | .tagged name value =>
    (keySize? value).map (· + (String.ofList ('!' :: tagSuffix name)).utf8ByteSize)

/-- Whether a key is short enough to be followed by a colon. -/
def isSimpleKey (key : Value) : Bool :=
  (keySize? key).any (· ≤ 128)

/-! ### Writing -/

mutual

def write : Value → Written
  | .null => .inline "null"
  | .bool true => .inline "true"
  | .bool false => .inline "false"
  | .int n => .inline (Json.wholeText n)
  | .real d => .inline (doubleText d)
  | .str s =>
    if isLiteral s then .headed ⟨literalMark s, '\n'⟩ (literalLines s) .text
    else .ofLines (textLines s)
  | .sequence [] => .inline "[]"
  | .sequence items => .block (writeItems items) .sequence
  | .mapping [] => .inline "\x7b\x7d"
  | .mapping entries => .block (writeEntries entries) .mapping
  | .tagged name value => (write value).withTag name

def writeItems : List Value → List Line
  | [] => []
  | item :: rest => (write item).asItem ++ writeItems rest

def writeEntries : List (Value × Value) → List Line
  | [] => []
  | (key, value) :: rest =>
    (match write key, isSimpleKey key with
      | .headed head [] _, true => (write value).asEntry head.text
      | long, _ => long.asLongEntry (write value)) ++ writeEntries rest

end

/-- Whether a key is one that a mapping of a single entry cannot have: a tagged value would pass for
the tag of the mapping, and a mapping of a single entry for its beginning. -/
def isMistakable : Value → Bool
  | .tagged _ _ => true
  | .mapping [_] => true
  | _ => false

mutual

/-- Whether a value can be written: no mapping of a single entry has a key that could be mistaken,
unless a tag stands before the mapping. -/
def isWritable (underTag : Bool) : Value → Bool
  | .sequence items => areWritable items
  | .mapping [(key, value)] =>
    (underTag || !isMistakable key) && isWritable false key && isWritable false value
  | .mapping entries => areWritableEntries entries
  | .tagged _ value => isWritable true value
  | _ => true

def areWritable : List Value → Bool
  | [] => true
  | item :: rest => isWritable false item && areWritable rest

def areWritableEntries : List (Value × Value) → Bool
  | [] => true
  | (key, value) :: rest =>
    isWritable false key && isWritable false value && areWritableEntries rest

end

/-- The text of a value, if it can be written. -/
def Value.render? (value : Value) : Option String :=
  if isWritable false value then some (Line.join (write value).lines) else none

end BulkEdit.Yaml
