import BulkEdit.Program.ByteSet

/-!
# Writing arguments

`echo`, and the escapes in texts that are written out.
-/

namespace BulkEdit.Program

/-- A text with its escapes carried out. -/
structure Unescaped where
  text : Octets := []
  /-- Whether an escape ended the output. -/
  stopped : Bool := false
deriving DecidableEq, Repr

namespace Unescaped

def after (u : Unescaped) (before : Octets) : Unescaped :=
  { u with text := before ++ u.text }

end Unescaped

/-- The byte of an escape with a letter, the escape byte among them. -/
def escapeByte? (c : Char) : Option Char :=
  if c = 'e' then some '\x1b' else if c = '\\' then some '\\' else ByteSet.letterByte? c

/-- Takes up to `count` octal digits; of a number that is too large the low byte counts. -/
def octalValue (n : Nat) : Nat → Octets → Nat × Octets
  | 0, rest => (n, rest)
  | _ + 1, [] => (n, [])
  | count + 1, c :: rest =>
    match ByteSet.octal? c with
    | some d => octalValue (n * 8 + d) count rest
    | none => (n, c :: rest)

def lowByte (n : Nat) : Char :=
  Char.ofNat (n % 256)

def hexValue? (c : Char) : Option Nat :=
  if c.isDigit then some (c.toNat - 48)
  else if 'a' ≤ c && c ≤ 'f' then some (c.toNat - 87)
  else if 'A' ≤ c && c ≤ 'F' then some (c.toNat - 55)
  else none

/-- Carries out the escapes of a text; `hex` admits bytes in hexadecimal, and `count` bounds the
length of the text. -/
def unescape (hex : Bool) : Nat → Octets → Unescaped
  | 0, _ => {}
  | _ + 1, [] => {}
  | count + 1, '\\' :: c :: rest =>
    let unknown := (unescape hex count rest).after ['\\', c]
    if c = 'c' then { stopped := true }
    else if c = '0' then
      let (n, rest) := octalValue 0 3 rest
      (unescape hex count rest).after [lowByte n]
    else if (ByteSet.octal? c).isSome then
      let (n, rest) := octalValue 0 3 (c :: rest)
      (unescape hex count rest).after [lowByte n]
    else if hex && c = 'x' then
      match rest with
      | a :: b :: more =>
        match hexValue? a, hexValue? b with
        | some x, some y => (unescape hex count more).after [lowByte (16 * x + y)]
        | some x, none => (unescape hex count (b :: more)).after [lowByte x]
        | none, _ => unknown
      | [a] =>
        match hexValue? a with
        | some x => { text := [lowByte x] }
        | none => unknown
      | [] => unknown
    else
      match escapeByte? c with
      | some b => (unescape hex count rest).after [b]
      | none => unknown
  | count + 1, c :: rest => (unescape hex count rest).after [c]

def spaced (texts : List Octets) : Octets :=
  [' '].intercalate texts

namespace Echo

/-- What the options of `echo` ask for. -/
structure Style where
  newline : Bool := true
  escapes : Bool := false
deriving DecidableEq, Repr

def Style.withLetters (s : Style) (letters : Octets) : Style :=
  letters.foldl (fun s c =>
    match c with
    | 'e' => { s with escapes := true }
    | 'E' => { s with escapes := false }
    | _ => { s with newline := false }) s

/-- Takes the options at the front of the arguments. An argument with any other letter is text. -/
def options (s : Style) : List Octets → Style × List Octets
  | ('-' :: c :: letters) :: rest =>
    if (c :: letters).all "eEn".toList.contains then options (s.withLetters (c :: letters)) rest
    else (s, ('-' :: c :: letters) :: rest)
  | texts => (s, texts)

/-- The text of arguments with the line end, unless it is not wanted. -/
def text (hex : Bool) (s : Style) (texts : List Octets) : Octets :=
  let all := spaced texts
  let stop := if s.newline then ['\n'] else []
  if s.escapes then
    let u := unescape hex (all.length + 1) all
    u.text ++ (if u.stopped then [] else stop)
  else all ++ stop

end Echo

def echo (t : Task) : Outcome :=
  let (style, texts) := Echo.options {} t.arguments
  t.print (Echo.text true style texts)

end BulkEdit.Program
