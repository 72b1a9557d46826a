import BulkEdit.Program.Basic

/-!
# Descriptions of rows of bytes

A description consists of single bytes, ranges, named classes, classes of equivalent bytes and
repeated bytes, with escapes for what cannot be written.
-/

namespace BulkEdit.Program.ByteSet

inductive ByteClass where
  | alnum
  | alpha
  | blank
  | cntrl
  | digit
  | graph
  | lower
  | print
  | punct
  | space
  | upper
  | xdigit
deriving DecidableEq, Repr

namespace ByteClass

def ofName? (name : Octets) : Option ByteClass :=
  match String.ofList name with
  | "alnum" => some alnum
  | "alpha" => some alpha
  | "blank" => some blank
  | "cntrl" => some cntrl
  | "digit" => some digit
  | "graph" => some graph
  | "lower" => some lower
  | "print" => some print
  | "punct" => some punct
  | "space" => some space
  | "upper" => some upper
  | "xdigit" => some xdigit
  | _ => none

def contains (k : ByteClass) (c : Char) : Bool :=
  match k with
  | alnum => c.isAlphanum
  | alpha => c.isAlpha
  | blank => c = ' ' || c = '\t'
  | cntrl => c.toNat < 32 || c.toNat = 127
  | digit => c.isDigit
  | graph => isGraphic c && c ≠ ' '
  | lower => c.isLower
  | print => isGraphic c
  | punct => isGraphic c && c ≠ ' ' && !c.isAlphanum
  | space => c = ' ' || (9 ≤ c.toNat && c.toNat ≤ 13)
  | upper => c.isUpper
  | xdigit => c.isDigit || ('a' ≤ c && c ≤ 'f') || ('A' ≤ c && c ≤ 'F')

def isCase (k : ByteClass) : Bool :=
  k = upper || k = lower

end ByteClass

def allBytes : Octets :=
  (List.range 256).map Char.ofNat

/-- An element of a description. -/
inductive Element where
  | byte (c : Char)
  | range (first last : Char)
  | named (k : ByteClass)
  | equivalent (c : Char)
  /-- A byte so many times; as often as needed if there is no number. -/
  | repeated (c : Char) (times : Option Nat)
deriving DecidableEq, Repr

namespace Element

def members : Element → Octets
  | byte c => [c]
  | range first last => (List.range (last.toNat + 1 - first.toNat)).map fun n =>
      Char.ofNat (first.toNat + n)
  | named k => allBytes.filter k.contains
  | equivalent c => [c]
  | repeated c times => List.replicate (times.getD 0) c

def size : Element → Nat
  | repeated _ times => times.getD 0
  | e => e.members.length

/-- The class of letters of one case that the element is. -/
def case? : Element → Option ByteClass
  | named k => if k.isCase then some k else none
  | _ => none

end Element

/-! ### Reading a description -/

/-- A byte of a description, and whether an escape stands for it. -/
structure Mark where
  byte : Char
  escaped : Bool
deriving DecidableEq, Repr

def octal? (c : Char) : Option Nat :=
  if '0' ≤ c && c ≤ '7' then some (c.toNat - 48) else none

def letterByte? (c : Char) : Option Char :=
  match c with
  | 'a' => some '\x07'
  | 'b' => some '\x08'
  | 'f' => some '\x0c'
  | 'n' => some '\n'
  | 'r' => some '\r'
  | 't' => some '\t'
  | 'v' => some '\x0b'
  | _ => none

/-- Takes up to three octal digits as long as the number is a byte. -/
def octalRun (n : Nat) : Nat → Octets → Nat × Octets
  | 0, rest => (n, rest)
  | _ + 1, [] => (n, [])
  | more + 1, c :: rest =>
    match octal? c with
    | some d => if n * 8 + d < 256 then octalRun (n * 8 + d) more rest else (n, c :: rest)
    | none => (n, c :: rest)

/-- The bytes of a description with its escapes carried out; `count` bounds their number. -/
def marks : Nat → Octets → List Mark
  | 0, _ => []
  | _ + 1, [] => []
  | _ + 1, ['\\'] => [⟨'\\', false⟩]
  | count + 1, '\\' :: c :: rest =>
    match octal? c, letterByte? c with
    | some _, _ =>
      let (n, rest) := octalRun 0 3 (c :: rest)
      ⟨Char.ofNat n, true⟩ :: marks count rest
    | none, some b => ⟨b, true⟩ :: marks count rest
    | none, none => ⟨c, true⟩ :: marks count rest
  | count + 1, c :: rest => ⟨c, false⟩ :: marks count rest

/-- What is said about escapes that others may read differently; `count` bounds the length of the
description. -/
def warnings : Nat → Octets → List Octets
  | 0, _ => []
  | _ + 1, [] => []
  | _ + 1, ['\\'] => [octets "warning: an unescaped backslash at end of string is not portable"]
  | count + 1, '\\' :: a :: b :: c :: rest =>
    match octal? a, octal? b, octal? c with
    | some x, some y, some z =>
      if 256 ≤ x * 64 + y * 8 + z then
        (octets "warning: the ambiguous octal escape \\" ++ [a, b, c]
          ++ octets " is being\n\tinterpreted as the 2-byte sequence \\0" ++ [a, b, ',', ' ', c])
          :: warnings count (c :: rest)
      else warnings count rest
    | _, _, _ => warnings count (b :: c :: rest)
  | count + 1, '\\' :: _ :: rest => warnings count rest
  | count + 1, _ :: rest => warnings count rest

/-- What may be wrong with a description. -/
inductive Fault where
  | noClassName
  | noEquivalent
  | unknownClass (name : Octets)
  | longEquivalent (text : Octets)
  | badCount (digits : Octets)
  | reversed (first last : Char)
deriving DecidableEq, Repr

/-- A byte as complaints show it. -/
def shownByte (c : Char) : Octets :=
  if isGraphic c then [c] else '\\' :: octalDigits c

def shownBytes (bytes : Octets) : Octets :=
  bytes.flatMap fun c =>
    if c = '\\' then ['\\', '\\']
    else match escapeLetter? c with
      | some letter => ['\\', letter]
      | none => shownByte c

def Fault.text : Fault → Octets
  | noClassName => octets "missing character class name '[::]'"
  | noEquivalent => octets "missing equivalence class character '[==]'"
  | unknownClass name => octets "invalid character class " ++ quotedArgument (shownBytes name)
  | longEquivalent text =>
    shownBytes text ++ octets ": equivalence class operand must be a single character"
  | badCount digits =>
    octets "invalid repeat count " ++ quotedArgument (shownBytes digits)
      ++ octets " in [c*n] construct"
  | reversed first last =>
    octets "range-endpoints of '" ++ shownByte first ++ '-' :: shownByte last
      ++ octets "' are in reverse collating sequence order"

/-- Whether a mark is a given byte that no escape stands for. -/
def Mark.is (m : Option Mark) (c : Char) : Bool :=
  m == some ⟨c, false⟩

/-- The bytes before a closing delimiter and bracket, and what comes behind. -/
def untilClosing (delimiter : Char) : List Mark → Option (Octets × List Mark)
  | a :: b :: rest =>
    if a = ⟨delimiter, false⟩ ∧ b = ⟨']', false⟩ then some ([], rest)
    else (untilClosing delimiter (b :: rest)).map fun (bytes, rest) => (a.byte :: bytes, rest)
  | _ => none

def starDigitsBracket : List Mark → Bool
  | m :: rest =>
    m = ⟨'*', false⟩ && Mark.is (rest.dropWhile fun d => d.byte.isDigit).head? ']'
  | [] => false

/-- The bytes up to a closing bracket, none of them escaped, and what comes behind. -/
def untilBracket : List Mark → Option (Octets × List Mark)
  | [] => none
  | m :: rest =>
    if m.escaped then none
    else if m.byte = ']' then some ([], rest)
    else (untilBracket rest).map fun (bytes, rest) => (m.byte :: bytes, rest)

/-- The number of a repetition: octal if it begins with a zero, and nothing for as often as
needed. -/
def repetition? (digits : Octets) : Option (Option Nat) :=
  let base := if digits.head? == some '0' then 8 else 10
  let number := digits.foldlM (fun n d =>
    if d.isDigit && d.toNat - 48 < base then some (n * base + (d.toNat - 48)) else none) 0
  match digits, number with
  | [], _ => some none
  | _, some n => if n < Nat.pow 2 63 then some (if n = 0 then none else some n) else none
  | _, none => none

/-- A byte in brackets that is repeated, if the marks behind the opening bracket are one. -/
def repetitionAt (rest : List Mark) : Except Fault (Option (Element × List Mark)) :=
  match rest with
  | c :: ⟨'*', false⟩ :: more =>
    match untilBracket more with
    | none => .ok none
    | some (digits, rest) =>
      match repetition? digits with
      | some times => .ok (some (.repeated c.byte times, rest))
      | none => .error (.badCount digits)
  | _ => .ok none

/-- A class between brackets and delimiters, if the marks behind the opening bracket are one. -/
def classAt (rest : List Mark) : Except Fault (Option (Element × List Mark)) :=
  match rest with
  | ⟨':', false⟩ :: more =>
    match untilClosing ':' more with
    | none => .ok none
    | some ([], _) => .error .noClassName
    | some (name, rest) =>
      match ByteClass.ofName? name with
      | some k => .ok (some (.named k, rest))
      | none => if starDigitsBracket more then .ok none else .error (.unknownClass name)
  | ⟨'=', false⟩ :: more =>
    match untilClosing '=' more with
    | none => .ok none
    | some ([], _) => .error .noEquivalent
    | some ([c], rest) => .ok (some (.equivalent c, rest))
    | some (text, _) =>
      if starDigitsBracket more then .ok none else .error (.longEquivalent text)
  | _ => .ok none

/-- The element that begins with an opening bracket, if it is more than the bracket. -/
def bracketAt (rest : List Mark) : Except Fault (Option (Element × List Mark)) :=
  match classAt rest with
  | .ok none => repetitionAt rest
  | found => found

/-- The elements of marked bytes; `count` bounds their number. -/
def elements : Nat → List Mark → Except Fault (List Element)
  | 0, _ => .ok []
  | _ + 1, [] => .ok []
  | count + 1, a :: rest =>
    let add (e : Element) (rest : List Mark) : Except Fault (List Element) :=
      match elements count rest with
      | .ok es => .ok (e :: es)
      | .error f => .error f
    let plain : Except Fault (List Element) :=
      match rest with
      | ⟨'-', false⟩ :: b :: more =>
        if b.byte < a.byte then .error (.reversed a.byte b.byte)
        else add (.range a.byte b.byte) more
      | _ => add (.byte a.byte) rest
    if a = ⟨'[', false⟩ && 2 ≤ rest.length then
      match bracketAt rest with
      | .error f => .error f
      | .ok (some (e, rest)) => add e rest
      | .ok none => plain
    else plain

def read (description : Octets) : Except Fault (List Element) :=
  let ms := marks (description.length + 1) description
  elements (ms.length + 1) ms

end BulkEdit.Program.ByteSet
