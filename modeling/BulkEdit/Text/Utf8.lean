/-!
# Texts from bytes

Bytes that are no well-formed UTF-8 are refused, or replaced part by part: each longest run of bytes
that begins a character without completing it becomes one mark.
-/

namespace BulkEdit.Text

/-- What the first byte of a character announces: the bits it holds, how many bytes follow, and
between which bounds the next of them lies. -/
structure Lead where
  bits : Nat
  owed : Nat
  low : Nat := 0x80
  high : Nat := 0xBF

def lead? (b : Nat) : Option Lead :=
  if b < 0x80 then some { bits := b, owed := 0 }
  else if b < 0xC2 then none
  else if b < 0xE0 then some { bits := b - 0xC0, owed := 1 }
  else if b = 0xE0 then some { bits := 0, owed := 2, low := 0xA0 }
  else if b = 0xED then some { bits := 0xD, owed := 2, high := 0x9F }
  else if b < 0xF0 then some { bits := b - 0xE0, owed := 2 }
  else if b = 0xF0 then some { bits := 0, owed := 3, low := 0x90 }
  else if b < 0xF4 then some { bits := b - 0xF0, owed := 3 }
  else if b = 0xF4 then some { bits := 4, owed := 3, high := 0x8F }
  else none

/-- The character that the following bytes complete, and what is left; no character if they do
not. -/
def followers (bits : Nat) : (owed low high : Nat) → List UInt8 → Option Char × List UInt8
  | 0, _, _, rest => (some (Char.ofNat bits), rest)
  | _ + 1, _, _, [] => (none, [])
  | owed + 1, low, high, b :: rest =>
    if low ≤ b.toNat ∧ b.toNat ≤ high then
      followers (bits * 64 + (b.toNat - 0x80)) owed 0x80 0xBF rest
    else (none, b :: rest)

/-- The characters of some bytes, at most as many as the number says; what is no character is
missing. -/
def charsOfBytes : Nat → List UInt8 → List (Option Char)
  | 0, _ => []
  | _ + 1, [] => []
  | count + 1, b :: rest =>
    match lead? b.toNat with
    | none => none :: charsOfBytes count rest
    | some l =>
      let (c, rest) := followers l.bits l.owed l.low l.high rest
      c :: charsOfBytes count rest

/-- The text that bytes spell, if they are well formed. -/
def ofBytes? (bytes : List UInt8) : Option String :=
  ((charsOfBytes bytes.length bytes).mapM id).map String.ofList

/-- The text that bytes spell, with marks for what is not well formed. -/
def ofBytesLossy (bytes : List UInt8) : String :=
  String.ofList ((charsOfBytes bytes.length bytes).map fun c => c.getD '\uFFFD')

end BulkEdit.Text
