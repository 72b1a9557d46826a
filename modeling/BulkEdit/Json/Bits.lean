import BulkEdit.Digest
import BulkEdit.Json.Basic

/-!
# JSON values with exact doubles

Doubles are written by their bits, so that nothing is lost or left to the reader's rounding.
-/

namespace BulkEdit.Json

/-- A double as an object that holds its sixty-four bits in hexadecimal digits. -/
def ofBits (d : Double) : Json :=
  let digits := Digest.hex (Digest.bytesOfNat 8 d.bits.toNat)
  .obj [("f64", .str (if d.isNaN then "nan" else digits))]

mutual

/-- The value with all its doubles written by their bits. -/
def withBits : Json → Json
  | real d => ofBits d
  | arr items => arr (itemsWithBits items)
  | obj members => obj (membersWithBits members)
  | value => value

def itemsWithBits : List Json → List Json
  | [] => []
  | item :: rest => item.withBits :: itemsWithBits rest

def membersWithBits : List (String × Json) → List (String × Json)
  | [] => []
  | (name, item) :: rest => (name, item.withBits) :: membersWithBits rest

end

end BulkEdit.Json
