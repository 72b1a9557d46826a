import BulkEdit.Number.Double

/-!
# Number literals

A literal is an optional sign, digits with an optional point, and an optional exponent; or one of
the words for infinity and for "not a number", in any case.
-/

namespace BulkEdit.Number

/-- Why a text is no number. -/
inductive LiteralError where
  | empty
  | invalid
deriving DecidableEq, Repr

namespace LiteralError

def message : LiteralError → String
  | empty => "cannot parse float from empty string"
  | invalid => "invalid float literal"

end LiteralError

/-- The value of a list of decimal digits, the first highest. -/
def digitsValue (digits : List Char) : Nat :=
  digits.foldl (fun n c => 10 * n + (c.toNat - 48)) 0

def spanDigits (cs : List Char) : List Char × List Char :=
  (cs.takeWhile Char.isDigit, cs.dropWhile Char.isDigit)

/-- The exponent after the digits: nothing, or `e`, a sign and digits. -/
def exponent? : List Char → Option Int
  | [] => some 0
  | c :: rest =>
    if c = 'e' ∨ c = 'E' then
      let (negative, digits) := match rest with
        | '-' :: ds => (true, ds)
        | '+' :: ds => (false, ds)
        | ds => (false, ds)
      if digits ≠ [] ∧ digits.all Char.isDigit then
        let n : Int := digitsValue digits
        some (if negative then -n else n)
      else none
    else none

def unsigned? (negative : Bool) (cs : List Char) : Option Double :=
  let (whole, rest) := spanDigits cs
  let (fraction, rest) := match rest with
    | '.' :: more => spanDigits more
    | other => ([], other)
  if whole = [] ∧ fraction = [] then
    none
  else
    (exponent? rest).map fun e =>
      Double.ofDecimal negative (digitsValue (whole ++ fraction)) (e - fraction.length)

def word? (negative : Bool) (cs : List Char) : Option Double :=
  let word := String.ofList (cs.map Char.toLower)
  if word = "inf" ∨ word = "infinity" then some (Double.infinity negative)
  else if word = "nan" then some Double.nan
  else none

def literal (s : String) : Except LiteralError Double :=
  match s.toList with
  | [] => .error .empty
  | cs =>
    let (negative, body) := match cs with
      | '-' :: rest => (true, rest)
      | '+' :: rest => (false, rest)
      | rest => (false, rest)
    match (word? negative body).or (unsigned? negative body) with
    | some d => .ok d
    | none => .error .invalid

end BulkEdit.Number
