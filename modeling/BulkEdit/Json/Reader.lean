import BulkEdit.Json.Basic
import BulkEdit.Number.Literal

/-!
# Reading JSON texts

A whole number that fits in sixty-four bits stays whole; every other number becomes a double by
scaling its first digits, as many as fit in sixty-four bits, with a power of ten. Arrays and objects
that stand inside each other deeper than a fixed depth have no value. Of a text that is cut or
malformed everything before the fault is read.
-/

namespace BulkEdit.Json

/-- The white space between tokens. -/
def isGap (c : Char) : Bool :=
  c = ' ' || c = '\t' || c = '\n' || c = '\r'

def skipGap (cs : List Char) : List Char :=
  cs.dropWhile isGap

def hexValue? (c : Char) : Option Nat :=
  let n := c.toNat
  if 48 ≤ n ∧ n ≤ 57 then some (n - 48)
  else if 97 ≤ n ∧ n ≤ 102 then some (n - 87)
  else if 65 ≤ n ∧ n ≤ 70 then some (n - 55)
  else none

/-- The unit that four hexadecimal digits spell. -/
def unit? : List Char → Option (Nat × List Char)
  | a :: b :: c :: d :: rest => do
    let a ← hexValue? a
    let b ← hexValue? b
    let c ← hexValue? c
    let d ← hexValue? d
    pure (((a * 16 + b) * 16 + c) * 16 + d, rest)
  | _ => none

/-- The character behind `\u`: one unit, or a high and a low surrogate in two escapes. Half a pair
stands for no character. -/
def escapedUnit? (cs : List Char) : Option (Option Char × List Char) := do
  let (n, rest) ← unit? cs
  if 0xD800 ≤ n ∧ n ≤ 0xDBFF then
    match rest with
    | '\\' :: 'u' :: more =>
      let (m, after) ← unit? more
      if 0xDC00 ≤ m ∧ m ≤ 0xDFFF then
        some (some (Char.ofNat (0x10000 + (n - 0xD800) * 0x400 + (m - 0xDC00))), after)
      else some (none, rest)
    | _ => some (none, rest)
  else if 0xDC00 ≤ n ∧ n ≤ 0xDFFF then some (none, rest)
  else some (some (Char.ofNat n), rest)

/-- The character behind a backslash, if it stands for one. -/
def escape? : List Char → Option (Option Char × List Char)
  | '"' :: rest => some (some '"', rest)
  | '\\' :: rest => some (some '\\', rest)
  | '/' :: rest => some (some '/', rest)
  | 'b' :: rest => some (some '\x08', rest)
  | 'f' :: rest => some (some '\x0c', rest)
  | 'n' :: rest => some (some '\n', rest)
  | 'r' :: rest => some (some '\r', rest)
  | 't' :: rest => some (some '\t', rest)
  | 'u' :: rest => escapedUnit? rest
  | _ => none

/-- A string up to its closing quote, if all its escapes stand for characters; `fuel` bounds their
number. -/
def stringFrom? : Nat → Bool → List Char → List Char → Option (Option String × List Char)
  | 0, _, _, _ => none
  | _ + 1, _, _, [] => none
  | fuel + 1, good, held, c :: rest =>
    if c = '"' then some (if good then some (String.ofList held.reverse) else none, rest)
    else if c = '\\' then
      match escape? rest with
      | some (some d, rest) => stringFrom? fuel good (d :: held) rest
      | some (none, rest) => stringFrom? fuel false held rest
      | none => none
    else if c.toNat < 0x20 then none
    else stringFrom? fuel good (c :: held) rest

def string? (cs : List Char) : Option (Option String × List Char) :=
  stringFrom? (cs.length + 1) true [] cs

/-- The largest whole number of sixty-four bits. -/
def wordMax : Nat := 0x10000000000000000 - 1

/-- Takes digits as long as the number they spell fits in sixty-four bits: the number, how many
digits were taken, and the rest. -/
def takeFitting : Nat → Nat → List Char → Nat × Nat × List Char
  | n, taken, c :: rest =>
    if c.isDigit ∧ 10 * n + (c.toNat - 48) ≤ wordMax then
      takeFitting (10 * n + (c.toNat - 48)) (taken + 1) rest
    else (n, taken, c :: rest)
  | n, taken, [] => (n, taken, [])

/-- Scales `d` by `10 ^ e`, in steps of at most `10 ^ 308`; too large a result is refused. -/
def scale : Nat → Double → Int → Option Double
  | 0, d, _ => some d
  | fuel + 1, d, e =>
    if e.natAbs ≤ 308 then
      let power := Double.ofNat (Nat.pow 10 e.natAbs)
      if 0 ≤ e then
        let product := d.mul power
        if product.isInfinite then none else some product
      else some (d.div power)
    else if d.magnitude = 0 then some d
    else if 0 ≤ e then none
    else scale fuel (d.div (Double.ofNat (Nat.pow 10 308))) (e + 308)

/-- The double with the given first digits and power of ten. -/
def assemble (negative : Bool) (digits : Nat) (e : Int) : Json :=
  -- four steps take every double to zero
  match scale 8 (Double.ofNat digits) e with
  | some d => .real (if negative then d.neg else d)
  | none => .unreadable

/-- The largest exponent that is taken at its value. -/
def exponentMax : Nat := 0x80000000 - 1

/-- The exponent after `e`, and the double that it completes. -/
def withExponent? (negative : Bool) (digits : Nat) (e : Int) (cs : List Char) : Option (Json × List Char) :=
  let (down, cs) := match cs with
    | '+' :: rest => (false, rest)
    | '-' :: rest => (true, rest)
    | rest => (false, rest)
  let (ds, rest) := Number.spanDigits cs
  if ds = [] then none
  else
    let n := Number.digitsValue ds
    if exponentMax < n then
      some (if digits ≠ 0 ∧ !down then .unreadable else .real (Double.zero negative), rest)
    else
      let total : Int := if down then e - n else e + n
      some (assemble negative digits total, rest)

/-- What may follow the digits: an exponent or nothing. -/
def afterDigits? (negative : Bool) (digits : Nat) (e : Int) (cs : List Char) : Option (Json × List Char) :=
  match cs with
  | 'e' :: rest => withExponent? negative digits e rest
  | 'E' :: rest => withExponent? negative digits e rest
  | rest => some (assemble negative digits e, rest)

/-- The digits after the point; those that no longer fit are dropped. -/
def afterPoint? (negative : Bool) (digits : Nat) (e : Int) (cs : List Char) : Option (Json × List Char) :=
  if (cs.head?.map Char.isDigit).getD false then
    let (digits, taken, rest) := takeFitting digits 0 cs
    afterDigits? negative digits (e - taken) (rest.dropWhile Char.isDigit)
  else none

/-- A number that is no longer whole, after the digits before the point. -/
def fraction? (negative : Bool) (digits : Nat) (e : Int) (cs : List Char) : Option (Json × List Char) :=
  match cs with
  | '.' :: rest => afterPoint? negative digits e rest
  | rest => afterDigits? negative digits e rest

def magnitude? (negative : Bool) (cs : List Char) : Option (Json × List Char) :=
  match cs with
  | '0' :: d :: rest =>
    if d.isDigit then none else finish 0 0 (d :: rest)
  | c :: rest =>
    if c.isDigit then
      let (n, _, rest) := takeFitting (c.toNat - 48) 0 rest
      let (more, rest) := Number.spanDigits rest
      finish n more.length rest
    else none
  | [] => none
where
  /-- The number whose first digits spell `n`, with `more` digits left out. -/
  finish (n more : Nat) (rest : List Char) : Option (Json × List Char) :=
    let isFraction : Bool := match rest with
      | c :: _ => c = '.' || c = 'e' || c = 'E'
      | [] => false
    if isFraction || 0 < more then fraction? negative n more rest
    else if !negative then some (.int n, rest)
    else if n = 0 ∨ 0x8000000000000000 < n then some (.real (Double.ofNat n).neg, rest)
    else some (.int (-n), rest)

def number? : List Char → Option (Json × List Char)
  | '-' :: rest => magnitude? true rest
  | cs => magnitude? false cs

/-! ### Values -/

/-- A fault: nothing of the text can be read from here on. -/
def broken : Json :=
  .partly .null false

/-- A value and the text after it. After a fault there is no such text. -/
abbrev Reading := Json × Option (List Char)

/-- The reading of a token, if it is well formed. -/
def ofToken : Option (Json × List Char) → Reading
  | some (value, rest) => (value, some rest)
  | none => (broken, none)

/-- An array of the items that could be read. -/
def ofItems (items : List Json) : Option (List Char) → Reading
  | some rest => (.arr items, some rest)
  | none => (.partly (.arr items) false, none)

/-- An object of the members that could be read; `isNamed` tells whether all their names could. -/
def ofMembers (members : List (String × Json)) (isNamed : Bool) : Option (List Char) → Reading
  | some rest => (if isNamed then .obj members else .partly (.obj members) true, some rest)
  | none => (.partly (.obj members) false, none)

/-- What is nested too deep has no value. -/
def tooDeep : Reading → Reading
  | (_, some rest) => (.unreadable, some rest)
  | (_, none) => (broken, none)

mutual

/-- A value in which arrays and objects stand inside each other at most `depth` deep; `fuel` bounds
the number of tokens. -/
def value : Nat → Nat → List Char → Reading
  | 0, _, _ => (broken, none)
  | fuel + 1, depth, cs =>
    match cs with
    | 'n' :: 'u' :: 'l' :: 'l' :: rest => (.null, some rest)
    | 't' :: 'r' :: 'u' :: 'e' :: rest => (.bool true, some rest)
    | 'f' :: 'a' :: 'l' :: 's' :: 'e' :: rest => (.bool false, some rest)
    | '"' :: rest =>
      ofToken ((string? rest).map fun (s, rest) => ((s.map Json.str).getD .unreadable, rest))
    | '[' :: rest =>
      let reading := match skipGap rest with
        | ']' :: rest => (.arr [], some rest)
        | more =>
          let (items, rest) := items fuel (depth - 1) more
          ofItems items rest
      if depth = 0 then tooDeep reading else reading
    | '\x7b' :: rest =>
      let reading := match skipGap rest with
        | '\x7d' :: rest => (.obj [], some rest)
        | more =>
          let (members, isNamed, rest) := members fuel (depth - 1) more
          ofMembers members isNamed rest
      if depth = 0 then tooDeep reading else reading
    | cs => ofToken (number? cs)

/-- The items of an array after its bracket or a comma. -/
def items : Nat → Nat → List Char → List Json × Option (List Char)
  | 0, _, _ => ([], none)
  | fuel + 1, depth, cs =>
    match value fuel depth (skipGap cs) with
    | (item, none) => ([item], none)
    | (item, some rest) =>
      match skipGap rest with
      | ',' :: more =>
        let (items, rest) := items fuel depth more
        (item :: items, rest)
      | ']' :: rest => ([item], some rest)
      | _ => ([item], none)

/-- The members of an object after its brace or a comma, up to the first whose name cannot be read,
and whether all names could. -/
def members : Nat → Nat → List Char → List (String × Json) × Bool × Option (List Char)
  | 0, _, _ => ([], true, none)
  | fuel + 1, depth, cs =>
    match skipGap cs with
    | '"' :: more =>
      match string? more with
      | none => ([], true, none)
      | some (name, rest) =>
        match skipGap rest with
        | ':' :: more =>
          let (item, rest) := value fuel depth (skipGap more)
          let (later, isNamed, rest) :=
            match rest.map skipGap with
            | some (',' :: more) => members fuel depth more
            | some ('\x7d' :: rest) => ([], true, some rest)
            | _ => ([], true, none)
          match name with
          | some name => ((name, item) :: later, isNamed, rest)
          | none => ([], false, rest)
        | _ => ([], true, none)
    | _ => ([], true, none)

end

/-- How deep arrays and objects may stand inside each other. -/
def maxDepth : Nat := 127

/-- What can be read of a text, and whether there is nothing but white space after it. -/
def parsePartly (s : String) : Json × Bool :=
  let cs := skipGap s.toList
  match value (cs.length + 1) maxDepth cs with
  | (value, some rest) => (value, (skipGap rest).isEmpty)
  | (value, none) => (value, false)

/-- The tokens of a whole text, those without a value included. -/
def parse? (s : String) : Option Json :=
  match parsePartly s with
  | (value, true) => some value
  | (_, false) => none

def parseValue? (s : String) : Option Json :=
  (parse? s).filter isReadable

end BulkEdit.Json
