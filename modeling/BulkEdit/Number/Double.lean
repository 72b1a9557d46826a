/-!
# Double precision numbers

A double is a bit pattern. A finite one is a whole number of units `2 ^ e`; rounding a quotient
takes the nearest double, and of two nearest ones the even one.
-/

namespace BulkEdit

/-- A double precision number, given by its sixty-four bits. -/
structure Double where
  bits : UInt64
deriving DecidableEq, Repr, Inhabited

namespace Double

/-- The quotient rounded to the nearest whole number, a tie to the even one. -/
def roundQuotient (num den : Nat) : Nat :=
  let q := num / den
  let r := num % den
  if 2 * r < den then q
  else if den < 2 * r then q + 1
  else q + q % 2

def infinityBits : Nat := 0x7FF * 0x10000000000000

def ofMagnitude (negative : Bool) (bits : Nat) : Double :=
  ⟨UInt64.ofNat (if negative then bits + 0x8000000000000000 else bits)⟩

def infinity (negative : Bool) : Double :=
  ofMagnitude negative infinityBits

def zero (negative : Bool) : Double :=
  ofMagnitude negative 0

/-- The quiet value that is not a number. -/
def nan : Double :=
  ⟨0x7FF8000000000000⟩

/-- The quotient in units of `2 ^ (e - 1074)`, rounded. -/
def inUnits (num den e : Nat) : Nat :=
  if e ≤ 1074 then roundQuotient (num * Nat.pow 2 (1074 - e)) den
  else roundQuotient num (den * Nat.pow 2 (e - 1074))

/-- The double nearest to `num / den`, `0 < den`; what is too large becomes infinite. -/
def ofRatio (negative : Bool) (num den : Nat) : Double :=
  if num = 0 then
    zero negative
  else
    -- the quotient lies strictly between `2 ^ (k - 1)` and `2 ^ (k + 1)` for `k` the difference of
    -- the two logarithms, so fifty-three bits start at one of two places
    let high := num.log2 + 1074 - (den.log2 + 52)
    let low := high - 1
    let e := if inUnits num den low < 0x20000000000000 then low else high
    let bits := e * 0x10000000000000 + inUnits num den e
    ofMagnitude negative (min bits infinityBits)

/-- Whether the sign bit is set. -/
def isNegative (d : Double) : Bool :=
  0x8000000000000000 ≤ d.bits.toNat

/-- The bits without the sign. -/
def magnitude (d : Double) : Nat :=
  d.bits.toNat % 0x8000000000000000

def isInfinite (d : Double) : Bool :=
  d.magnitude = infinityBits

def isNaN (d : Double) : Bool :=
  infinityBits < d.magnitude

/-- Whether two doubles have the same value: both zeros are one value, and what is not a number is no
value. -/
def equals (a b : Double) : Bool :=
  !a.isNaN && !b.isNaN && (a.bits == b.bits || (a.magnitude == 0 && b.magnitude == 0))

/-- The magnitude of a finite double as `m` units of `2 ^ (e - 1074)`. -/
def parts (d : Double) : Nat × Nat :=
  let e := d.magnitude / 0x10000000000000
  let m := d.magnitude % 0x10000000000000
  if e = 0 then (m, 0) else (m + 0x10000000000000, e - 1)

def ratio (d : Double) : Nat × Nat :=
  let (m, e) := d.parts
  if e ≤ 1074 then (m, Nat.pow 2 (1074 - e)) else (m * Nat.pow 2 (e - 1074), 1)

def ofNat (n : Nat) : Double :=
  ofRatio false n 1

def neg (d : Double) : Double :=
  ofMagnitude (!d.isNegative) d.magnitude

/-- The product of two doubles that are not negative and finite. -/
def mul (a b : Double) : Double :=
  ofRatio false (a.ratio.1 * b.ratio.1) (a.ratio.2 * b.ratio.2)

/-- The quotient of two doubles that are not negative and finite, the second not zero. -/
def div (a b : Double) : Double :=
  ofRatio false (a.ratio.1 * b.ratio.2) (a.ratio.2 * b.ratio.1)

/-- The double nearest to `digits * 10 ^ exponent`. An exponent far out of range decides the result
without being raised. -/
def ofDecimal (negative : Bool) (digits : Nat) (exponent : Int) : Double :=
  if digits = 0 then
    zero negative
  else
    let size : Int := exponent + ((Nat.toDigits 10 digits).length : Int)
    if 320 < size then infinity negative
    else if size < -350 then zero negative
    else if 0 ≤ exponent then ofRatio negative (digits * Nat.pow 10 exponent.toNat) 1
    else ofRatio negative digits (Nat.pow 10 (-exponent).toNat)

end Double

end BulkEdit
