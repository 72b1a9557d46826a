import BulkEdit.Number.Double

/-!
# Shortest decimals

The text of a double is the shortest that reads back as the double. It has the fewest digits for
which some decimal lies in the interval of numbers that round to the double, and of these decimals
the one nearest to it.
-/

namespace BulkEdit.Number

/-- A positive decimal `digits * 10 ^ exponent`. -/
structure Decimal where
  digits : Nat
  exponent : Int
deriving DecidableEq, Repr

/-- The numbers that round to a positive double, in quarters of its unit: from `low` to `high`
around `mid`, all over the common denominator `den`, the ends included if `closed`. -/
structure Interval where
  low : Nat
  mid : Nat
  high : Nat
  den : Nat
  closed : Bool

/-- The interval of a positive finite double. Below a power of two the spacing is halved. -/
def Interval.ofDouble (d : Double) : Interval :=
  let (m, e) := d.parts
  let below := if m = 0x10000000000000 ∧ 0 < e then 1 else 2
  let scale := if e ≤ 1074 then 1 else Nat.pow 2 (e - 1074)
  let den := if e ≤ 1074 then 4 * Nat.pow 2 (1074 - e) else 4
  ⟨(4 * m - below) * scale, 4 * m * scale, (4 * m + 2) * scale, den, m % 2 = 0⟩

def Interval.holds (i : Interval) (k : Nat) (x : Int) : Bool :=
  let (num, den) := if 0 ≤ x then (k * Nat.pow 10 x.toNat, 1) else (k, Nat.pow 10 (-x).toNat)
  -- compare `num / den` with the ends over the common denominator
  let n := num * i.den
  if i.closed then i.low * den ≤ n && n ≤ i.high * den
  else i.low * den < n && n < i.high * den

/-- The two neighbours of the middle on the grid of multiples of `10 ^ x`. -/
def Interval.neighbours (i : Interval) (x : Int) : Nat × Nat :=
  let k :=
    if 0 ≤ x then i.mid / (i.den * Nat.pow 10 x.toNat)
    else i.mid * Nat.pow 10 (-x).toNat / i.den
  (k, k + 1)

/-- Whether the lower neighbour is at least as near to the middle; a tie goes to the even one. -/
def Interval.lowerNearer (i : Interval) (k : Nat) (x : Int) : Bool :=
  let (num, den) :=
    if 0 ≤ x then (i.mid, i.den * Nat.pow 10 x.toNat) else (i.mid * Nat.pow 10 (-x).toNat, i.den)
  -- the distance from `k` to `num / den` against one half
  let twice := 2 * (num - k * den)
  twice < den || (twice = den && k % 2 = 0)

/-- Looks for the coarsest grid with a decimal in the interval, from `10 ^ x` downwards. -/
def Interval.search (i : Interval) : Nat → Int → Decimal
  | 0, x => ⟨(i.neighbours x).1, x⟩
  | fuel + 1, x =>
    let (k, k') := i.neighbours x
    match k ≠ 0 && i.holds k x, i.holds k' x with
    | true, true => if i.lowerNearer k x then ⟨k, x⟩ else ⟨k', x⟩
    | true, false => ⟨k, x⟩
    | false, true => ⟨k', x⟩
    | false, false => i.search fuel (x - 1)

def Decimal.stripped (d : Decimal) : Nat → Decimal
  | 0 => d
  | fuel + 1 =>
    if d.digits ≠ 0 ∧ d.digits % 10 = 0 then
      Decimal.stripped ⟨d.digits / 10, d.exponent + 1⟩ fuel
    else d

def shortest (d : Double) : Decimal :=
  let i := Interval.ofDouble d
  let whole := i.mid / i.den
  let x : Int := if whole = 0 then 0 else ((Nat.toDigits 10 whole).length : Int)
  (i.search 400 x).stripped 400

/-- How a decimal is laid out: positional with at least one place after the point while its
magnitude is between `10 ^ -5` and `10 ^ 16`, else with an exponent, before which `plus` stands if it
is not negative. -/
def Decimal.text (d : Decimal) (plus : String) : String :=
  let ds := Nat.toDigits 10 d.digits
  let size : Int := ds.length
  let point := size + d.exponent
  if 0 ≤ d.exponent ∧ point ≤ 16 then
    String.ofList (ds ++ List.replicate d.exponent.toNat '0') ++ ".0"
  else if 0 < point ∧ point ≤ 16 then
    String.ofList (ds.take point.toNat ++ '.' :: ds.drop point.toNat)
  else if -5 < point ∧ point ≤ 0 then
    "0." ++ String.ofList (List.replicate (-point).toNat '0' ++ ds)
  else
    let mantissa := match ds with
      | [one] => String.ofList [one]
      | one :: more => String.ofList (one :: '.' :: more)
      | [] => ""
    mantissa ++ "e" ++ (if 0 ≤ point - 1 then plus else "-") ++ Nat.repr (point - 1).natAbs

/-- The text of a finite double, with `plus` before an exponent that is not negative. -/
def finiteText (d : Double) (plus : String) : String :=
  let sign := if d.isNegative then "-" else ""
  if d.magnitude = 0 then sign ++ "0.0"
  else sign ++ (shortest ⟨UInt64.ofNat d.magnitude⟩).text plus

end BulkEdit.Number
