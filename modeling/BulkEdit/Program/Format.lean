import BulkEdit.Number.Literal
import BulkEdit.Program.Echo

/-!
# Writing arguments in a format

`printf` writes arguments into the places of a format, over and over until none is left.
-/

namespace BulkEdit.Program.Format

structure Place where
  left : Bool := false
  plus : Bool := false
  blank : Bool := false
  marked : Bool := false
  zeros : Bool := false
  width : Nat := 0
  precision : Option Nat := none
deriving DecidableEq, Repr

/-- The output so far, the arguments that are left, and what went wrong. -/
structure Work where
  out : Octets := []
  arguments : List Octets
  complaints : List Octets := []
  /-- Whether an argument was used. -/
  used : Bool := false
  /-- Whether an escape ended the output. -/
  stopped : Bool := false

namespace Work

def write (w : Work) (text : Octets) : Work :=
  { w with out := w.out ++ text }

def next (w : Work) : Option Octets × Work :=
  match w.arguments with
  | [] => (none, w)
  | a :: rest => (some a, { w with arguments := rest, used := true })

def complain (w : Work) (argument : Octets) (text : String) : Work :=
  { w with complaints := w.complaints ++ [argument ++ octets (": " ++ text)] }

end Work

/-! ### Numbers -/

def skipSpace (o : Octets) : Octets :=
  o.dropWhile fun c => c = ' ' || (9 ≤ c.toNat && c.toNat ≤ 13)

/-- The digits of a number in a base, and what follows them. -/
def spanBase (base : Nat) : Nat → Octets → Nat × Octets
  | n, [] => (n, [])
  | n, c :: rest =>
    match hexValue? c with
    | some d => if d < base then spanBase base (n * base + d) rest else (n, c :: rest)
    | none => (n, c :: rest)

/-- A whole number with an optional sign at the front of a text, in base sixteen after `0x` and in
base eight after `0`, and what follows it; nothing if there is no number. -/
def wholeAt (text : Octets) : Option (Int × Octets) :=
  let (negative, body) := match skipSpace text with
    | '-' :: rest => (true, rest)
    | '+' :: rest => (false, rest)
    | rest => (false, rest)
  let signed (n : Nat) : Int := if negative then -(n : Int) else n
  let isHex (c : Option Char) : Bool := (c.bind hexValue?).isSome
  match body with
  | '0' :: x :: rest =>
    if (x = 'x' || x = 'X') && isHex rest.head? then
      let (n, rest) := spanBase 16 0 rest
      some (signed n, rest)
    else
      let (n, rest) := spanBase 8 0 ('0' :: x :: rest)
      some (signed n, rest)
  | c :: rest =>
    if c.isDigit then
      let (n, rest) := spanBase 10 0 (c :: rest)
      some (signed n, rest)
    else none
  | [] => none

/-- The next argument as a whole number between two bounds. The number of a quoted character is its
byte. -/
def nextWhole (low high : Int) (w : Work) : Int × Work :=
  match w.next with
  | (none, w) => (0, w)
  | (some a, w) =>
    match a with
    | '\'' :: rest => ((rest.headD '\x00').toNat, w)
    | '"' :: rest => ((rest.headD '\x00').toNat, w)
    | [] => (0, w)
    | _ =>
      match wholeAt a with
      | none => (0, w.complain a "expected numeric value")
      | some (n, rest) =>
        let kept := max low (min high n)
        if !rest.isEmpty then (kept, w.complain a "not completely converted")
        else if kept ≠ n then (kept, w.complain a "Numerical result out of range")
        else (n, w)

/-- A decimal number with a fraction and an exponent at the front of a text, and what follows. -/
def spanDecimal (text : Octets) : Octets × Octets :=
  let digits (o : Octets) : Octets × Octets := (o.takeWhile Char.isDigit, o.dropWhile Char.isDigit)
  let (whole, rest) := digits text
  let (fraction, rest) := match rest with
    | '.' :: more =>
      let (ds, after) := digits more
      if whole.isEmpty && ds.isEmpty then ([], rest) else ('.' :: ds, after)
    | rest => ([], rest)
  if whole.isEmpty && fraction.isEmpty then ([], text)
  else
    match rest with
    | e :: more =>
      if e = 'e' || e = 'E' then
        let (sign, more) := match more with
          | '-' :: after => (['-'], after)
          | '+' :: after => (['+'], after)
          | after => ([], after)
        let (ds, after) := digits more
        if ds.isEmpty then (whole ++ fraction, rest)
        else (whole ++ fraction ++ 'e' :: sign ++ ds, after)
      else (whole ++ fraction, rest)
    | [] => (whole ++ fraction, [])

def nextDouble (w : Work) : Double × Work :=
  match w.next with
  | (none, w) => (.zero false, w)
  | (some a, w) =>
    let (sign, body) := match skipSpace a with
      | '-' :: rest => (['-'], rest)
      | '+' :: rest => ([], rest)
      | rest => ([], rest)
    let (number, rest) := spanDecimal body
    let word := String.ofList (sign ++ (if number.isEmpty then body else number))
    match a with
    | '\'' :: rest => (.ofNat (rest.headD '\x00').toNat, w)
    | '"' :: rest => (.ofNat (rest.headD '\x00').toNat, w)
    | [] => (.zero false, w)
    | _ =>
      match Number.literal word with
      | .error _ => (.zero false, w.complain a "expected numeric value")
      | .ok d =>
        if number.isEmpty then (d, w)
        else if !rest.isEmpty then (d, w.complain a "not completely converted")
        else if d.isInfinite then (d, w.complain a "Numerical result out of range")
        else (d, w)

/-! ### Filling a place -/

/-- Fills a text up to the width of a place. -/
def padded (p : Place) (text : Octets) : Octets :=
  let fill := List.replicate (p.width - text.length) ' '
  if p.left then text ++ fill else fill ++ text

/-- Fills a number up to the width of a place, with zeros behind the sign if they are wanted. -/
def paddedNumber (p : Place) (zeros : Bool) (sign digits : Octets) : Octets :=
  if zeros && !p.left then
    sign ++ List.replicate (p.width - sign.length - digits.length) '0' ++ digits
  else padded p (sign ++ digits)

def signText (p : Place) (negative : Bool) : Octets :=
  if negative then ['-'] else if p.plus then ['+'] else if p.blank then [' '] else []

/-- Digits with as many zeros before them as the precision asks for. -/
def preciseDigits (p : Place) (n : Nat) (digits : Octets) : Octets :=
  match p.precision with
  | none => digits
  | some least =>
    if n = 0 && least = 0 then [] else List.replicate (least - digits.length) '0' ++ digits

def signedText (p : Place) (n : Int) : Octets :=
  let digits := preciseDigits p n.natAbs (Nat.toDigits 10 n.natAbs)
  paddedNumber p (p.zeros && p.precision.isNone) (signText p (n < 0)) digits

def unsignedText (p : Place) (base : Nat) (upper : Bool) (n : Nat) : Octets :=
  let plain := (Nat.toDigits base n).map fun c => if upper then c.toUpper else c
  let digits := preciseDigits p n plain
  let digits := if base = 8 && p.marked && digits.head? != some '0' then '0' :: digits else digits
  let sign := if base = 16 && p.marked && n ≠ 0 then (if upper then ['0', 'X'] else ['0', 'x'])
    else []
  paddedNumber p (p.zeros && p.precision.isNone) sign digits

/-- A quotient with a fixed number of places behind the point. -/
def fixedText (marked : Bool) (places : Nat) (num den : Nat) : Octets :=
  let scaled := Nat.toDigits 10 (Double.roundQuotient (num * Nat.pow 10 places) den)
  let digits := List.replicate (places + 1 - scaled.length) '0' ++ scaled
  let whole := digits.take (digits.length - places)
  let fraction := digits.drop (digits.length - places)
  whole ++ (if places = 0 && !marked then [] else '.' :: fraction)

/-- The power of ten of the first digit of a quotient that is not zero. -/
def leadingPower (num den : Nat) : Int :=
  let size (n : Nat) : Nat := (Nat.toDigits 10 n).length
  let guess : Int := (size num : Int) - size den
  let isBelow : Bool :=
    if 0 ≤ guess then num < den * Nat.pow 10 guess.toNat else num * Nat.pow 10 (-guess).toNat < den
  if isBelow then guess - 1 else guess

/-- The digits of a quotient with one digit before the point, and the power of ten. -/
def scientific (places : Nat) (num den : Nat) : Octets × Int :=
  if num = 0 then (List.replicate (places + 1) '0', 0)
  else
    let e := leadingPower num den
    let shift : Int := places - e
    let scaled := if 0 ≤ shift then Double.roundQuotient (num * Nat.pow 10 shift.toNat) den
      else Double.roundQuotient num (den * Nat.pow 10 (-shift).toNat)
    let digits := Nat.toDigits 10 scaled
    if digits.length > places + 1 then (digits.take (places + 1), e + 1) else (digits, e)

/-- A power of ten in at least two digits. -/
def powerText (upper : Bool) (e : Int) : Octets :=
  let digits := Nat.toDigits 10 e.natAbs
  (if upper then 'E' else 'e') :: (if e < 0 then '-' else '+')
    :: List.replicate (2 - digits.length) '0' ++ digits

/-- Digits with a point behind the first. -/
def pointed (marked : Bool) (digits : Octets) : Octets :=
  digits.take 1 ++ (if digits.length ≤ 1 && !marked then [] else '.' :: digits.drop 1)

def withoutZeros (text : Octets) : Octets :=
  if text.contains '.' then
    ((text.reverse.dropWhile (· = '0')).dropWhile (· = '.')).reverse
  else text

/-- The digits of a finite double in the style of a letter. -/
def doubleDigits (p : Place) (letter : Char) (d : Double) : Octets :=
  let (num, den) := d.ratio
  let upper := letter.isUpper
  let places := p.precision.getD 6
  match letter.toLower with
  | 'f' => fixedText p.marked places num den
  | 'e' =>
    let (digits, e) := scientific places num den
    pointed p.marked digits ++ powerText upper e
  | _ =>
    let places := max places 1
    let (digits, e) := scientific (places - 1) num den
    let trim (text : Octets) : Octets := if p.marked then text else withoutZeros text
    if -4 ≤ e && e < places then trim (fixedText p.marked ((places : Int) - 1 - e).toNat num den)
    else trim (pointed p.marked digits) ++ powerText upper e

def doubleText (p : Place) (letter : Char) (d : Double) : Octets :=
  let cased (s : String) : Octets := (s.toList).map fun c => if letter.isUpper then c.toUpper else c
  let sign := signText p d.isNegative
  if d.isNaN then paddedNumber p false sign (cased "nan")
  else if d.isInfinite then paddedNumber p false sign (cased "inf")
  else paddedNumber p p.zeros sign (doubleDigits p letter d)

/-! ### Formats -/

def flags (p : Place) : Octets → Place × Octets
  | c :: rest =>
    match c with
    | '-' => flags { p with left := true } rest
    | '+' => flags { p with plus := true } rest
    | ' ' => flags { p with blank := true } rest
    | '#' => flags { p with marked := true } rest
    | '0' => flags { p with zeros := true } rest
    | _ => (p, c :: rest)
  | [] => (p, [])

/-- Takes a number of a place, which an argument may give. -/
def size (w : Work) : Octets → Int × Work × Octets
  | '*' :: rest =>
    let (n, w) := nextWhole (-0x80000000) 0x7FFFFFFF w
    (n, w, rest)
  | text =>
    let digits := text.takeWhile Char.isDigit
    (Number.digitsValue digits, w, text.dropWhile Char.isDigit)

def measures (p : Place) (w : Work) (text : Octets) : Place × Work × Octets :=
  let (width, w, rest) := size w text
  let p := { p with width := width.natAbs, left := p.left || width < 0 }
  match rest with
  | '.' :: rest =>
    let (n, w, rest) := size w rest
    ({ p with precision := if n < 0 then none else some n.toNat }, w, rest)
  | rest => (p, w, rest)

/-- What a format ends with if it is wrong. -/
inductive Fault where
  | noLetter
  | badPlace (text : Octets)
deriving DecidableEq, Repr

def Fault.text : Fault → Octets
  | noLetter => octets "missing format character"
  | badPlace text => text ++ octets ": invalid directive"

/-- Fills a place with an argument in the style of a letter; nothing for an unknown letter. -/
def fill? (p : Place) (letter : Char) (w : Work) : Option Work :=
  let cut (text : Octets) : Octets := match p.precision with
    | some n => text.take n
    | none => text
  match letter with
  | 's' =>
    let (a, w) := w.next
    some (w.write (padded p (cut (a.getD []))))
  | 'b' =>
    let (a, w) := w.next
    let text := a.getD []
    let u := unescape false (text.length + 1) text
    some { w.write (padded p (cut u.text)) with stopped := u.stopped }
  | 'c' =>
    let (a, w) := w.next
    some (w.write (padded p [(a.getD []).headD '\x00']))
  | 'd' | 'i' =>
    let (n, w) := nextWhole (-0x8000000000000000) 0x7FFFFFFFFFFFFFFF w
    some (w.write (signedText p n))
  | 'o' | 'u' | 'x' | 'X' =>
    let (n, w) := nextWhole (-0xFFFFFFFFFFFFFFFF) 0xFFFFFFFFFFFFFFFF w
    let base := if letter = 'o' then 8 else if letter = 'u' then 10 else 16
    some (w.write (unsignedText p base (letter = 'X') (n % 0x10000000000000000).toNat))
  | 'e' | 'E' | 'f' | 'F' | 'g' | 'G' =>
    let (d, w) := nextDouble w
    some (w.write (doubleText p letter d))
  | _ => none

/-- The escape behind a backslash in a format, and what follows. -/
def formatEscape : Octets → Octets × Octets
  | c :: rest =>
    if (ByteSet.octal? c).isSome then
      let (n, rest) := octalValue 0 3 (c :: rest)
      ([lowByte n], rest)
    else
      match escapeByte? c with
      | some b => ([b], rest)
      | none => (['\\'], c :: rest)
  | [] => (['\\'], [])

/-- Goes through a format once; `count` bounds its length. -/
def once : Nat → Octets → Work → Work × Option Fault
  | 0, _, w => (w, none)
  | _ + 1, [], w => (w, none)
  | count + 1, '\\' :: rest, w =>
    let (text, rest) := formatEscape rest
    once count rest (w.write text)
  | count + 1, '%' :: '%' :: rest, w => once count rest (w.write ['%'])
  | count + 1, '%' :: rest, w =>
    let (p, afterFlags) := flags {} rest
    let (p, w, after) := measures p w afterFlags
    match after with
    | [] => (w, some .noLetter)
    | letter :: more =>
      match fill? p letter w with
      | none => (w, some (.badPlace ('%' :: rest.take (rest.length - more.length))))
      | some w => if w.stopped then (w, none) else once count more w
  | count + 1, c :: rest, w => once count rest (w.write [c])

/-- Goes through a format until no argument is left, at most `count` times. -/
def repeatedly (format : Octets) : Nat → Work → Work × Option Fault
  | 0, w => (w, none)
  | count + 1, w =>
    match once (format.length + 1) format { w with used := false } with
    | (w, some f) => (w, some f)
    | (w, none) =>
      if w.stopped || !w.used || w.arguments.isEmpty then (w, none)
      else repeatedly format count w

def run (format : Octets) (arguments : List Octets) : Work × Option Fault :=
  repeatedly format (arguments.length + 1) { arguments }

end BulkEdit.Program.Format
