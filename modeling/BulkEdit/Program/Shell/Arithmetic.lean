import BulkEdit.Program.Format
import BulkEdit.Program.Shell.Syntax

/-!
# Arithmetic in shell scripts

Whole numbers of sixty-four bits, variables, assignments, and the operators with their usual ranks.
-/

namespace BulkEdit.Program.Shell.Arithmetic

/-- The number of sixty-four bits that is left of a larger one. -/
def wrapped (n : Int) : Int :=
  Int.bmod n 0x10000000000000000

inductive Operator where
  | mul
  | div
  | rem
  | add
  | sub
  | shiftLeft
  | shiftRight
  | less
  | lessEqual
  | greater
  | greaterEqual
  | equal
  | notEqual
  | bitAnd
  | bitXor
  | bitOr
deriving DecidableEq, Repr

namespace Operator

/-- How tightly an operator binds. -/
def rank : Operator → Nat
  | mul | div | rem => 8
  | add | sub => 7
  | shiftLeft | shiftRight => 6
  | less | lessEqual | greater | greaterEqual => 5
  | equal | notEqual => 4
  | bitAnd => 3
  | bitXor => 2
  | bitOr => 1

/-- A number as sixty-four bits. -/
def bits (n : Int) : BitVec 64 :=
  BitVec.ofInt 64 n

/-- The value of an operator; nothing for a division by zero. -/
def result? (o : Operator) (a b : Int) : Option Int :=
  let truth (p : Bool) : Option Int := some (if p then 1 else 0)
  let shift := (bits b).toNat % 64
  match o with
  | mul => some (wrapped (a * b))
  | div => if b = 0 then none else some (wrapped (a.tdiv b))
  | rem => if b = 0 then none else some (a.tmod b)
  | add => some (wrapped (a + b))
  | sub => some (wrapped (a - b))
  | shiftLeft => some ((bits a <<< shift).toInt)
  | shiftRight => some ((bits a).sshiftRight shift).toInt
  | less => truth (a < b)
  | lessEqual => truth (a ≤ b)
  | greater => truth (a > b)
  | greaterEqual => truth (a ≥ b)
  | equal => truth (a = b)
  | notEqual => truth (a ≠ b)
  | bitAnd => some (bits a &&& bits b).toInt
  | bitXor => some (bits a ^^^ bits b).toInt
  | bitOr => some (bits a ||| bits b).toInt

end Operator

inductive Token where
  | number (n : Int)
  | name (text : String)
  | binary (o : Operator)
  /-- An assignment, which may go through an operator. -/
  | assign (o : Option Operator)
  | andAlso
  | orElse
  | not
  | complement
  | question
  | colon
  | opening
  | closing
  | bad
deriving DecidableEq, Repr

/-- The tokens that are written with signs; longer ones come first. -/
def signs : List (String × Token) :=
  [("<<=", .assign (some .shiftLeft)), (">>=", .assign (some .shiftRight)),
    ("<=", .binary .lessEqual), (">=", .binary .greaterEqual), ("==", .binary .equal),
    ("!=", .binary .notEqual), ("&&", .andAlso), ("||", .orElse), ("<<", .binary .shiftLeft),
    (">>", .binary .shiftRight), ("+=", .assign (some .add)), ("-=", .assign (some .sub)),
    ("*=", .assign (some .mul)), ("/=", .assign (some .div)), ("%=", .assign (some .rem)),
    ("&=", .assign (some .bitAnd)), ("^=", .assign (some .bitXor)), ("|=", .assign (some .bitOr)),
    ("=", .assign none), ("+", .binary .add), ("-", .binary .sub), ("*", .binary .mul),
    ("/", .binary .div), ("%", .binary .rem), ("&", .binary .bitAnd), ("|", .binary .bitOr),
    ("^", .binary .bitXor), ("~", .complement), ("!", .not), ("<", .binary .less),
    (">", .binary .greater), ("?", .question), (":", .colon), ("(", .opening), (")", .closing)]

def largest : Int := 0x7FFFFFFFFFFFFFFF

/-- The tokens of an expression; `count` bounds its length. -/
def tokens : Nat → Octets → List Token
  | 0, _ => []
  | _ + 1, [] => []
  | count + 1, c :: rest =>
    if c = ' ' || c = '\t' || c = '\n' then tokens count rest
    else if c.isDigit then
      match Format.wholeAt (c :: rest) with
      | some (n, rest) => .number (min n largest) :: tokens count rest
      | none => [.bad]
    else if isNameStart c then
      let name := (c :: rest).takeWhile isNameChar
      .name (String.ofList name) :: tokens count ((c :: rest).drop name.length)
    else
      match signs.find? fun s => s.1.toList.isPrefixOf (c :: rest) with
      | some (text, t) => t :: tokens count ((c :: rest).drop text.length)
      | none => [.bad]

inductive Expression where
  | number (n : Int)
  | name (text : String)
  | negate (e : Expression)
  | not (e : Expression)
  | complement (e : Expression)
  | binary (o : Operator) (a b : Expression)
  | andAlso (a b : Expression)
  | orElse (a b : Expression)
  | choose (condition yes no : Expression)
  | assign (name : String) (o : Option Operator) (e : Expression)
deriving Repr

/-- Why an expression has no value. -/
inductive Fault where
  /-- The expression does not go on as it should. -/
  | expecting (what : String)
  | division
  | illegalNumber (text : Octets)
deriving DecidableEq, Repr

/-- What has been read of an expression, and the rest. -/
abbrev Read := Except Fault (Expression × List Token)

mutual

/-- An expression with an assignment or without. -/
def assignment : Nat → List Token → Read
  | 0, _ => .error (.expecting "primary")
  | fuel + 1, .name x :: .assign o :: rest =>
    match assignment fuel rest with
    | .ok (e, rest) => .ok (.assign x o e, rest)
    | .error f => .error f
  | fuel + 1, ts => conditional fuel ts

/-- An expression with a choice or without. -/
def conditional : Nat → List Token → Read
  | 0, _ => .error (.expecting "primary")
  | fuel + 1, ts => do
    let (a, rest) ← disjunction fuel ts
    match rest with
    | .question :: rest =>
      let (b, rest) ← assignment fuel rest
      match rest with
      | .colon :: rest =>
        let (c, rest) ← conditional fuel rest
        pure (.choose a b c, rest)
      | _ => .error (.expecting "':'")
    | rest => pure (a, rest)

/-- Expressions joined by `||`. -/
def disjunction : Nat → List Token → Read
  | 0, _ => .error (.expecting "primary")
  | fuel + 1, ts => do
    let (a, rest) ← conjunction fuel ts
    match rest with
    | .orElse :: rest =>
      let (b, rest) ← disjunction fuel rest
      pure (.orElse a b, rest)
    | rest => pure (a, rest)

/-- Expressions joined by `&&`. -/
def conjunction : Nat → List Token → Read
  | 0, _ => .error (.expecting "primary")
  | fuel + 1, ts => do
    let (a, rest) ← ranked fuel 1 ts
    match rest with
    | .andAlso :: rest =>
      let (b, rest) ← conjunction fuel rest
      pure (.andAlso a b, rest)
    | rest => pure (a, rest)

/-- Operands joined by operators of at least a rank. -/
def ranked : Nat → Nat → List Token → Read
  | 0, _, _ => .error (.expecting "primary")
  | fuel + 1, rank, ts => do
    let (a, rest) ← primary fuel ts
    rankedFrom fuel rank a rest

/-- Operands joined by operators of at least a rank, behind the first of them. -/
def rankedFrom : Nat → Nat → Expression → List Token → Read
  | 0, _, _, _ => .error (.expecting "primary")
  | fuel + 1, rank, a, .binary o :: rest => do
    if o.rank < rank then pure (a, .binary o :: rest)
    else
      let (b, rest) ← ranked fuel (o.rank + 1) rest
      rankedFrom fuel rank (.binary o a b) rest
  | _ + 1, _, a, rest => pure (a, rest)

def primary : Nat → List Token → Read
  | 0, _ => .error (.expecting "primary")
  | fuel + 1, ts => do
    match ts with
    | .number n :: rest => pure (.number n, rest)
    | .name x :: rest => pure (.name x, rest)
    | .opening :: rest =>
      let (e, rest) ← assignment fuel rest
      match rest with
      | .closing :: rest => pure (e, rest)
      | _ => .error (.expecting "')'")
    | .binary .add :: rest => primary fuel rest
    | .binary .sub :: rest =>
      let (e, rest) ← primary fuel rest
      pure (.negate e, rest)
    | .not :: rest =>
      let (e, rest) ← primary fuel rest
      pure (.not e, rest)
    | .complement :: rest =>
      let (e, rest) ← primary fuel rest
      pure (.complement e, rest)
    | _ => .error (.expecting "primary")

end

/-- The expression that a text spells. -/
def read (text : Octets) : Except Fault Expression :=
  let ts := tokens (text.length + 1) text
  match assignment (16 * ts.length + 16) ts with
  | .error f => .error f
  | .ok (e, []) => .ok e
  | .ok (_, _ :: _) => .error (.expecting "EOF")

/-- The value of a variable as a number: nothing counts as zero. -/
def variableValue (text : Octets) : Except Fault Int :=
  let isBlank := (Format.skipSpace text).isEmpty
  match Format.wholeAt text with
  | some (n, rest) =>
    if (Format.skipSpace rest).isEmpty then .ok (max (-largest - 1) (min largest n))
    else .error (.illegalNumber text)
  | none => if isBlank then .ok 0 else .error (.illegalNumber text)

/-- The variables while an expression is evaluated: those that were assigned, and all others. -/
abbrev Evaluate := StateT (List (String × Int)) (Except Fault)

def evaluate (stored : String → Option Octets) : Expression → Evaluate Int
  | .number n => pure n
  | .name x => do
    match (← get).lookup x with
    | some n => pure n
    | none => liftM (variableValue ((stored x).getD []))
  | .negate e => do pure (wrapped (-(← evaluate stored e)))
  | .not e => do pure (if (← evaluate stored e) = 0 then 1 else 0)
  | .complement e => do pure (-1 - (← evaluate stored e))
  | .binary o a b => do
    let x ← evaluate stored a
    let y ← evaluate stored b
    match o.result? x y with
    | some n => pure n
    | none => throw .division
  | .andAlso a b => do
    if (← evaluate stored a) = 0 then pure 0
    else pure (if (← evaluate stored b) = 0 then 0 else 1)
  | .orElse a b => do
    if (← evaluate stored a) ≠ 0 then pure 1
    else pure (if (← evaluate stored b) = 0 then 0 else 1)
  | .choose c a b => do
    if (← evaluate stored c) ≠ 0 then evaluate stored a else evaluate stored b
  | .assign x o e => do
    let y ← evaluate stored e
    let n ← match o with
      | none => pure y
      | some o =>
        let before ← match (← get).lookup x with
          | some n => pure n
          | none => liftM (variableValue ((stored x).getD []))
        match o.result? before y with
        | some n => pure n
        | none => throw .division
    modify fun vs => (x, n) :: vs
    pure n

/-- The value of a text as an expression, and the variables that were assigned, the last one
first. -/
def valueOf (stored : String → Option Octets) (text : Octets) :
    Except Fault (Int × List (String × Int)) :=
  match read text with
  | .error f => .error f
  | .ok e => (evaluate stored e).run []

/-- A number as the shell writes it. -/
def numberText (n : Int) : Octets :=
  (if n < 0 then ['-'] else []) ++ Nat.toDigits 10 n.natAbs

end BulkEdit.Program.Shell.Arithmetic
