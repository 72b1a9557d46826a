import BulkEdit.Program.Format

/-!
# Conditions

`test` looks at texts, numbers and files.
-/

namespace BulkEdit.Program.Test

/-- How a word of a condition is read. -/
inductive Kind where
  | none
  | operand
  | unary
  | binary
  | not
  | and
  | or
  | opening
  | closing
deriving DecidableEq, Repr

/-- The operators before one operand. -/
def unaries : List String :=
  ["-r", "-w", "-x", "-e", "-f", "-d", "-c", "-b", "-p", "-h", "-L", "-u", "-g", "-k", "-s", "-t",
    "-z", "-n", "-O", "-G", "-S"]

/-- The operators between two operands. -/
def binaries : List String :=
  ["=", "!=", "<", ">", "-eq", "-ne", "-ge", "-gt", "-le", "-lt", "-nt", "-ot", "-ef"]

/-- How a word is read if it stands where an operator may. -/
def operatorKind (word : Octets) : Kind :=
  let text := String.ofList word
  if unaries.contains text then .unary
  else if binaries.contains text then .binary
  else
    match text with
    | "!" => .not
    | "-a" => .and
    | "-o" => .or
    | "(" => .opening
    | ")" => .closing
    | _ => .operand

/-- How the first of some words is read. An operator without an operand is an operand itself. -/
def kindAt : List Octets → Kind
  | [] => .none
  | word :: rest =>
    match operatorKind word with
    | .unary =>
      match rest with
      | [] => .operand
      | [_] => .unary
      | next :: _ => if operatorKind next = .binary then .operand else .unary
    | .opening => if rest.isEmpty then .operand else .opening
    | kind => kind

abbrev Fault := Octets

/-- The value of a condition, and the words from its last one on. -/
abbrev Read := Except Fault (Bool × List Octets)

def wholeNumber (text : Octets) : Except Fault Int :=
  let body := (Format.skipSpace (Format.skipSpace text).reverse).reverse
  let (negative, digits) := match body with
    | '-' :: rest => (true, rest)
    | '+' :: rest => (false, rest)
    | rest => (false, rest)
  if digits.isEmpty || !digits.all Char.isDigit then .error (octets "Illegal number: " ++ text)
  else
    let n : Int := Number.digitsValue digits
    .ok (if negative then -n else n)

/-- What a file is like. -/
def fileTest (d : Disk) (operator : String) (name : Octets) : Bool :=
  let p := pathOf name
  if operator = "-h" || operator = "-L" then
    match d.resolve false p with
    | .ok (.found _ (.link _)) => name ≠ []
    | _ => false
  else
    match d.look p with
    | .error _ => false
    | .ok (_, node) =>
      name ≠ [] &&
        match operator, node with
        | "-e", _ => true
        | "-r", _ => true
        | "-w", _ => true
        | "-O", _ => true
        | "-G", _ => true
        | "-x", .folder => true
        | "-f", .file _ => true
        | "-s", .file bytes => !bytes.isEmpty
        | "-s", .folder => true
        | "-d", .folder => true
        | "-c", .device => true
        | _, _ => false

def unary (d : Disk) (operator : String) (operand : Octets) : Except Fault Bool :=
  match operator with
  | "-z" => .ok operand.isEmpty
  | "-n" => .ok !operand.isEmpty
  | "-t" => (wholeNumber operand).map fun _ => false
  | _ => .ok (fileTest d operator operand)

def binary (d : Disk) (operator : String) (a b : Octets) : Except Fault Bool :=
  let numbers (p : Int → Int → Bool) : Except Fault Bool := do
    let x ← wholeNumber a
    let y ← wholeNumber b
    pure (p x y)
  match operator with
  | "=" => .ok (a = b)
  | "!=" => .ok (a ≠ b)
  | "<" => .ok (decide (a < b))
  | ">" => .ok (decide (b < a))
  | "-eq" => numbers fun x y => x = y
  | "-ne" => numbers fun x y => x ≠ y
  | "-ge" => numbers fun x y => x ≥ y
  | "-gt" => numbers fun x y => x > y
  | "-le" => numbers fun x y => x ≤ y
  | "-lt" => numbers fun x y => x < y
  | "-ef" =>
    match d.look (pathOf a), d.look (pathOf b) with
    | .ok (p, _), .ok (q, _) => .ok (p = q)
    | _, _ => .ok false
  | _ => .ok false

mutual

/-- Conditions of which one has to hold. -/
def disjunction (d : Disk) : Nat → Kind → List Octets → Read
  | 0, _, ts => .ok (false, ts)
  | fuel + 1, kind, ts => do
    let (a, ts) ← conjunction d fuel kind ts
    if kindAt ts.tail = .or then
      let ts := ts.drop 2
      let (b, ts) ← disjunction d fuel (kindAt ts) ts
      pure (a || b, ts)
    else pure (a, ts)

/-- Conditions of which all have to hold. -/
def conjunction (d : Disk) : Nat → Kind → List Octets → Read
  | 0, _, ts => .ok (false, ts)
  | fuel + 1, kind, ts => do
    let (a, ts) ← negation d fuel kind ts
    if kindAt ts.tail = .and then
      let ts := ts.drop 2
      let (b, ts) ← conjunction d fuel (kindAt ts) ts
      pure (a && b, ts)
    else pure (a, ts)

/-- A condition that may be negated. -/
def negation (d : Disk) : Nat → Kind → List Octets → Read
  | 0, _, ts => .ok (false, ts)
  | fuel + 1, kind, ts => do
    if kind = .not then
      let next := kindAt ts.tail
      let (a, ts) ← negation d fuel next (if next = .none then ts else ts.tail)
      pure (!a, ts)
    else primary d fuel kind ts

def primary (d : Disk) : Nat → Kind → List Octets → Read
  | 0, _, ts => .ok (false, ts)
  | fuel + 1, kind, ts => do
    match kind, ts with
    | .none, ts => pure (false, ts)
    | _, [] => pure (false, [])
    | .opening, _ :: ts =>
      if kindAt ts = .closing then pure (false, ts)
      else
        let (a, ts) ← disjunction d fuel (kindAt ts) ts
        let ts := ts.tail
        if kindAt ts = .closing then pure (a, ts)
        else .error (octets "closing paren expected")
    | .unary, operator :: ts =>
      match ts with
      | [] => .error (operator ++ octets ": argument expected")
      | operand :: _ => do
        let a ← unary d (String.ofList operator) operand
        pure (a, ts)
    | _, operand :: ts =>
      match ts with
      | operator :: more =>
        if kindAt ts = .binary then
          match more with
          | [] => .error (operator ++ octets ": argument expected")
          | second :: _ => do
            let a ← binary d (String.ofList operator) operand second
            pure (a, more)
        else pure (!operand.isEmpty, operand :: ts)
      | [] => pure (!operand.isEmpty, [operand])

end

def run (d : Disk) (words : List Octets) : Except Fault Bool :=
  let (kind, ts) : Kind × List Octets := match words with
    | [a, b, c] =>
      if operatorKind b = .binary then (.operand, words)
      else if a = ['('] && c = [')'] then (kindAt [b], [b])
      else if a = ['!'] then (.not, words)
      else (kindAt words, words)
    | [a, b, c, e] =>
      if a = ['('] && e = [')'] then (kindAt [b, c], [b, c])
      else if a = ['!'] then (.not, words)
      else (kindAt words, words)
    | _ => (kindAt words, words)
  if words.isEmpty then .ok false
  else
    match disjunction d (4 * words.length + 8) kind ts with
    | .error f => .error f
    | .ok (a, rest) =>
      match rest with
      | last :: _ :: _ => .error (last ++ octets ": unexpected operator")
      | _ => .ok a

end BulkEdit.Program.Test
