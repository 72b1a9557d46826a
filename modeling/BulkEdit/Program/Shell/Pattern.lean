import BulkEdit.Program.ByteSet

/-!
# Patterns of the shell

`*` stands for any bytes, `?` for one, and brackets hold sets of bytes.
-/

namespace BulkEdit.Program.Shell

/-- A byte of a pattern; one that is literal stands for itself. -/
structure PatternByte where
  byte : Char
  literal : Bool
deriving DecidableEq, Repr

inductive SetMember where
  | range (first last : Char)
  | named (k : ByteSet.ByteClass)
deriving DecidableEq, Repr

inductive PatternItem where
  | byte (c : Char)
  | any
  | many
  | set (negated : Bool) (members : List SetMember)
deriving DecidableEq, Repr

def SetMember.contains (m : SetMember) (c : Char) : Bool :=
  match m with
  | range first last => first ≤ c && c ≤ last
  | named k => k.contains c

/-- A class in a set, behind its opening bracket, and what follows it. -/
def classInSet? (rest : List PatternByte) : Option (ByteSet.ByteClass × List PatternByte) :=
  match rest with
  | ⟨':', false⟩ :: more =>
    let name := more.takeWhile fun b => b.byte.isAlpha
    match ByteSet.ByteClass.ofName? (name.map PatternByte.byte), more.drop name.length with
    | some k, ⟨':', false⟩ :: ⟨']', false⟩ :: after => some (k, after)
    | _, _ => none
  | _ => none

/-- The members of a set up to its closing bracket, and what follows it. A bracket at the very
beginning is a member. -/
def setMembers : Nat → Bool → List PatternByte → Option (List SetMember × List PatternByte)
  | 0, _, _ => none
  | _ + 1, _, [] => none
  | count + 1, first, b :: rest =>
    if b = ⟨']', false⟩ && !first then some ([], rest)
    else
      match (if b = ⟨'[', false⟩ then classInSet? rest else none) with
      | some (k, rest) =>
        (setMembers count false rest).map fun (ms, rest) => (.named k :: ms, rest)
      | none =>
        match rest with
        | ⟨'-', false⟩ :: c :: more =>
          if c = ⟨']', false⟩ then
            (setMembers count false rest).map fun (ms, rest) => (.range b.byte b.byte :: ms, rest)
          else
            (setMembers count false more).map fun (ms, rest) => (.range b.byte c.byte :: ms, rest)
        | _ =>
          (setMembers count false rest).map fun (ms, rest) => (.range b.byte b.byte :: ms, rest)

/-- The items of a pattern; `count` bounds its length. -/
def patternItems : Nat → List PatternByte → List PatternItem
  | 0, _ => []
  | _ + 1, [] => []
  | count + 1, b :: rest =>
    if b.literal then .byte b.byte :: patternItems count rest
    else
      match b.byte with
      | '*' => .many :: patternItems count rest
      | '?' => .any :: patternItems count rest
      | '\\' =>
        match rest with
        | c :: more => .byte c.byte :: patternItems count more
        | [] => [.byte '\\']
      | '[' =>
        let (negated, inside) := match rest with
          | ⟨'!', false⟩ :: more => (true, more)
          | ⟨'^', false⟩ :: more => (true, more)
          | more => (false, more)
        match setMembers (inside.length + 1) true inside with
        | some (members, more) => .set negated members :: patternItems count more
        | none => .byte '[' :: patternItems count rest
      | c => .byte c :: patternItems count rest

def anyRest (p : Octets → Bool) : Octets → Bool
  | [] => p []
  | c :: rest => p (c :: rest) || anyRest p rest

def matchesItems : List PatternItem → Octets → Bool
  | [], text => text.isEmpty
  | .many :: items, text => anyRest (matchesItems items) text
  | _ :: _, [] => false
  | .any :: items, _ :: rest => matchesItems items rest
  | .byte c :: items, d :: rest => c = d && matchesItems items rest
  | .set negated members :: items, d :: rest =>
    (members.any (·.contains d) != negated) && matchesItems items rest

def matchesPattern (pattern : List PatternByte) (text : Octets) : Bool :=
  matchesItems (patternItems (pattern.length + 1) pattern) text

/-- A text without the part at its front or end that a pattern matches: the longest such part or the
shortest. -/
def trimmed (pattern : List PatternByte) (atFront longest : Bool) (text : Octets) : Octets :=
  let items := patternItems (pattern.length + 1) pattern
  let sizes := List.range (text.length + 1)
  let sizes := if longest then sizes.reverse else sizes
  let cut (n : Nat) : Octets × Octets :=
    if atFront then (text.take n, text.drop n)
    else (text.drop (text.length - n), text.take (text.length - n))
  match sizes.find? fun n => matchesItems items (cut n).1 with
  | some n => (cut n).2
  | none => text

end BulkEdit.Program.Shell
