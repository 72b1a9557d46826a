import BulkEdit.Glob.Basic

/-!
# Reading globs

The reader goes through the characters once and keeps the tokens of the branch it is in, the groups
around it and the character it saw last, which decides whether `**` stands for a whole component.
-/

namespace BulkEdit.Glob

/-- A group that is still open: its finished branches and the tokens before it, both with the
latest first. -/
structure Group where
  branches : List (List Token)
  outer : List Token

/-- What has been read: the tokens of the current branch, the latest first, and the open groups
around it, the innermost first. -/
structure Progress where
  tokens : List Token
  groups : List Group

namespace Progress

def push (p : Progress) (t : Token) : Progress :=
  { p with tokens := t :: p.tokens }

/-- Two stars that do not stand for a whole component. -/
def pushStars (p : Progress) : Progress :=
  (p.push .many).push .many

def openGroup (p : Progress) : Progress :=
  ⟨[], ⟨[], p.tokens⟩ :: p.groups⟩

/-- A comma begins a new branch inside a group and is itself outside of all groups. -/
def comma (p : Progress) : Progress :=
  match p.groups with
  | [] => p.push (.literal ',')
  | g :: outer => ⟨[], { g with branches := p.tokens.reverse :: g.branches } :: outer⟩

def closeGroup (p : Progress) : Except Error Progress :=
  match p.groups with
  | [] => .error .unopenedGroup
  | g :: outer =>
    .ok ⟨.oneOf (p.tokens.reverse :: g.branches).reverse :: g.outer, outer⟩

end Progress

/-- The ranges of a class up to its closing bracket, the latest first, and the rest of the text. In
front a bracket or a dash stands for itself; `dash` tells that a dash waits for its upper end. -/
def classRanges : Bool → Bool → List (Char × Char) → List Char →
    Except Error (List (Char × Char) × List Char)
  | _, _, _, [] => .error .unclosedClass
  | first, dash, ranges, c :: rest =>
    if c = ']' ∧ !first then
      .ok (if dash then ('-', '-') :: ranges else ranges, rest)
    else if c = '-' ∧ !first ∧ !dash then
      classRanges false true ranges rest
    else
      match dash, ranges with
      | true, (low, _) :: earlier =>
        if c < low then .error (.invalidRange low c)
        else classRanges false false ((low, c) :: earlier) rest
      | _, _ => classRanges false false ((c, c) :: ranges) rest

/-- A class after its opening bracket. -/
def readClass (cs : List Char) : Except Error (Token × List Char) :=
  let (negated, cs) := match cs with
    | '!' :: rest => (true, rest)
    | '^' :: rest => (true, rest)
    | rest => (false, rest)
  (classRanges true false [] cs).map fun (ranges, rest) => (.class negated ranges.reverse, rest)

/-- What the text after two stars makes of them: the progress, and whether one separator is
swallowed. -/
def readStars (p : Progress) (previous : Option Char) (rest : List Char) : Progress × Bool :=
  if p.tokens.isEmpty then
    match rest with
    | [] => (p.push .deepStart, false)
    | '/' :: _ => (p.push .deepStart, true)
    | _ => (p.pushStars, false)
  else if previous ≠ some '/' ∧
      (p.groups.isEmpty ∨ (previous ≠ some ',' ∧ previous ≠ some '\x7b')) then
    (p.pushStars, false)
  else
    let (component, swallow, final) := match rest with
      | [] => (true, false, true)
      | '/' :: _ => (true, true, false)
      | c :: _ =>
        if !p.groups.isEmpty && (c = ',' || c = '\x7d') then (true, false, true)
        else (false, false, false)
    if !component then
      (p.pushStars, false)
    else
      match p.tokens with
      | .deepStart :: _ => (p, swallow)
      | .deepEnd :: _ => (p, swallow)
      | _ :: earlier =>
        ({ p with tokens := (if final then .deepEnd else .deepMiddle) :: earlier }, swallow)
      | [] => (p, swallow)

/-- Reads the rest of a glob after the character `previous`; `fuel` bounds the characters. -/
def readFrom : Nat → Progress → Option Char → List Char → Except Error Progress
  | 0, p, _, _ => .ok p
  | _ + 1, p, _, [] => .ok p
  | fuel + 1, p, previous, c :: rest =>
    if c = '?' then
      readFrom fuel (p.push .one) (some c) rest
    else if c = '*' then
      match rest with
      | '*' :: more =>
        let (p, swallow) := readStars p previous more
        if swallow then readFrom fuel p (some '/') (more.drop 1)
        else readFrom fuel p (some '*') more
      | _ => readFrom fuel (p.push .many) (some c) rest
    else if c = '[' then
      match readClass rest with
      | .error e => .error e
      | .ok (t, rest) => readFrom fuel (p.push t) (some ']') rest
    else if c = '\x7b' then
      readFrom fuel p.openGroup (some c) rest
    else if c = '\x7d' then
      match p.closeGroup with
      | .error e => .error e
      | .ok p => readFrom fuel p (some c) rest
    else if c = ',' then
      readFrom fuel p.comma (some c) rest
    else if c = '\\' then
      match rest with
      | [] => .error .danglingEscape
      | d :: rest => readFrom fuel (p.push (.literal d)) (some d) rest
    else
      readFrom fuel (p.push (.literal c)) (some c) rest

def parse (glob : String) : Except Error (List Token) := do
  let cs := glob.toList
  let p ← readFrom cs.length ⟨[], []⟩ none cs
  if p.groups.isEmpty then pure p.tokens.reverse else throw .unclosedGroup

end BulkEdit.Glob
