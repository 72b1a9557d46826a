/-!
# Places in YAML texts

A place is given by the characters ahead and where they stand. Line and column decide what the
indentation means.
-/

namespace BulkEdit.Yaml

/-- The characters ahead, and where the first of them stands: how many bytes are behind it, its line,
and its column in characters. -/
structure Cursor where
  rest : List Char
  index : Nat := 0
  line : Nat := 0
  column : Nat := 0

def isBreak (c : Char) : Bool :=
  c = '\n' || c = '\r' || c = '\x85' || c = '\u2028' || c = '\u2029'

def isSpaceOrTab (c : Char) : Bool :=
  c = ' ' || c = '\t'

/-- Characters of anchors, directive names and tag handles. -/
def isWordChar (c : Char) : Bool :=
  c.isAlphanum || c = '_' || c = '-'

/-- The characters that a text may hold at all. -/
def isAllowed (c : Char) : Bool :=
  let n := c.toNat
  n = 9 || n = 10 || n = 13 || (0x20 ≤ n && n ≤ 0x7E) || n = 0x85 || (0xA0 ≤ n && n ≤ 0xFFFD)
    || 0x10000 ≤ n

namespace Cursor

def peek? (c : Cursor) : Option Char :=
  c.rest.head?

def peekAt? (c : Cursor) (n : Nat) : Option Char :=
  c.rest[n]?

def sees (c : Cursor) (d : Char) : Bool :=
  c.rest.head? == some d

def atOffset (c : Cursor) (n : Nat) (d : Char) : Bool :=
  c.rest[n]? == some d

def atEnd (c : Cursor) : Bool :=
  c.rest.isEmpty

def atSpace (c : Cursor) : Bool :=
  (c.rest.head?.map isSpaceOrTab).getD false

def atBreak (c : Cursor) : Bool :=
  (c.rest.head?.map isBreak).getD false

/-- Whether a blank, the end of a line or the end of the text stands `n` places ahead. -/
def gapAt (c : Cursor) (n : Nat) : Bool :=
  match c.rest[n]? with
  | none => true
  | some d => isSpaceOrTab d || isBreak d

/-- Whether the line or the text ends here. -/
def atLineEnd (c : Cursor) : Bool :=
  c.atEnd || c.atBreak

def skip (c : Cursor) : Cursor :=
  match c.rest with
  | [] => c
  | d :: rest => { c with rest, index := c.index + d.utf8Size, column := c.column + 1 }

def skipMany (c : Cursor) : Nat → Cursor
  | 0 => c
  | n + 1 => c.skip.skipMany n

/-- Steps over the end of a line, and gives the character that stands for it. -/
def takeBreak (c : Cursor) : List Char × Cursor :=
  match c.rest with
  | '\r' :: '\n' :: rest => (['\n'], ⟨rest, c.index + 2, c.line + 1, 0⟩)
  | d :: rest =>
    if d = '\u2028' ∨ d = '\u2029' then ([d], ⟨rest, c.index + d.utf8Size, c.line + 1, 0⟩)
    else if isBreak d then (['\n'], ⟨rest, c.index + d.utf8Size, c.line + 1, 0⟩)
    else ([], c)
  | [] => ([], c)

/-- Takes characters of a class from a list of those ahead. -/
def takeFrom (p : Char → Bool) : List Char → Cursor → List Char → List Char × Cursor
  | [], c, held => (held.reverse, c)
  | d :: more, c, held => if p d then takeFrom p more c.skip (d :: held) else (held.reverse, c)

/-- Takes the characters of a class; the class holds no line ends. -/
def takeWhile (c : Cursor) (p : Char → Bool) : List Char × Cursor :=
  takeFrom p c.rest c []

/-- Steps over the characters of a class; the class holds no line ends. -/
def skipWhile (c : Cursor) (p : Char → Bool) : Cursor :=
  (c.takeWhile p).2

def skipToLineEnd (c : Cursor) : Cursor :=
  c.skipWhile fun d => !isBreak d

/-- Whether a document marker of three equal characters stands here. -/
def atMarker (c : Cursor) (d : Char) : Bool :=
  c.column = 0 && c.sees d && c.atOffset 1 d && c.atOffset 2 d && c.gapAt 3

end Cursor

end BulkEdit.Yaml
