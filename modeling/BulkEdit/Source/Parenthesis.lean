import BulkEdit.Source.Code
import BulkEdit.Text.Alphanumeric
import BulkEdit.Text.Blank

/-!
# Redundant parentheses

A printer may wrap an expression after `return`, `=` or `=>` in parentheses without changing what it
means; removing such pairs makes sources comparable.
-/

namespace BulkEdit.Source

/-- A character of a source, and whether it is code. -/
structure Glyph where
  char : Char
  isCode : Bool
deriving DecidableEq, Repr

def glyphs (cs : List Char) : List Glyph :=
  (cs.zip (codeMask cs)).map fun (c, isCode) => ⟨c, isCode⟩

/-- A pair of parentheses, given by the positions of the two. -/
structure Pair where
  opening : Nat
  closing : Nat
deriving DecidableEq, Repr

/-- The pairs of parentheses in code in the order of their closing, from position `i` on; `waiting`
holds the open ones. A parenthesis without partner gives no pairs at all. -/
def pairsFrom : Nat → List Nat → List Glyph → Option (List Pair)
  | _, [], [] => some []
  | _, _ :: _, [] => none
  | i, waiting, g :: rest =>
    if g.isCode ∧ g.char = '(' then pairsFrom (i + 1) (i :: waiting) rest
    else if g.isCode ∧ g.char = ')' then
      match waiting with
      | [] => none
      | opening :: waiting => (pairsFrom (i + 1) waiting rest).map (⟨opening, i⟩ :: ·)
    else pairsFrom (i + 1) waiting rest

def pairs (gs : List Glyph) : Option (List Pair) :=
  pairsFrom 0 [] gs

/-- Characters that identifiers are made of. -/
def isIdentifierChar (c : Char) : Bool :=
  Text.isAlphanumeric c || c = '_' || c = '$'

/-- Whether an expression is expected after a text, given backwards: after an arrow, an assignment or
`return`. -/
def expectsExpression (before : List Char) : Bool :=
  match before.dropWhile Text.isBlank with
  | '>' :: '=' :: _ => true
  | '=' :: c :: _ => !(c = '=' || c = '!' || c = '<' || c = '>')
  | ['='] => true
  | 'n' :: 'r' :: 'u' :: 't' :: 'e' :: 'r' :: rest =>
    match rest with
    | [] => true
    | c :: _ => !isIdentifierChar c
  | _ => false

/-- Whether an expression may end before a text. -/
def endsExpression (after : List Char) : Bool :=
  match after.dropWhile Text.isBlank with
  | [] => true
  | c :: _ => c = ';' || c = ',' || c = ')' || c = '\x7d' || c = ']'

/-- Whether a text begins with a whole word. -/
def startsWithWord (word : List Char) (cs : List Char) : Bool :=
  word.isPrefixOf cs &&
    match cs.drop word.length with
    | [] => true
    | c :: _ => !isIdentifierChar c

/-- Whether code holds a comma outside of all brackets. -/
def hasOuterComma : Nat → List Glyph → Bool
  | _, [] => false
  | depth, g :: rest =>
    if !g.isCode then hasOuterComma depth rest
    else if g.char = '(' ∨ g.char = '[' ∨ g.char = '\x7b' then hasOuterComma (depth + 1) rest
    else if g.char = ')' ∨ g.char = ']' ∨ g.char = '\x7d' then hasOuterComma (depth - 1) rest
    else if g.char = ',' ∧ depth = 0 then true
    else hasOuterComma depth rest

/-- Whether the meaning of what stands between two parentheses depends on them: an object, a function
or class expression, or a sequence. `inner` goes up to the closing parenthesis and `onward` to the end
of the source. -/
def needsParentheses (inner onward : List Glyph) : Bool :=
  let blank (g : Glyph) : Bool := Text.isBlank g.char
  match inner.dropWhile blank with
  | [] => false
  | first :: rest =>
    let text := (onward.dropWhile blank).map Glyph.char
    first.char = '\x7b' || startsWithWord "function".toList text ||
      startsWithWord "class".toList text || hasOuterComma 0 (first :: rest)

def Pair.inner (p : Pair) (gs : List Glyph) : List Glyph :=
  (gs.take p.closing).drop (p.opening + 1)

def Pair.isRedundant (p : Pair) (gs : List Glyph) : Bool :=
  expectsExpression ((gs.take p.opening).map Glyph.char).reverse &&
    endsExpression ((gs.drop (p.closing + 1)).map Glyph.char) &&
    !needsParentheses (p.inner gs) (gs.drop (p.opening + 1))

/-- What becomes of the characters around a redundant pair: the parentheses go together with the
blanks inside of them, and the opening one leaves a blank if none stands before it. -/
structure Cut where
  pair : Pair
  /-- How many blanks follow the opening parenthesis. -/
  lead : Nat
  /-- How many blanks stand before the closing parenthesis. -/
  trail : Nat
  /-- Whether the opening parenthesis becomes a blank. -/
  leavesBlank : Bool
deriving DecidableEq, Repr

def Pair.cut (p : Pair) (gs : List Glyph) : Cut :=
  let inner := (p.inner gs).map Glyph.char
  { pair := p
    lead := (inner.takeWhile Text.isBlank).length
    trail := (inner.reverse.takeWhile Text.isBlank).length
    leavesBlank := match (gs.take p.opening).getLast? with
      | some g => !Text.isBlank g.char
      | none => false }

def Cut.drops (c : Cut) (i : Nat) : Bool :=
  (i = c.pair.opening && !c.leavesBlank) || i = c.pair.closing ||
    (c.pair.opening < i && i ≤ c.pair.opening + c.lead) ||
    (c.pair.closing ≤ i + c.trail && i < c.pair.closing)

def Cut.blanks (c : Cut) (i : Nat) : Bool :=
  i = c.pair.opening && c.leavesBlank

def applyCuts (cuts : List Cut) : Nat → List Glyph → List Char
  | _, [] => []
  | i, g :: rest =>
    if cuts.any (·.blanks i) then ' ' :: applyCuts cuts (i + 1) rest
    else if cuts.any (·.drops i) then applyCuts cuts (i + 1) rest
    else g.char :: applyCuts cuts (i + 1) rest

/-- Leaves out the redundant pairs; a source with unbalanced parentheses is refused. -/
def strip? (cs : List Char) : Option (List Char) :=
  let gs := glyphs cs
  (pairs gs).map fun ps =>
    applyCuts ((ps.filter (·.isRedundant gs)).map (·.cut gs)) 0 gs

/-- Strips until nothing changes, at most so many times. -/
def stripTimes? : Nat → List Char → Option (List Char)
  | 0, cs => some cs
  | n + 1, cs =>
    match strip? cs with
    | none => none
    | some next => if next = cs then some cs else stripTimes? n next

/-- How many times redundant pairs are looked for. -/
def maxPasses : Nat := 8

/-- The source without redundant parentheses. -/
def normalize? (source : String) : Option String :=
  (stripTimes? maxPasses source.toList).map String.ofList

end BulkEdit.Source
