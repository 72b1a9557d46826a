/-!
# Code, strings and comments

The source of a script falls into regions: line comments up to the end of the line, block comments,
strings between quotes of three kinds, and code, which is the rest.
-/

namespace BulkEdit.Source

def isQuote (c : Char) : Bool :=
  c = '"' || c = '\'' || c = '\x60'

/-- How many characters a block comment has after its opening mark. -/
def blockCommentSize : List Char → Nat
  | '*' :: '/' :: _ => 2
  | _ :: rest => blockCommentSize rest + 1
  | [] => 0

/-- How many characters a string has after its opening quote. A backslash takes the next character
with it. -/
def stringSize (quote : Char) : List Char → Nat
  | [] => 0
  | ['\\'] => 1
  | '\\' :: _ :: rest => stringSize quote rest + 2
  | c :: rest => if c = quote then 1 else stringSize quote rest + 1

/-- How many characters the region at the beginning has, and whether it is code. -/
def region : List Char → Nat × Bool
  | [] => (0, true)
  | '/' :: '/' :: rest => (2 + (rest.takeWhile (· ≠ '\n')).length, false)
  | '/' :: '*' :: rest => (2 + blockCommentSize rest, false)
  | c :: rest => if isQuote c then (1 + stringSize c rest, false) else (1, true)

/-- Marks the characters region by region, at most `fuel` regions. -/
def maskFrom : Nat → List Char → List Bool
  | 0, _ => []
  | _ + 1, [] => []
  | fuel + 1, c :: rest =>
    let (size, isCode) := region (c :: rest)
    List.replicate size isCode ++ maskFrom fuel ((c :: rest).drop size)

/-- For each character whether it is code. -/
def codeMask (cs : List Char) : List Bool :=
  maskFrom cs.length cs

/-! ### The same as an automaton -/

/-- Where a reader stands that goes through a source character by character. `opened` is a character
after the mark that opens a comment, and `closing` is on the star that closes one. -/
inductive Mode where
  | code
  | lineComment
  | blockOpened
  | blockComment
  | blockClosing
  | string (quote : Char)
  | escaped (quote : Char)
deriving DecidableEq, Repr

/-- The mode for a character and after it: what the character is part of, seen with the next one. -/
def Mode.step (mode : Mode) (c : Char) (next : Option Char) : Bool × Mode :=
  match mode with
  | code =>
    if c = '/' ∧ next = some '/' then (false, lineComment)
    else if c = '/' ∧ next = some '*' then (false, blockOpened)
    else if isQuote c then (false, string c)
    else (true, code)
  | lineComment => if c = '\n' then (true, code) else (false, lineComment)
  | blockOpened => (false, blockComment)
  | blockComment =>
    if c = '*' ∧ next = some '/' then (false, blockClosing) else (false, blockComment)
  | blockClosing => (false, code)
  | string quote =>
    if c = '\\' then (false, escaped quote)
    else if c = quote then (false, code)
    else (false, string quote)
  | escaped quote => (false, string quote)

/-- For each character whether the automaton is in code at it. -/
def automaton : Mode → List Char → List Bool
  | _, [] => []
  | mode, c :: rest =>
    let (isCode, mode) := mode.step c rest.head?
    isCode :: automaton mode rest

end BulkEdit.Source
