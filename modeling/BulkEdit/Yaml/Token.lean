import BulkEdit.Yaml.Cursor

/-!
# Tokens of YAML texts

The tokens of a YAML text, and the reading of those that carry text: directives, anchors, tags and
scalars of all five styles.
-/

namespace BulkEdit.Yaml

/-- Whether a scalar was written without quotes. -/
inductive Style where
  | plain
  | quoted
  | block
deriving DecidableEq, Repr

inductive Token where
  | streamEnd
  | version (major minor : Nat)
  | tagShorthand (handle : String) (expansion : List UInt8)
  | documentStart
  | documentEnd
  | blockSequenceStart
  | blockMappingStart
  | blockEnd
  | flowSequenceStart
  | flowSequenceEnd
  | flowMappingStart
  | flowMappingEnd
  | blockEntry
  | flowEntry
  | key
  | value
  | reference (name : String)
  | anchor (name : String)
  | tag (handle : String) (suffix : List UInt8)
  | scalar (text : String) (style : Style)
deriving DecidableEq, Repr

/-! ### Directives, anchors and tags -/

/-- A number of at most nine digits. -/
def versionNumber? (c : Cursor) : Option (Nat × Cursor) :=
  let (digits, after) := c.takeWhile Char.isDigit
  if digits = [] ∨ 9 < digits.length then none
  else some (digits.foldl (fun n d => 10 * n + (d.toNat - 48)) 0, after)

/-- Characters of a tag; `inUri` admits three more. -/
def isTagChar (inUri : Bool) (c : Char) : Bool :=
  isWordChar c || ";/?:@&=+$.!~*'()".toList.contains c || (inUri && [',', '[', ']'].contains c)

def hexDigit? (c : Char) : Option Nat :=
  let n := c.toNat
  if 48 ≤ n ∧ n ≤ 57 then some (n - 48)
  else if 97 ≤ n ∧ n ≤ 102 then some (n - 87)
  else if 65 ≤ n ∧ n ≤ 70 then some (n - 55)
  else none

def percentByte? (c : Cursor) : Option (UInt8 × Cursor) := do
  guard (c.sees '%')
  let high ← (c.peekAt? 1).bind hexDigit?
  let low ← (c.peekAt? 2).bind hexDigit?
  pure (UInt8.ofNat (16 * high + low), c.skipMany 3)

/-- Percent signs with the bytes that complete a character. -/
def percentTail? : Nat → Cursor → Option (List UInt8 × Cursor)
  | 0, c => some ([], c)
  | n + 1, c => do
    let (b, c) ← percentByte? c
    guard (b &&& 0xC0 = 0x80)
    let (bs, c) ← percentTail? n c
    pure (b :: bs, c)

/-- How many bytes complete a character that begins with a given one. Only the leading bits are
looked at. -/
def owedBytes? (b : UInt8) : Option Nat :=
  if b &&& 0x80 = 0 then some 0
  else if b &&& 0xE0 = 0xC0 then some 1
  else if b &&& 0xF0 = 0xE0 then some 2
  else if b &&& 0xF8 = 0xF0 then some 3
  else none

/-- The bytes of one percent-encoded character. -/
def percentChar? (c : Cursor) : Option (List UInt8 × Cursor) := do
  let (first, c) ← percentByte? c
  let owed ← owedBytes? first
  let (more, c) ← percentTail? owed c
  pure (first :: more, c)

/-- The bytes of a tag as they are written, percent signs decoded; `fuel` bounds their number. -/
def tagBytes? (inUri : Bool) : Nat → List UInt8 → Cursor → Option (List UInt8 × Cursor)
  | 0, _, _ => none
  | fuel + 1, held, c =>
    match c.peek? with
    | some d =>
      if d = '%' then do
        let (decoded, c) ← percentChar? c
        tagBytes? inUri fuel (held ++ decoded) c
      else if isTagChar inUri d then tagBytes? inUri fuel (held ++ [d.toUInt8]) c.skip
      else some (held, c)
    | none => some (held, c)

/-- What a tag keeps of its bytes: those before the first zero. -/
def beforeZero (bytes : List UInt8) : List UInt8 :=
  bytes.takeWhile (· ≠ 0)

/-- The handle of a tag: `!`, `!word!` or the beginning of a local tag. -/
def tagHandle? (inDirective : Bool) (c : Cursor) : Option (List Char × Cursor) := do
  guard (c.sees '!')
  let (word, after) := c.skip.takeWhile isWordChar
  if after.sees '!' then pure ('!' :: word ++ ['!'], after.skip)
  else if inDirective && !word.isEmpty then none
  else pure ('!' :: word, after)

/-- A tag token. A tag of which nothing is left behind the mark is the bare tag `!`. -/
def tag? (inFlow : Bool) (c : Cursor) : Option (Token × Cursor) := do
  let fuel := c.rest.length + 1
  let (handle, suffix, after) ←
    if c.atOffset 1 '<' then do
      let (suffix, after) ← tagBytes? true fuel [] (c.skipMany 2)
      guard (!suffix.isEmpty && after.sees '>')
      pure ([], suffix, after.skip)
    else do
      let (handle, after) ← tagHandle? false c
      if 1 < handle.length && handle.getLast? == some '!' then
        let (suffix, after) ← tagBytes? false fuel [] after
        guard (!suffix.isEmpty)
        pure (handle, suffix, after)
      else
        let (suffix, after) ← tagBytes? false fuel (handle.tail.map Char.toUInt8) after
        pure (if (beforeZero suffix).isEmpty then ([], [0x21], after) else (['!'], suffix, after))
  guard (after.gapAt 0 || (inFlow && after.sees ','))
  pure (.tag (String.ofList handle) (beforeZero suffix), after)

/-- The name after `&` or `*`. -/
def anchorName? (c : Cursor) : Option (String × Cursor) :=
  let (name, after) := c.skip.takeWhile isWordChar
  let ended := match after.peek? with
    | none => true
    | some d => isSpaceOrTab d || isBreak d || "?:,]%@".toList.contains d || d = '\x7d' || d = '\x60'
  if name.isEmpty || !ended then none else some (String.ofList name, after)

def directive? (c : Cursor) : Option (Token × Cursor) := do
  let (name, after) := c.skip.takeWhile isWordChar
  guard (!name.isEmpty && after.gapAt 0)
  let (token, after) ←
    match String.ofList name with
    | "YAML" => do
      let (major, after) ← versionNumber? (after.skipWhile isSpaceOrTab)
      guard (after.sees '.')
      let (minor, after) ← versionNumber? after.skip
      pure (Token.version major minor, after)
    | "TAG" => do
      let (handle, after) ← tagHandle? true (after.skipWhile isSpaceOrTab)
      guard after.atSpace
      let start := after.skipWhile isSpaceOrTab
      let (expansion, after) ← tagBytes? true (start.rest.length + 1) [] start
      guard (!expansion.isEmpty && after.gapAt 0)
      pure (Token.tagShorthand (String.ofList handle) (beforeZero expansion), after)
    | _ => none
  let after := after.skipWhile isSpaceOrTab
  let after := if after.sees '#' then after.skipToLineEnd else after
  guard after.atLineEnd
  pure (token, after.takeBreak.2)

/-! ### Flow scalars -/

/-- The white space between two words of a scalar: blanks of one line, or line ends. -/
structure Gap where
  spaces : List Char := []
  first : List Char := []
  others : List Char := []
  broken : Bool := false

namespace Gap

/-- How the gap is kept: a single line end becomes a blank, further ones stay. -/
def text (g : Gap) : List Char :=
  if g.broken then
    if g.first = ['\n'] then (if g.others.isEmpty then [' '] else g.others)
    else g.first ++ g.others
  else g.spaces

/-- Reads a gap. In plain scalars a tab may not stand left of column `indent` on a new line. -/
def read? (indent : Nat) : Nat → Gap → Cursor → Option (Gap × Cursor)
  | 0, _, _ => none
  | fuel + 1, g, c =>
    if c.atSpace then
      if g.broken && c.column < indent && c.sees '\t' then none
      else
        let kept := if g.broken then [] else c.rest.take 1
        read? indent fuel { g with spaces := g.spaces ++ kept } c.skip
    else if c.atBreak then
      let (b, after) := c.takeBreak
      if g.broken then read? indent fuel { g with others := g.others ++ b } after
      else read? indent fuel { g with spaces := [], first := b, broken := true } after
    else some (g, c)

end Gap

def plainEnds (inFlow : Bool) (c : Cursor) : Bool :=
  (c.sees ':' && c.gapAt 1) ||
    (inFlow && ((c.peek?.map fun d =>
      [',', '[', ']', '\x7b', '\x7d'].contains d).getD false))

/-- A word of a plain scalar; `fuel` bounds its length. In flow context a colon right before an
indicator is an error. -/
def plainWord? (inFlow : Bool) : Nat → List Char → Cursor → Option (List Char × Cursor)
  | 0, _, _ => none
  | fuel + 1, held, c =>
    if c.gapAt 0 then some (held.reverse, c)
    else if inFlow && c.sees ':' && ((c.peekAt? 1).map fun d =>
        [',', '?', '[', ']', '\x7b', '\x7d'].contains d).getD false then none
    else if plainEnds inFlow c then some (held.reverse, c)
    else plainWord? inFlow fuel (c.rest.take 1 ++ held) c.skip

/-- A plain scalar from a given gap on; also tells whether it ended after a line end. -/
def plainFrom? (inFlow : Bool) (indent : Nat) :
    Nat → List Char → Gap → Cursor → Option (List Char × Bool × Cursor)
  | 0, _, _, _ => none
  | fuel + 1, held, gap, c => do
    if c.atMarker '-' || c.atMarker '.' || c.sees '#' then
      some (held, gap.broken, c)
    else
      let (word, after) ← plainWord? inFlow (c.rest.length + 1) [] c
      let held := if word.isEmpty then held else held ++ gap.text ++ word
      let gap := if word.isEmpty then gap else {}
      if !(after.atSpace || after.atBreak) then
        some (held, gap.broken, after)
      else
        let (gap, after) ← Gap.read? indent (after.rest.length + 1) {} after
        if !inFlow && after.column < indent then some (held, gap.broken, after)
        else plainFrom? inFlow indent fuel held gap after

/-- A plain scalar; also tells whether it ended after a line end. -/
def plainScalar? (inFlow : Bool) (indent : Nat) (c : Cursor) : Option (Token × Bool × Cursor) :=
  (plainFrom? inFlow indent (c.rest.length + 1) [] {} c).map fun (text, broken, after) =>
    (.scalar (String.ofList text) .plain, broken, after)

/-- The escapes that stand for one character. -/
def simpleEscape? : Char → Option Char
  | '0' => some '\x00'
  | 'a' => some '\x07'
  | 'b' => some '\x08'
  | 't' => some '\t'
  | '\t' => some '\t'
  | 'n' => some '\n'
  | 'v' => some '\x0b'
  | 'f' => some '\x0c'
  | 'r' => some '\r'
  | 'e' => some '\x1b'
  | ' ' => some ' '
  | '"' => some '"'
  | '/' => some '/'
  | '\\' => some '\\'
  | 'N' => some '\x85'
  | '_' => some '\xa0'
  | 'L' => some '\u2028'
  | 'P' => some '\u2029'
  | _ => none

def escapeDigits? : Char → Option Nat
  | 'x' => some 2
  | 'u' => some 4
  | 'U' => some 8
  | _ => none

def hexNumber? (count : Nat) (cs : List Char) : Option Nat :=
  if cs.length < count then none
  else (cs.take count).foldlM (fun n d => (hexDigit? d).map (16 * n + ·)) 0

def quotedEscape? (c : Cursor) : Option (Char × Cursor) := do
  let letter ← c.peekAt? 1
  match simpleEscape? letter with
  | some d => pure (d, c.skipMany 2)
  | none =>
    let count ← escapeDigits? letter
    let n ← hexNumber? count (c.rest.drop 2)
    guard (!(0xD800 ≤ n && n ≤ 0xDFFF) && n ≤ 0x10FFFF)
    pure (Char.ofNat n, c.skipMany (2 + count))

/-- A word of a quoted scalar; also tells whether it ended with an escaped line end. -/
def quotedWord? (single : Bool) : Nat → List Char → Cursor → Option (List Char × Bool × Cursor)
  | 0, _, _ => none
  | fuel + 1, held, c =>
    if c.gapAt 0 then some (held.reverse, false, c)
    else if single && c.sees '\'' && c.atOffset 1 '\'' then
      quotedWord? single fuel ('\'' :: held) (c.skipMany 2)
    else if c.sees (if single then '\'' else '"') then some (held.reverse, false, c)
    else if !single && c.sees '\\' then
      if ((c.peekAt? 1).map isBreak).getD false then
        some (held.reverse, true, c.skip.takeBreak.2)
      else do
        let (d, after) ← quotedEscape? c
        quotedWord? single fuel (d :: held) after
    else quotedWord? single fuel (c.rest.take 1 ++ held) c.skip

def quotedFrom? (single : Bool) : Nat → List Char → Cursor → Option (List Char × Cursor)
  | 0, _, _ => none
  | fuel + 1, held, c => do
    guard (!(c.atMarker '-' || c.atMarker '.' || c.atEnd))
    let (word, broken, after) ← quotedWord? single (c.rest.length + 1) [] c
    let held := held ++ word
    if after.sees (if single then '\'' else '"') then
      some (held, after.skip)
    else
      let (gap, after) ← Gap.read? 0 (after.rest.length + 1) { broken := broken } after
      quotedFrom? single fuel (held ++ gap.text) after

def quotedScalar? (single : Bool) (c : Cursor) : Option (Token × Cursor) :=
  (quotedFrom? single (c.rest.length + 1) [] c.skip).map fun (text, after) =>
    (.scalar (String.ofList text) .quoted, after)

/-! ### Block scalars -/

/-- What becomes of the line ends at the end of a block scalar. -/
inductive Chomping where
  | strip
  | clip
  | keep
deriving DecidableEq, Repr

def chomping? : Option Char → Option Chomping
  | some '+' => some .keep
  | some '-' => some .strip
  | _ => none

/-- The chomping and the explicit indentation after the indicator, in either order. -/
def blockHeader? (c : Cursor) : Option (Chomping × Option Nat × Cursor) :=
  let digit? (c : Cursor) : Option (Option Nat × Cursor) :=
    match c.peek? with
    | some d =>
      if d = '0' then none
      else if d.isDigit then some (some (d.toNat - 48), c.skip)
      else some (none, c)
    | none => some (none, c)
  match chomping? c.peek? with
  | some chomping => (digit? c.skip).map fun (n, c) => (chomping, n, c)
  | none => do
    let (n, c) ← digit? c
    match n, chomping? c.peek? with
    | some n, some chomping => pure (chomping, some n, c.skip)
    | n, _ => pure (.clip, n, c)

/-- The blank lines at the beginning of a line of a block scalar. An indentation of zero is not yet
known; then the deepest blank line is noted. -/
def blockBreaks? (indent : Nat) : Nat → Nat → List Char → Cursor →
    Option (List Char × Nat × Cursor)
  | 0, _, _, _ => none
  | fuel + 1, deepest, held, c =>
    if (indent = 0 ∨ c.column < indent) && c.sees ' ' then
      blockBreaks? indent fuel deepest held c.skip
    else
      let deepest := max deepest c.column
      if (indent = 0 ∨ c.column < indent) && c.sees '\t' then none
      else if c.atBreak then
        let (b, after) := c.takeBreak
        blockBreaks? indent fuel deepest (held ++ b) after
      else some (held, deepest, c)

/-- The lines of a block scalar: the text so far, the line end before the current line, whether the
line before was more indented, and the blank lines between. -/
def blockLines? (literal : Bool) (indent : Nat) :
    Nat → List Char → List Char → Bool → List Char → Cursor →
    Option (List Char × List Char × List Char × Cursor)
  | 0, _, _, _, _, _ => none
  | fuel + 1, held, lead, leadBlank, trail, c =>
    if c.column = indent && !c.atEnd then do
      let startsBlank := c.atSpace
      let folded := !literal && lead = ['\n'] && !leadBlank && !startsBlank
      let joint := if folded then (if trail.isEmpty then [' '] else []) else lead
      let (line, after) := c.takeWhile fun d => !isBreak d
      let (lead, after) := after.takeBreak
      let (next, _, after) ← blockBreaks? indent (after.rest.length + 1) 0 [] after
      blockLines? literal indent fuel (held ++ joint ++ trail ++ line) lead startsBlank next after
    else some (held, lead, trail, c)

/-- A block scalar inside a block of the given indentation, which is `0` for none and else one more
than the column of the block. -/
def blockScalar? (literal : Bool) (blockIndent : Nat) (c : Cursor) :
    Option (Token × Cursor) := do
  let (chomping, increment, after) ← blockHeader? c.skip
  let after := after.skipWhile isSpaceOrTab
  let after := if after.sees '#' then after.skipToLineEnd else after
  guard after.atLineEnd
  let after := after.takeBreak.2
  let fuel := after.rest.length + 1
  let explicit := match increment with
    | some n => (if blockIndent = 0 then n else blockIndent - 1 + n)
    | none => 0
  let (trail, deepest, after) ← blockBreaks? explicit fuel 0 [] after
  let indent := if explicit = 0 then max (max deepest blockIndent) 1 else explicit
  let (text, lead, trail, after) ← blockLines? literal indent fuel [] [] false trail after
  let text := text ++ (if chomping = .strip then [] else lead)
    ++ (if chomping = .keep then trail else [])
  pure (.scalar (String.ofList text) .block, after)

end BulkEdit.Yaml
