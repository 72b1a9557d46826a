import BulkEdit.Yaml.Token

/-!
# The layout of YAML texts

A YAML text is a sequence of tokens. Indentation becomes explicit start and end tokens, and a node
that turns out to be followed by a colon is marked as a key after the fact.
-/

namespace BulkEdit.Yaml

/-- A node that may still turn out to be a key: the number of its first token and where it began. It is
required if nothing else can begin at its column. -/
structure KeyCandidate where
  token : Nat
  index : Nat
  line : Nat
  column : Nat
  required : Bool

/-- The state of tokenizing. Blocks are given by one more than their column; `0` stands for no
block. -/
structure Layout where
  cursor : Cursor
  /-- The tokens so far. -/
  tokens : Array Token := #[]
  /-- The current block and those around it. -/
  indent : Nat := 0
  indents : List Nat := []
  /-- How many flow collections are open. -/
  flowDepth : Nat := 0
  /-- Whether a key may begin here. -/
  keyAllowed : Bool := true
  /-- The key candidate of each open flow collection and of the block context, the innermost
  first. -/
  candidates : List (Option KeyCandidate) := [none]
  finished : Bool := false

namespace Layout

def push (l : Layout) (t : Token) : Layout :=
  { l with tokens := l.tokens.push t }

/-- Gives up candidates that began on an earlier line or more than 1024 bytes back. -/
def dropStale (l : Layout) : Option Layout := do
  let check (k : Option KeyCandidate) : Option (Option KeyCandidate) :=
    match k with
    | none => some none
    | some k =>
      if k.line < l.cursor.line || k.index + 1024 < l.cursor.index then
        if k.required then none else some none
      else some (some k)
  pure { l with candidates := ← l.candidates.mapM check }

def dropCandidate (l : Layout) : Option Layout :=
  match l.candidates with
  | some k :: rest => if k.required then none else some { l with candidates := none :: rest }
  | _ => some l

/-- Notes that a key may begin here. -/
def saveCandidate (l : Layout) : Option Layout :=
  if l.keyAllowed then do
    let required := l.flowDepth = 0 && l.indent = l.cursor.column + 1
    let l ← l.dropCandidate
    let c := l.cursor
    let k : KeyCandidate := ⟨l.tokens.size, c.index, c.line, c.column, required⟩
    pure { l with candidates := some k :: l.candidates.tail }
  else some l

/-- Opens a block at a column if it is deeper than the current one; its start token goes to the
given place. -/
def openBlock (l : Layout) (column place : Nat) (start : Token) : Layout :=
  if l.flowDepth = 0 ∧ l.indent < column + 1 then
    { l with
      tokens := (l.tokens.toList.insertIdx place start).toArray
      indent := column + 1
      indents := l.indent :: l.indents }
  else l

/-- Closes the blocks deeper than `depth`, which is one more than a column. -/
def closeBlocks (depth : Nat) : Nat → Layout → Layout
  | 0, l => l
  | fuel + 1, l =>
    if l.flowDepth = 0 ∧ depth < l.indent then
      let l := l.push .blockEnd
      closeBlocks depth fuel { l with indent := l.indents.headD 0, indents := l.indents.tail }
    else l

/-- Closes the blocks deeper than `depth`. -/
def unroll (l : Layout) (depth : Nat) : Layout :=
  closeBlocks depth (l.indents.length + 1) l

/-- Steps over white space and comments to the next token. A byte order mark at the beginning of a line
is passed over too, though it takes up a column. -/
def toNextToken : Nat → Layout → Layout
  | 0, l => l
  | fuel + 1, l =>
    let c := l.cursor
    let c := if c.column = 0 ∧ c.sees '\ufeff' then c.skip else c
    let c := c.skipWhile fun d => d = ' ' || ((0 < l.flowDepth || !l.keyAllowed) && d = '\t')
    let c := if c.sees '#' then c.skipToLineEnd else c
    if c.atBreak then
      let keyAllowed := l.keyAllowed || l.flowDepth = 0
      toNextToken fuel { l with cursor := c.takeBreak.2, keyAllowed }
    else { l with cursor := c }

/-- Takes in a token that closes all blocks and ends at the given place. -/
def pushTopLevel (l : Layout) (t : Token) (after : Cursor) : Option Layout := do
  let l ← (l.unroll 0).dropCandidate
  pure ({ l with keyAllowed := false, cursor := after }.push t)

def pushFlowStart (l : Layout) (t : Token) : Option Layout := do
  let l ← l.saveCandidate
  let l := { l with
    candidates := none :: l.candidates
    flowDepth := l.flowDepth + 1
    keyAllowed := true
    cursor := l.cursor.skip }
  pure (l.push t)

def pushFlowEnd (l : Layout) (t : Token) : Option Layout := do
  let l ← l.dropCandidate
  let l := if l.flowDepth = 0 then l
    else { l with flowDepth := l.flowDepth - 1, candidates := l.candidates.tail }
  pure ({ l with keyAllowed := false, cursor := l.cursor.skip }.push t)

/-- Takes in an indicator of a block or flow collection other than a colon. -/
def pushIndicator (l : Layout) (t start : Token) (keyAllowed : Bool) : Option Layout := do
  guard (0 < l.flowDepth || l.keyAllowed)
  let l ← (l.openBlock l.cursor.column l.tokens.size start).dropCandidate
  pure ({ l with keyAllowed, cursor := l.cursor.skip }.push t)

/-- Takes in a colon: the candidate before it becomes a key. -/
def pushValue (l : Layout) : Option Layout :=
  match l.candidates with
  | some k :: rest =>
    let l := { l with tokens := (l.tokens.toList.insertIdx k.token .key).toArray }
    let l := l.openBlock k.column k.token .blockMappingStart
    let l := { l with candidates := none :: rest, keyAllowed := false, cursor := l.cursor.skip }
    some (l.push .value)
  | _ =>
    if l.flowDepth = 0 then
      if l.keyAllowed then
        let l := l.openBlock l.cursor.column l.tokens.size .blockMappingStart
        some ({ l with keyAllowed := true, cursor := l.cursor.skip }.push .value)
      else none
    else some ({ l with keyAllowed := false, cursor := l.cursor.skip }.push .value)

/-- Takes in a token with text that may begin a key. -/
def pushNode (l : Layout) (read? : Cursor → Option (Token × Cursor)) : Option Layout := do
  let l ← l.saveCandidate
  let (t, after) ← read? l.cursor
  pure ({ l with keyAllowed := false, cursor := after }.push t)

def startsPlain (l : Layout) : Bool :=
  let c := l.cursor
  let indicators := "-?:,[]#&*!|>'\"%@".toList ++ ['\x7b', '\x7d', '\x60']
  (!c.gapAt 0 && !((c.peek?.map indicators.contains).getD false)) ||
    (c.sees '-' && !((c.peekAt? 1).map isSpaceOrTab).getD false) ||
    (l.flowDepth = 0 && (c.sees '?' || c.sees ':') && !c.gapAt 1)

/-- Takes in the next token, or several that it implies. -/
def step (l : Layout) : Option Layout := do
  let l := toNextToken (l.cursor.rest.length + 1) l
  let l ← l.dropStale
  let l := l.unroll (l.cursor.column + 1)
  let c := l.cursor
  let inFlow := decide (0 < l.flowDepth)
  if c.atEnd then
    let l ← (l.unroll 0).dropCandidate
    pure { l.push .streamEnd with finished := true }
  else if c.column = 0 && c.sees '%' then
    let (t, after) ← directive? c
    l.pushTopLevel t after
  else if c.atMarker '-' then l.pushTopLevel .documentStart (c.skipMany 3)
  else if c.atMarker '.' then l.pushTopLevel .documentEnd (c.skipMany 3)
  else if c.sees '[' then l.pushFlowStart .flowSequenceStart
  else if c.sees '\x7b' then l.pushFlowStart .flowMappingStart
  else if c.sees ']' then l.pushFlowEnd .flowSequenceEnd
  else if c.sees '\x7d' then l.pushFlowEnd .flowMappingEnd
  else if c.sees ',' then
    let l ← l.dropCandidate
    pure ({ l with keyAllowed := true, cursor := c.skip }.push .flowEntry)
  else if c.sees '-' && c.gapAt 1 then l.pushIndicator .blockEntry .blockSequenceStart true
  else if c.sees '?' && (inFlow || c.gapAt 1) then
    l.pushIndicator .key .blockMappingStart !inFlow
  else if c.sees ':' && (inFlow || c.gapAt 1) then l.pushValue
  else if c.sees '*' then
    l.pushNode fun c => (anchorName? c).map fun (name, after) => (.reference name, after)
  else if c.sees '&' then
    l.pushNode fun c => (anchorName? c).map fun (name, after) => (.anchor name, after)
  else if c.sees '!' then l.pushNode (tag? inFlow)
  else if (c.sees '|' || c.sees '>') && !inFlow then
    let l ← l.dropCandidate
    let (t, after) ← blockScalar? (c.sees '|') l.indent c
    pure ({ l with keyAllowed := true, cursor := after }.push t)
  else if c.sees '\'' then l.pushNode (quotedScalar? true)
  else if c.sees '"' then l.pushNode (quotedScalar? false)
  else if l.startsPlain then
    let l ← l.saveCandidate
    let (t, broken, after) ← plainScalar? inFlow l.indent c
    pure ({ l with keyAllowed := broken, cursor := after }.push t)
  else none

/-- Takes in tokens to the end of the text or to the first fault. -/
def run : Nat → Layout → Layout × Bool
  | 0, l => (l, false)
  | fuel + 1, l =>
    if l.finished then (l, true)
    else
      match l.step with
      | some l => run fuel l
      | none => (l, false)

end Layout

/-- The tokens of a text up to its end or to its first fault; in the second case there is no
`streamEnd`. A text with a character that may not occur has no tokens. The byte order mark before the
text is not part of it. -/
def tokens (text : String) : List Token :=
  let cs := match text.toList with
    | '\ufeff' :: rest => rest
    | cs => cs
  if cs.all isAllowed then
    (Layout.run (2 * cs.length + 4) { cursor := { rest := cs } }).1.tokens.toList
  else []

end BulkEdit.Yaml
