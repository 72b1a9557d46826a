import BulkEdit.Program.Shell.Arithmetic
import BulkEdit.Program.Shell.Pattern
import BulkEdit.Program.Shell.State

/-!
# What words stand for

Parameters, outputs of commands and values of expressions are put in, and what comes from them
outside of quotes is divided into words.
-/

namespace BulkEdit.Program.Shell

/-- A byte of an expanded word, or a place where it may be divided. -/
inductive Glyph where
  /-- A byte; it divides words if it `splits` and is a separator. -/
  | byte (c : Char) (quoted splits : Bool)
  /-- Keeps a word even if it is empty. -/
  | mark
  /-- The end of a word. -/
  | stop
  /-- The end of a word, unless there is none. -/
  | softStop
deriving DecidableEq, Repr

/-- What a shell does one level deeper. -/
structure Deeper where
  /-- Runs a command; `tested` tells whether its failure is looked at. -/
  run : (tested : Bool) → Command → Run Unit
  /-- Expands a word. `full` tells whether it may become several words, and `inWord` whether it is
  the word of a parameter outside of quotes. -/
  expand : (full inWord : Bool) → Word → Run (List Glyph)
  /-- Runs a script. -/
  script : Octets → Run Unit
  /-- Runs another shell with some variables. -/
  shell : List (String × Octets) → Task → Outcome

/-! ### Dividing -/

/-- Divides an expanded word. `word` is the word at hand, if one has been begun, and `afterBlank`
tells whether blanks have just ended one. -/
def divide (separators : Octets) : Option Octets → Bool → List Glyph → List Octets
  | none, _, [] => []
  | some word, _, [] => [word.reverse]
  | word, _, .mark :: rest => divide separators (some (word.getD [])) false rest
  | word, _, .stop :: rest => (word.getD []).reverse :: divide separators none false rest
  | word, afterBlank, .softStop :: rest =>
    match word with
    | some w => w.reverse :: divide separators none true rest
    | none => divide separators none afterBlank rest
  | word, afterBlank, .byte c _ splits :: rest =>
    if splits && separators.contains c then
      let isBlank := c = ' ' || c = '\t' || c = '\n'
      match word with
      | some w => w.reverse :: divide separators none isBlank rest
      | none =>
        if isBlank then divide separators none afterBlank rest
        else if afterBlank then divide separators none false rest
        else [] :: divide separators none false rest
    else divide separators (some (c :: word.getD [])) false rest

/-- The bytes of an expanded word that is not divided. -/
def glyphText (glyphs : List Glyph) : Octets :=
  glyphs.filterMap fun g => match g with
    | .byte c _ _ => some c
    | _ => none

def glyphPattern (glyphs : List Glyph) : List PatternByte :=
  glyphs.filterMap fun g => match g with
    | .byte c quoted _ => some ⟨c, quoted⟩
    | _ => none

/-- A text that comes from somewhere else. -/
def glyphsOf (quoted : Bool) (text : Octets) : List Glyph :=
  text.map fun c => .byte c quoted !quoted

/-! ### Parameters -/

def joinedParameters (s : State) : Octets :=
  let between := match s.valueOf? "IFS" with
    | none => [' ']
    | some ifs => ifs.take 1
  between.intercalate s.parameters

def isAllParameters (name : String) : Bool :=
  name = "@" || name = "*"

def parameterText? (s : State) (name : String) : Option Octets :=
  if isAllParameters name then (if s.parameters.isEmpty then none else some (joinedParameters s))
  else s.parameter? name

def parameterGlyphs (s : State) (full quoted : Bool) (name : String) : List Glyph :=
  if full && quoted && name = "@" then
    [Glyph.stop].intercalate (s.parameters.map fun p => .mark :: glyphsOf true p)
  else if full && !quoted && isAllParameters name then
    [Glyph.softStop].intercalate (s.parameters.map (glyphsOf false))
  else glyphsOf quoted ((parameterText? s name).getD [])

/-- The complaint about a parameter without a value. -/
def missing {α : Type} (name : String) (orNull : Bool) (text : Octets) : Run α :=
  let text := if text.isEmpty then
      octets (if orNull then "parameter not set or null" else "parameter not set")
    else text
  Run.fault (octets name ++ ": ".toList ++ text)

/-- The output of a command without the line ends behind it. -/
def outputOf (d : Deeper) (command : Command) : Run Octets := do
  let (number, world) := (← get).world.addSink
  modify fun s => { s with world }
  Run.inSubshell do
    modify fun s => { s with
      descriptors := (1, .sink number) :: s.descriptors.filter (·.1 ≠ 1) }
    d.run false command
  let text := (← get).world.sinks[number]?.getD []
  modify fun s => { s with substituted := s.status }
  pure (((text.filter (· ≠ '\x00')).reverse.dropWhile (· = '\n')).reverse)

def arithmeticOf (text : Octets) : Run Octets := do
  let s ← get
  let complaint (what : String) : Octets :=
    octets ("arithmetic expression: " ++ what ++ ": \"") ++ text ++ ['"']
  match Arithmetic.valueOf s.valueOf? text with
  | .ok (n, assigned) =>
    for (name, value) in assigned.reverse do
      Run.assign name (Arithmetic.numberText value)
    pure (Arithmetic.numberText n)
  | .error (.expecting what) => Run.fault (complaint ("expecting " ++ what))
  | .error .division => Run.fault (complaint "division by zero")
  | .error (.illegalNumber text) => Run.fault (octets "Illegal number: " ++ text)

def expandParameter (d : Deeper) (full : Bool) (name : String) (operation : Operation) (word : Word)
    (quoted : Bool) : Run (List Glyph) := do
  let s ← get
  let text? := parameterText? s name
  let isMissing (orNull : Bool) : Bool := text?.isNone || (orNull && text? == some [])
  let value := parameterGlyphs s full quoted name
  let demanded : Run Unit :=
    if text?.isNone && s.switches.nounset && !isAllParameters name then missing name false []
    else pure ()
  match operation with
  | .unknown => Run.fault (octets "Bad substitution")
  | .value =>
    demanded
    pure value
  | .length =>
    demanded
    pure (glyphsOf quoted (State.number (text?.getD []).length))
  | .default orNull => if isMissing orNull then d.expand full (full && !quoted) word else pure value
  | .alternative orNull =>
    if isMissing orNull then pure [] else d.expand full (full && !quoted) word
  | .assign orNull =>
    if isMissing orNull then
      let text := glyphText (← d.expand false false word)
      if isName name.toList then
        Run.assign name text
        pure (glyphsOf quoted text)
      else Run.fault (octets name ++ octets ": bad variable name")
    else pure value
  | .demand orNull =>
    if isMissing orNull then missing name orNull (glyphText (← d.expand false false word))
    else pure value
  | .trim atFront longest =>
    demanded
    let pattern := glyphPattern (← d.expand false false word)
    pure (glyphsOf quoted (trimmed pattern atFront longest (text?.getD [])))

def expandPiece (d : Deeper) (full inWord : Bool) : Piece → Run (List Glyph)
  | .char c quoted => pure [.byte c quoted (inWord && !quoted)]
  | .mark => pure [.mark]
  | .parameter name operation word quoted => expandParameter d full name operation word quoted
  | .output command quoted => do pure (glyphsOf quoted (← outputOf d command))
  | .arithmetic expression quoted => do
    let text := glyphText (← d.expand false false expression)
    pure (glyphsOf quoted (← arithmeticOf text))

/-- A word in order of its pieces. -/
def expandPieces (d : Deeper) (full inWord : Bool) : Word → Run (List Glyph)
  | [] => pure []
  | p :: rest => do
    let first ← expandPiece d full inWord p
    pure (first ++ (← expandPieces d full inWord rest))

/-- The word with the home folder in the place of a tilde. -/
def withHome (s : State) : Word → Word
  | .char '~' false :: rest =>
    let isAlone := match rest with
      | [] => true
      | .char '/' _ :: _ => true
      | _ => false
    match isAlone, s.valueOf? "HOME" with
    | true, some home => (home.map fun c => .char c true) ++ rest
    | _, _ => .char '~' false :: rest
  | w => w

def expandWords (d : Deeper) : List Word → Run (List Octets)
  | [] => pure []
  | w :: rest => do
    let glyphs ← d.expand true false (withHome (← get) w)
    let words := divide (← get).separators none false glyphs
    pure (words ++ (← expandWords d rest))

/-- The one text that a word stands for. -/
def expandText (d : Deeper) (w : Word) : Run Octets := do
  pure (glyphText (← d.expand false false (withHome (← get) w)))

end BulkEdit.Program.Shell
