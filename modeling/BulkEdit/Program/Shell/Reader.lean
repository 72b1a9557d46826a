import BulkEdit.Program.Shell.Syntax

/-!
# Reading shell scripts

A script is read command by command, so that one runs before the next is looked at; a fault in a
later line does not touch the lines before it.
-/

namespace BulkEdit.Program.Shell

/-- Words with a meaning of their own where a command may begin. -/
inductive Keyword where
  | not
  | case
  | do
  | done
  | elif
  | else
  | esac
  | fi
  | for
  | if
  | in
  | then
  | until
  | while
  | begin
  | finish
deriving DecidableEq, Repr

def keywords : List (String × Keyword) :=
  [("!", .not), ("case", .case), ("do", .do), ("done", .done), ("elif", .elif), ("else", .else),
    ("esac", .esac), ("fi", .fi), ("for", .for), ("if", .if), ("in", .in), ("then", .then),
    ("until", .until), ("while", .while), ("\x7b", .begin), ("\x7d", .finish)]

inductive Token where
  | stop
  | newline
  | semicolon
  | ampersand
  | andThen
  | orElse
  | pipe
  | opening
  | closing
  | caseEnd
  | redirection (descriptor : Nat) (direction : Direction) (stripsTabs : Bool)
  | word (pieces : Word) (quoted : Bool)
  | keyword (k : Keyword)

namespace Token

/-- How a token is named in complaints. -/
def name : Token → String
  | stop => "end of file"
  | newline => "newline"
  | semicolon => "\";\""
  | ampersand => "\"&\""
  | andThen => "\"&&\""
  | orElse => "\"||\""
  | pipe => "\"|\""
  | opening => "\"(\""
  | closing => "\")\""
  | caseEnd => "\";;\""
  | redirection _ _ _ => "redirection"
  | word _ _ => "word"
  | keyword k => "\"" ++ ((keywords.find? (·.2 = k)).map Prod.fst).getD "" ++ "\""

/-- Whether a list of commands ends before the token. -/
def endsList : Token → Bool
  | stop => true
  | closing => true
  | caseEnd => true
  | keyword k => [Keyword.do, .done, .elif, .else, .esac, .fi, .then, .finish].contains k
  | _ => false

def isKeyword (t : Token) (k : Keyword) : Bool :=
  match t with
  | keyword l => l = k
  | _ => false

/-- Whether the token is of the same kind as a token without contents. -/
def is (t u : Token) : Bool :=
  t.name = u.name

end Token

/-- What is wrong with a script, and where. -/
structure Fault where
  line : Nat
  text : String
deriving DecidableEq, Repr

/-- A text in a script that has been announced but not read. -/
structure Announced where
  number : Nat
  delimiter : Octets
  quoted : Bool
  stripsTabs : Bool
deriving DecidableEq, Repr

/-- A place in a script. -/
structure Reader where
  rest : Octets
  line : Nat := 1
  /-- A token that was read too early. -/
  pushed : Option Token := none
  announced : List Announced := []
  /-- The texts that have been read, by number. -/
  documents : List (Nat × Word) := []
  /-- The number of the next text. -/
  nextDocument : Nat := 0

/-- Reading from a place on. -/
abbrev Read := StateT Reader (Except Fault)

namespace Read

def fail {α : Type} (text : String) : Read α := do
  throw ⟨(← get).line, "Syntax error: " ++ text⟩

/-- Gives up at a token where another one may have been expected. -/
def unexpected {α : Type} (t : Token) (expected : Option Token := none) : Read α :=
  fail (t.name ++ " unexpected" ++ match expected with
    | none => ""
    | some e => " (expecting " ++ e.name ++ ")")

def peek? : Read (Option Char) := do
  pure (← get).rest.head?

def skip : Read Unit :=
  modify fun r => match r.rest with
    | [] => r
    | c :: rest => { r with rest, line := if c = '\n' then r.line + 1 else r.line }

def skipJoints : Nat → Read Unit
  | 0 => pure ()
  | count + 1 => do
    match (← get).rest with
    | '\\' :: '\n' :: _ =>
      skip
      skip
      skipJoints count
    | _ => pure ()

def peekJoined? : Read (Option Char) := do
  skipJoints (← get).rest.length
  peek?

/-- Steps over the next byte if it is a given one. -/
def accept (c : Char) : Read Bool := do
  if (← peekJoined?) = some c then
    skip
    pure true
  else pure false

/-- Takes bytes of a class; `count` bounds their number. -/
def takeWhile (p : Char → Bool) : Nat → Read Octets
  | 0 => pure []
  | count + 1 => do
    match ← peekJoined? with
    | some c =>
      if p c then
        skip
        pure (c :: (← takeWhile p count))
      else pure []
    | none => pure []

/-- The bytes between single quotes, behind the first of them. -/
def singleQuoted : Nat → Read Word
  | 0 => fail "Unterminated quoted string"
  | count + 1 => do
    match ← peek? with
    | none => fail "Unterminated quoted string"
    | some c =>
      skip
      if c = '\'' then pure [] else pure (.char c true :: (← singleQuoted count))

/-- The text between backquotes, behind the first of them. -/
def backquoted (inDouble : Bool) : Nat → Read Octets
  | 0 => fail "EOF in backquote substitution"
  | count + 1 => do
    match ← peek? with
    | none => fail "EOF in backquote substitution"
    | some c =>
      skip
      if c = '\x60' then pure []
      else if c = '\\' then
        match ← peek? with
        | none => pure (c :: (← backquoted inDouble count))
        | some d =>
          skip
          if d = '\n' then backquoted inDouble count
          else if d = '\\' || d = '\x60' || d = '$' || (inDouble && d = '"') then
            pure (d :: (← backquoted inDouble count))
          else pure (c :: d :: (← backquoted inDouble count))
      else pure (c :: (← backquoted inDouble count))

def push (t : Token) : Read Unit :=
  modify fun r => { r with pushed := some t }

/-- Reads something from another text, which begins in a line, and then goes on here. -/
def within {α : Type} (line : Nat) (text : Octets) (action : Read α) : Read α := do
  let r ← get
  set { r with rest := text, pushed := none, line }
  let found ← action
  modify fun inner => { inner with rest := r.rest, pushed := none, line := r.line }
  pure found

end Read

/-- Where pieces of a word stand. -/
inductive Mode where
  /-- A word of a command. -/
  | base
  /-- Between double quotes. -/
  | double
  /-- The word of a parameter. -/
  | brace
  /-- The word of a parameter between double quotes; `inner` tells whether further quotes are open. -/
  | quotedBrace (inner : Bool)
  /-- A text in a script. -/
  | document
  /-- An arithmetic expression with so many open parentheses. -/
  | expression (depth : Nat)
deriving DecidableEq, Repr

namespace Mode

/-- Whether characters stand for themselves. -/
def quotes : Mode → Bool
  | base => false
  | brace => false
  | _ => true

/-- Whether a backslash takes away the meaning of a character. -/
def escapes (m : Mode) (c : Char) : Bool :=
  match m with
  | base => true
  | brace => true
  | document => c = '\\' || c = '\x60' || c = '$'
  | quotedBrace _ => c = '\\' || c = '\x60' || c = '$' || c = '"' || c = '\x7d'
  | _ => c = '\\' || c = '\x60' || c = '$' || c = '"'

/-- Whether a word ends before a character. -/
def endsBefore (m : Mode) (c : Char) : Bool :=
  m = base && " \t\n<>();&|".toList.contains c

def ofWord (m : Mode) (operation : Operation) : Mode :=
  match operation with
  | .trim _ _ => brace
  | _ => if m.quotes then quotedBrace false else brace

end Mode

/-- The operation after the name of a parameter in braces, if it has no word. The first character
behind the name is looked at and passed over. -/
def parameterOperation : Read (Operation × Bool) := do
  let orNull ← Read.accept ':'
  match ← Read.peekJoined? with
  | none => pure (.unknown, true)
  | some c =>
    let plain : Option Operation := match c with
      | '-' => some (.default orNull)
      | '=' => some (.assign orNull)
      | '?' => some (.demand orNull)
      | '+' => some (.alternative orNull)
      | _ => none
    match plain with
    | some operation =>
      Read.skip
      pure (operation, true)
    | none =>
      if c = '\x7d' then
        Read.skip
        pure (.value, false)
      else if orNull then pure (.unknown, true)
      else if c = '#' || c = '%' then
        Read.skip
        let longest ← Read.accept c
        pure (.trim (c = '#') longest, true)
      else
        Read.skip
        pure (.unknown, true)

/-- The name of a parameter in braces, and whether its length is meant; nothing for a bad one. -/
def parameterName (count : Nat) : Read (Option (String × Bool)) := do
  match ← Read.peekJoined? with
  | none => pure none
  | some c =>
    if isNameStart c then
      pure (some (String.ofList (← Read.takeWhile isNameChar count), false))
    else if c.isDigit then
      pure (some (String.ofList (← Read.takeWhile Char.isDigit count), false))
    else if c = '#' then
      Read.skip
      match ← Read.peekJoined? with
      | none => pure (some ("#", false))
      | some d =>
        if isNameStart d then
          pure (some (String.ofList (← Read.takeWhile isNameChar count), true))
        else if d.isDigit then
          pure (some (String.ofList (← Read.takeWhile Char.isDigit count), true))
        else if d ≠ '\x7d' && (← get).rest[1]? = some '\x7d' then
          Read.skip
          pure (if isSpecial d then some (String.singleton d, true) else none)
        else pure (some ("#", false))
    else if isSpecial c then
      Read.skip
      pure (some (String.singleton c, false))
    else pure none

/-- A here-document's lines up to its delimiter, and the places behind it. A joined line is not looked
at unless the text is quoted. -/
def documentText (a : Announced) : Nat → Bool → Read Octets
  | 0, _ => pure []
  | count + 1, joined => do
    let text := (← get).rest
    if text.isEmpty then pure []
    else
      let stripped := if a.stripsTabs then text.dropWhile (· = '\t') else text
      let line := stripped.takeWhile (· ≠ '\n')
      let isLast := (stripped.drop line.length).isEmpty
      modify fun r => { r with
        rest := stripped.drop (line.length + 1)
        line := if isLast then r.line else r.line + 1 }
      if !joined && line = a.delimiter then pure []
      else
        let backslashes := (line.reverse.takeWhile (· = '\\')).length
        let more ← documentText a count (!a.quoted && backslashes % 2 = 1)
        pure (line ++ (if isLast then [] else ['\n']) ++ more)

/-- The delimiter that a word spells: its quotes are taken away. -/
def delimiterText (w : Word) : Octets :=
  w.filterMap fun p => match p with
    | .char c _ => some c
    | _ => none

def redirectionIn (descriptor : Nat) : Read Token := do
  if ← Read.accept '<' then
    let strips ← Read.accept '-'
    let number := (← get).nextDocument
    modify fun r => { r with nextDocument := number + 1 }
    pure (.redirection descriptor (.document number) strips)
  else if ← Read.accept '&' then pure (.redirection descriptor .duplicate false)
  else if ← Read.accept '>' then pure (.redirection descriptor .readWrite false)
  else pure (.redirection descriptor .read false)

def redirectionOut (descriptor : Nat) : Read Token := do
  if ← Read.accept '>' then pure (.redirection descriptor .append false)
  else if ← Read.accept '|' then pure (.redirection descriptor .write false)
  else if ← Read.accept '&' then pure (.redirection descriptor .duplicate false)
  else pure (.redirection descriptor .write false)

mutual

/-- The pieces of a word from here on, and whether some of them are quoted. -/
def pieces : Nat → Mode → Read (Word × Bool)
  | 0, _ => Read.fail "Unterminated quoted string"
  | fuel + 1, m => do
    let add (before : Word) (quoted : Bool) (m : Mode) : Read (Word × Bool) := do
      let (more, q) ← pieces fuel m
      pure (before ++ more, quoted || q)
    match ← Read.peek? with
    | none =>
      match m with
      | .base => pure ([], false)
      | .document => pure ([], false)
      | .brace => Read.fail "Missing '\x7d'"
      | .expression _ => Read.fail "Missing '))'"
      | _ => Read.fail "Unterminated quoted string"
    | some c =>
      if m.endsBefore c then pure ([], false)
      else
        Read.skip
        match c with
        | '\\' =>
          match ← Read.peek? with
          | none => add [.char '\\' true] true m
          | some d =>
            Read.skip
            if d = '\n' then add [] false m
            else if m.escapes d then add [.char d true] true m
            else add [.char '\\' true, .char d true] true m
        | '\'' =>
          if m.quotes then add [.char c true] false m
          else
            let inside ← Read.singleQuoted ((← get).rest.length + 1)
            add (.mark :: inside) true m
        | '"' =>
          match m with
          | .double => pure ([], true)
          | .document => add [.char c true] false m
          | .quotedBrace inner => add [] false (.quotedBrace !inner)
          | .expression _ => add [.char c true] false m
          | _ =>
            let (inside, _) ← pieces fuel .double
            match inside with
            | [.parameter "@" .value _ _] => add inside true m
            | _ => add (.mark :: inside) true m
        | '$' => add (← dollar fuel m) false m
        | '\x60' =>
          let line := (← get).line
          let text ← Read.backquoted (m.quotes && m != .document) ((← get).rest.length + 1)
          let command ← Read.within line text (commands fuel false true)
          add [.output command m.quotes] false m
        | '\x7d' =>
          match m with
          | .brace => pure ([], false)
          | .quotedBrace false => pure ([], false)
          | _ => add [.char c m.quotes] false m
        | '(' =>
          match m with
          | .expression depth => add [.char c true] false (.expression (depth + 1))
          | _ => add [.char c m.quotes] false m
        | ')' =>
          match m with
          | .expression 0 =>
            if ← Read.accept ')' then pure ([], false) else add [.char c true] false m
          | .expression (depth + 1) => add [.char c true] false (.expression depth)
          | _ => add [.char c m.quotes] false m
        | c => add [.char c m.quotes] false m

def dollar : Nat → Mode → Read Word
  | 0, _ => Read.fail "Unterminated quoted string"
  | fuel + 1, m => do
    let quoted := m.quotes
    let count := (← get).rest.length + 1
    match ← Read.peekJoined? with
    | some '(' =>
      Read.skip
      if ← Read.accept '(' then
        let (inside, _) ← pieces fuel (.expression 0)
        pure [.arithmetic inside quoted]
      else
        let pushed := (← get).pushed
        modify fun r => { r with pushed := none }
        let command ← commands fuel false true
        match ← token fuel false false with
        | .closing => pure ()
        | other => Read.unexpected other (some .closing)
        modify fun r => { r with pushed }
        pure [.output command quoted]
    | some '\x7b' =>
      Read.skip
      match ← parameterName count with
      | none =>
        let _ ← pieces fuel (m.ofWord .unknown)
        pure [.parameter "" .unknown [] quoted]
      | some (name, true) =>
        let (rest, _) ← pieces fuel (m.ofWord .length)
        pure [.parameter name (if rest.isEmpty then .length else .unknown) [] quoted]
      | some (name, false) =>
        let (operation, hasWord) ← parameterOperation
        let (word, _) ← if hasWord then pieces fuel (m.ofWord operation) else pure ([], false)
        pure [.parameter name operation word quoted]
    | some c =>
      if isNameStart c then
        let name ← Read.takeWhile isNameChar count
        pure [.parameter (String.ofList name) .value [] quoted]
      else if isSpecial c then
        Read.skip
        pure [.parameter (String.singleton c) .value [] quoted]
      else pure [.char '$' quoted]
    | none => pure [.char '$' quoted]

/-- Reads the texts that have been announced. -/
def readDocuments : Nat → Read Unit
  | 0 => pure ()
  | fuel + 1 => do
    match (← get).announced with
    | [] => pure ()
    | a :: others =>
      modify fun r => { r with announced := others }
      let line := (← get).line
      let text ← documentText a ((← get).rest.length + 1) false
      let word ← if a.quoted then pure (text.map fun c => .char c true)
        else do
          let (w, _) ← Read.within line text (pieces fuel .document)
          pure w
      modify fun r => { r with documents := (a.number, word) :: r.documents }
      readDocuments fuel

def rawToken : Nat → Read Token
  | 0 => Read.fail "Unterminated quoted string"
  | fuel + 1 => do
    match (← get).pushed with
    | some t =>
      modify fun r => { r with pushed := none }
      pure t
    | none =>
      match ← Read.peekJoined? with
      | none => pure .stop
      | some c =>
        match c with
        | ' ' | '\t' =>
          Read.skip
          rawToken fuel
        | '#' =>
          modify fun r => { r with rest := r.rest.dropWhile (· ≠ '\n') }
          rawToken fuel
        | '\n' =>
          Read.skip
          pure .newline
        | '&' =>
          Read.skip
          if ← Read.accept '&' then pure .andThen else pure .ampersand
        | '|' =>
          Read.skip
          if ← Read.accept '|' then pure .orElse else pure .pipe
        | ';' =>
          Read.skip
          if ← Read.accept ';' then pure .caseEnd else pure .semicolon
        | '(' =>
          Read.skip
          pure .opening
        | ')' =>
          Read.skip
          pure .closing
        | _ =>
          let (word, quoted) ← pieces fuel .base
          let descriptor? : Option (Option Nat) := match word, quoted with
            | [], false => some none
            | [.char d false], false => if d.isDigit then some (some (d.toNat - 48)) else none
            | _, _ => none
          match descriptor?, ← Read.peek? with
          | some descriptor, some '<' =>
            Read.skip
            redirectionIn (descriptor.getD 0)
          | some descriptor, some '>' =>
            Read.skip
            redirectionOut (descriptor.getD 1)
          | _, _ => pure (.word word quoted)

/-- The next token. Keywords are recognized and line ends passed over on demand. -/
def token : Nat → Bool → Bool → Read Token
  | 0, _, _ => Read.fail "Unterminated quoted string"
  | fuel + 1, asKeyword, overLines => do
    let t ← rawToken fuel
    match t with
    | .newline =>
      if overLines then
        readDocuments fuel
        token fuel asKeyword overLines
      else pure t
    | .word w false =>
      match asKeyword, bareText? w with
      | true, some text =>
        match keywords.lookup (String.ofList text) with
        | some k => pure (.keyword k)
        | none => pure t
      | _, _ => pure t
    | t => pure t

/-- Commands one after the other. A list of the whole script ends with its line; one that may be empty
ends before a closing token at once. -/
def commands : Nat → Bool → Bool → Read Command
  | 0, _, _ => Read.fail "Unterminated quoted string"
  | fuel + 1, ofScript, mayBeEmpty => do
    let t ← token fuel true !ofScript
    match t with
    | .newline =>
      readDocuments fuel
      pure .nothing
    | .stop =>
      readDocuments fuel
      Read.push .stop
      pure .nothing
    | t =>
      Read.push t
      if mayBeEmpty && !ofScript && t.endsList then pure .nothing
      else
        let first ← andOr fuel
        let separator ← token fuel false false
        let first := match separator with
          | .ampersand => .background first
          | _ => first
        let goOn : Read Command := do
          match ← commands fuel ofScript true with
          | .nothing => pure first
          | rest => pure (.sequence first rest)
        match separator with
        | .stop =>
          readDocuments fuel
          Read.push .stop
          pure first
        | .newline =>
          Read.push .newline
          goOn
        | .ampersand => goOn
        | .semicolon => goOn
        | other =>
          if ofScript then Read.unexpected other
          else
            Read.push other
            pure first

/-- Pipelines joined by conditions. -/
def andOr : Nat → Read Command
  | 0 => Read.fail "Unterminated quoted string"
  | fuel + 1 => do
    let first ← pipeline fuel false
    andOrFrom fuel first

/-- Pipelines joined by conditions, from the first of them on. -/
def andOrFrom : Nat → Command → Read Command
  | 0, _ => Read.fail "Unterminated quoted string"
  | fuel + 1, first => do
    match ← token fuel false false with
    | .andThen =>
      let second ← pipeline fuel true
      andOrFrom fuel (.andThen first second)
    | .orElse =>
      let second ← pipeline fuel true
      andOrFrom fuel (.orElse first second)
    | other =>
      Read.push other
      pure first

/-- A pipeline, which may be negated. -/
def pipeline : Nat → Bool → Read Command
  | 0, _ => Read.fail "Unterminated quoted string"
  | fuel + 1, overLines => do
    let t ← token fuel overLines overLines
    let negated := t.isKeyword .not
    if !negated then Read.push t
    let first ← command fuel negated false
    let others ← pipes fuel
    let all := if others.isEmpty then first else .pipeline (first :: others)
    pure (if negated then .negation all else all)

/-- The commands of a pipeline behind the first. -/
def pipes : Nat → Read (List Command)
  | 0 => Read.fail "Unterminated quoted string"
  | fuel + 1 => do
    match ← token fuel false false with
    | .pipe =>
      let next ← command fuel true true
      pure (next :: (← pipes fuel))
    | other =>
      Read.push other
      pure []

def redirections : Nat → Read (List Redirection)
  | 0 => Read.fail "Unterminated quoted string"
  | fuel + 1 => do
    match ← token fuel true false with
    | .redirection descriptor direction strips =>
      let r ← redirectionTarget fuel descriptor direction strips
      pure (r :: (← redirections fuel))
    | other =>
      Read.push other
      pure []

def redirectionTarget : Nat → Nat → Direction → Bool → Read Redirection
  | 0, _, _, _ => Read.fail "Unterminated quoted string"
  | fuel + 1, descriptor, direction, strips => do
    match ← token fuel false false with
    | .word w quoted =>
      match direction with
      | .document number =>
        let a : Announced := ⟨number, delimiterText w, quoted, strips⟩
        modify fun r => { r with announced := r.announced ++ [a] }
        pure (.mk descriptor direction [])
      | _ => pure (.mk descriptor direction w)
    | other => Read.unexpected other

def expect : Nat → Keyword → Read Unit
  | 0, _ => Read.fail "Unterminated quoted string"
  | fuel + 1, k => do
    let t ← token fuel true false
    if t.isKeyword k then pure () else Read.unexpected t (some (.keyword k))

def command : Nat → Bool → Bool → Read Command
  | 0, _, _ => Read.fail "Unterminated quoted string"
  | fuel + 1, asKeyword, overLines => do
    let t ← token fuel asKeyword overLines
    let line := (← get).line
    let finish (c : Command) : Read Command := do
      match ← redirections fuel with
      | [] => pure c
      | rs =>
        match c with
        | .subshell line inner _ => pure (.subshell line inner rs)
        | c => pure (.redirected line c rs)
    match t with
    | .word _ _ =>
      Read.push t
      simple fuel line true [] [] []
    | .redirection _ _ _ =>
      Read.push t
      simple fuel line true [] [] []
    | .opening =>
      let inner ← commands fuel false false
      match ← token fuel true false with
      | .closing => finish (.subshell line inner [])
      | other => Read.unexpected other (some .closing)
    | .keyword .begin =>
      let inner ← commands fuel false false
      expect fuel .finish
      finish inner
    | .keyword .if =>
      let c ← branches fuel
      expect fuel .fi
      finish c
    | .keyword .while =>
      let c ← loopBody fuel false
      finish c
    | .keyword .until =>
      let c ← loopBody fuel true
      finish c
    | .keyword .for =>
      let c ← forEach fuel line
      finish c
    | .keyword .case =>
      match ← token fuel false false with
      | .word w _ =>
        let t ← token fuel true true
        if t.isKeyword .in then
          let cases ← cases fuel
          finish (.choice line w cases)
        else Read.unexpected t (some (.keyword .in))
      | other => Read.unexpected other (some (.word [] false))
    | other => Read.unexpected other

def branches : Nat → Read Command
  | 0 => Read.fail "Unterminated quoted string"
  | fuel + 1 => do
    let condition ← commands fuel false false
    expect fuel .then
    let yes ← commands fuel false false
    let t ← token fuel true false
    if t.isKeyword .elif then
      pure (.branch condition yes (← branches fuel))
    else if t.isKeyword .else then
      pure (.branch condition yes (← commands fuel false false))
    else
      Read.push t
      pure (.branch condition yes .nothing)

def loopBody : Nat → Bool → Read Command
  | 0, _ => Read.fail "Unterminated quoted string"
  | fuel + 1, isUntil => do
    let condition ← commands fuel false false
    expect fuel .do
    let body ← commands fuel false false
    expect fuel .done
    pure (.loop isUntil condition body)

/-- The name, the words and the body of a loop over words. -/
def forEach : Nat → Nat → Read Command
  | 0, _ => Read.fail "Unterminated quoted string"
  | fuel + 1, line => do
    let name ← match ← token fuel false false with
      | .word w false =>
        match bareText? w with
        | some text =>
          if isName text then pure (String.ofList text) else Read.fail "Bad for loop variable"
        | none => Read.fail "Bad for loop variable"
      | _ => Read.fail "Bad for loop variable"
    let t ← token fuel true true
    let words ← match t with
      | .keyword .in => forWords fuel
      | .semicolon => pure [[.parameter "@" .value [] true]]
      | t => do
        Read.push t
        pure [[.parameter "@" .value [] true]]
    let t ← token fuel true true
    if t.isKeyword .do then
      let body ← commands fuel false false
      expect fuel .done
      pure (.forEach line name words body)
    else Read.unexpected t (some (.keyword .do))

def forWords : Nat → Read (List Word)
  | 0 => Read.fail "Unterminated quoted string"
  | fuel + 1 => do
    match ← token fuel false false with
    | .word w _ => pure (w :: (← forWords fuel))
    | .newline =>
      readDocuments fuel
      pure []
    | .semicolon => pure []
    | other => Read.unexpected other

def cases : Nat → Read (List (List Word × Command))
  | 0 => Read.fail "Unterminated quoted string"
  | fuel + 1 => do
    let t ← token fuel true true
    if t.isKeyword .esac then pure []
    else
      let t ← match t with
        | .opening => token fuel false false
        | t => pure t
      let patterns ← patterns fuel t
      let body ← commands fuel false true
      let t ← token fuel true true
      if t.isKeyword .esac then pure [(patterns, body)]
      else
        match t with
        | .caseEnd => pure ((patterns, body) :: (← cases fuel))
        | other => Read.unexpected other (some .caseEnd)

/-- The patterns of a case, the first of which has been read. -/
def patterns : Nat → Token → Read (List Word)
  | 0, _ => Read.fail "Unterminated quoted string"
  | fuel + 1, t => do
    let asWord (k : Keyword) : Word :=
      ((((keywords.find? (·.2 = k)).map Prod.fst).getD "").toList).map fun c => .char c false
    let first ← match t with
      | .word w _ => pure w
      | .keyword k => pure (asWord k)
      | other => Read.unexpected other (some .closing)
    match ← token fuel false false with
    | .pipe => pure (first :: (← patterns fuel (← token fuel false false)))
    | .closing => pure [first]
    | other => Read.unexpected other (some .closing)

/-- A simple command or the definition of a function. Assignments come before words. -/
def simple : Nat → Nat → Bool → List (String × Word) → List Word → List Redirection → Read Command
  | 0, _, _, _, _, _ => Read.fail "Unterminated quoted string"
  | fuel + 1, line, first, assignments, words, redirected => do
    match ← token fuel false false with
    | .word w _ =>
      match first, assignment? w with
      | true, some a => simple fuel line true (assignments ++ [a]) words redirected
      | _, _ => simple fuel line false assignments (words ++ [w]) redirected
    | .redirection descriptor direction strips =>
      let r ← redirectionTarget fuel descriptor direction strips
      simple fuel line first assignments words (redirected ++ [r])
    | .opening =>
      match words, assignments, redirected with
      | [w], [], [] => definition fuel w
      | _, _, _ =>
        Read.push .opening
        pure (.simple line assignments words redirected)
    | other =>
      Read.push other
      pure (.simple line assignments words redirected)

/-- The definition of a function, behind its name and the opening parenthesis. -/
def definition : Nat → Word → Read Command
  | 0, _ => Read.fail "Unterminated quoted string"
  | fuel + 1, w => do
    match ← token fuel false false with
    | .closing => pure ()
    | other => Read.unexpected other (some .closing)
    let reserved := [".", ":", "break", "continue", "eval", "exec", "exit", "export", "readonly",
      "return", "set", "shift", "times", "trap", "unset"]
    match bareText? w with
    | some text =>
      let name := String.ofList text
      if isName text && !reserved.contains name then
        let body ← command fuel true true
        pure (.definition name body)
      else Read.fail "Bad function name"
    | none => Read.fail "Bad function name"

end

/-- The next command of a script; `none` at its end. -/
def nextCommand (r : Reader) : Except Fault (Option Command × Reader) :=
  let fuel := 8 * r.rest.length + 64
  let r := { r with pushed := none }
  match (commands fuel true false).run r with
  | .error f => .error f
  | .ok (c, after) =>
    match c, after.pushed with
    | .nothing, some .stop => .ok (none, after)
    | c, _ => .ok (some c, { after with pushed := none })

end BulkEdit.Program.Shell
