import BulkEdit.Program.Shell.Redirect
import BulkEdit.Program.Test

/-!
# Commands of the shell

The shell has commands of its own. Those that are special end the shell if they fail by an error.
-/

namespace BulkEdit.Program.Shell

/-- A command of the shell: what it does with its arguments, and its exit status. -/
abbrev Builtin := Deeper → List Octets → Run Nat

namespace Builtin

/-! ### Arguments -/

/-- A number among the arguments. -/
def natural (text : Octets) : Run Nat :=
  if text.isEmpty || !text.all Char.isDigit then Run.fault (octets "Illegal number: " ++ text)
  else pure (Number.digitsValue text)

/-- Takes options, which are single letters, from the front of the arguments. -/
def options (letters : Octets) : List Octets → Run (Octets × List Octets)
  | ['-', '-'] :: rest => pure ([], rest)
  | ('-' :: c :: more) :: rest => do
    for letter in c :: more do
      if !letters.contains letter then
        Run.fault (octets "Illegal option -" ++ [letter])
    let (others, rest) ← options letters rest
    pure (c :: more ++ others, rest)
  | rest => pure ([], rest)

def nameAndValue (argument : Octets) : Octets × Option Octets :=
  let name := argument.takeWhile (· ≠ '=')
  (name, if name.length < argument.length then some (argument.drop (name.length + 1)) else none)

def variableName (text : Octets) : Run String :=
  if isName text then pure (String.ofList text)
  else Run.fault (text ++ octets ": bad variable name")

/-- A value between quotes, so that the shell can read it again. -/
def quotedValue (value : Octets) : Octets :=
  if value.contains '\'' then
    let parts := value.splitBy fun a b => (a = '\'') = (b = '\'')
    parts.flatMap fun p =>
      if p.head? == some '\'' then '"' :: p ++ ['"'] else '\'' :: p ++ ['\'']
  else '\'' :: value ++ ['\'']

/-! ### Output -/

/-- Writes a text; a closed output is an error. -/
def print (name : String) (text : Octets) : Run Nat := do
  if ← Run.write 1 text then pure 0
  else
    Run.complain (octets (name ++ ": I/O error"))
    pure 1

/-- Writes its arguments with their escapes carried out. -/
def echo : Builtin := fun _ arguments =>
  let (newline, texts) := match arguments with
    | ['-', 'n'] :: rest => (false, rest)
    | texts => (true, texts)
  print "echo" (Echo.text false { newline, escapes := true } texts)

def printf : Builtin := fun _ arguments => do
  let (_, arguments) ← options [] arguments
  match arguments with
  | [] => Run.fault (octets "usage: printf format [arg ...]")
  | format :: rest =>
    let (work, fault?) := Format.run format rest
    for complaint in work.complaints do
      Run.complain complaint
    let status ← print "printf" work.out
    match fault? with
    | some f => Run.fault f.text
    | none => pure (if work.complaints.isEmpty then status else 1)

/-! ### Reading -/

/-- Takes a line byte by byte. A backslash joins lines and takes away the meaning of a byte, unless
`raw` says otherwise; of each byte it is told whether it may divide words. Also tells whether the line
was complete. -/
def readLine (raw : Bool) : Octets → List (Char × Bool) × Bool × Octets
  | [] => ([], false, [])
  | ['\\'] => if raw then ([('\\', true)], false, []) else ([], false, [])
  | '\n' :: rest => ([], true, rest)
  | '\\' :: c :: rest =>
    if raw then
      let (line, complete, after) := readLine raw (c :: rest)
      (('\\', true) :: line, complete, after)
    else
      let (line, complete, after) := readLine raw rest
      (if c = '\n' then line else (c, false) :: line, complete, after)
  | c :: rest =>
    let (line, complete, after) := readLine raw rest
    (if c = '\x00' then line else (c, true) :: line, complete, after)

/-- The end of a line in the last variable: without the separator behind it if it is one word, and
else without the blanks behind it. `held` is what is kept for sure, `loose` what may be dropped, and
`afterBlank` tells whether the separators so far may end the only word. -/
def lastValue (separators : Octets) : (held loose : Octets) → Bool → List (Char × Bool) → Octets
  | held, _, _, [] => held
  | held, loose, afterBlank, (c, splits) :: rest =>
    let isSeparator := splits && separators.contains c
    let isBlank := isSeparator && (c = ' ' || c = '\t' || c = '\n')
    if isBlank then lastValue separators held (loose ++ [c]) afterBlank rest
    else if isSeparator && afterBlank then
      lastValue separators held (loose ++ [c]) false rest
    else lastValue separators (held ++ loose ++ [c]) [] false rest

/-- Divides a line among variables. `word` is what the current one has got so far. -/
def readFields (separators : Octets) : Nat → Octets → Bool → List (Char × Bool) → List Octets
  | _, word, _, [] => [word]
  | count, word, afterBlank, (c, splits) :: rest =>
    let isSeparator := splits && separators.contains c
    let isBlank := isSeparator && (c = ' ' || c = '\t' || c = '\n')
    if afterBlank && isBlank then readFields separators count word true rest
    else if afterBlank && isSeparator && word.isEmpty then
      readFields separators count word false rest
    else if isSeparator then
      if isBlank && word.isEmpty && !afterBlank then readFields separators count word false rest
      else if count ≤ 1 then
        [lastValue separators word [c] isBlank rest]
      else word :: readFields separators (count - 1) [] isBlank rest
    else readFields separators count (word ++ [c]) false rest

/-- Reads a line into variables. -/
def read : Builtin := fun _ arguments => do
  let rec takeOptions : List Octets → Run (Bool × List Octets)
    | ['-', '-'] :: rest => pure (false, rest)
    | ['-', 'p'] :: _ :: rest => takeOptions rest
    | ('-' :: 'p' :: _ :: _) :: rest => takeOptions rest
    | ['-', 'r'] :: rest => do
      let (_, rest) ← takeOptions rest
      pure (true, rest)
    | ('-' :: c :: _) :: _ => Run.fault (octets "Illegal option -" ++ [c])
    | rest => pure (false, rest)
  let (raw, names) ← takeOptions arguments
  if names.isEmpty then Run.fault (octets "arg count")
  let s ← get
  let handle := (s.descriptors.lookup 0).getD .null
  let (line, complete, rest) := readLine raw (s.world.unread handle)
  modify fun s => { s with world := s.world.readUpTo handle rest }
  let fields := readFields s.separators names.length [] false line
  for (name, i) in names.zipIdx do
    let name ← variableName name
    Run.assign name (fields[i]?.getD [])
  pure (if complete then 0 else 1)

/-! ### Control -/

def exit : Builtin := fun _ arguments => do
  match arguments with
  | [] => pure ()
  | text :: _ =>
    let n ← natural text
    Run.setStatus (n % 256)
  throw .exit

/-- Ends a function. -/
def finish : Builtin := fun _ arguments => do
  match arguments with
  | [] => pure ()
  | text :: _ =>
    let n ← natural text
    Run.setStatus n
  throw .return

/-- Ends loops, or goes on with the next round of one. -/
def leave (again : Bool) : Builtin := fun _ arguments => do
  let count ← match arguments with
    | [] => pure 1
    | text :: _ =>
      let n ← natural text
      if n = 0 then Run.fault (octets "Illegal number: " ++ text) else pure n
  let loops := (← get).loops
  Run.setStatus 0
  if loops = 0 then pure 0
  else if again then throw (.again (min count loops))
  else throw (.leave (min count loops))

def eval : Builtin := fun d arguments => do
  Run.setStatus 0
  d.script (spaced arguments)
  pure (← get).status

def source : Builtin := fun d arguments => do
  match arguments with
  | [] => pure 0
  | name :: _ =>
    if !name.contains '/' then Run.fault (name ++ octets ": not found")
    else
      match contents (← get).world.disk name with
      | .error _ => cannot "open" name "No such file"
      | .ok text =>
        Run.setStatus 0
        match ← Run.outcome (d.script text) with
        | .ok () => pure ()
        | .error .return => pure ()
        | .error stop => throw stop
        pure (← get).status

/-! ### Variables -/

/-- Marks variables, and gives them values. -/
def marking (isMarked : Variable → Bool) (word : String) (mark : Variable → Variable) : Builtin :=
  fun _ arguments => do
    let (letters, names) ← options ['p'] arguments
    if letters.contains 'p' || names.isEmpty then
      let lines := (← get).vars.filterMap fun (name, v) =>
        if isMarked v then
          some (octets (word ++ " " ++ name) ++ (match v.value with
            | some value => '=' :: quotedValue value
            | none => []) ++ ['\n'])
        else none
      print word ((lines.mergeSort inOrder).flatten)
    else
      for argument in names do
        let (text, value) := nameAndValue argument
        let name ← variableName text
        match value with
        | some value => Run.assign name value
        | none => pure ()
        modify fun s => s.modifyVariable name mark
      pure 0

/-- Tells programs of variables. -/
def announce : Builtin :=
  marking (·.exported) "export" fun v => { v with exported := true }

def readonly : Builtin :=
  marking (·.readOnly) "readonly" fun v => { v with readOnly := true }

def makeLocal : Builtin := fun _ arguments => do
  if (← get).locals.isEmpty then Run.fault (octets "not in a function")
  for argument in arguments do
    let (text, value) := nameAndValue argument
    let name ← variableName text
    let s ← get
    let isNew := !(s.locals.headD []).any fun entry => entry.1 = name
    if isNew then
      set { s with locals := ((name, s.vars.lookup name) :: s.locals.headD [])
        :: s.locals.tail }
    match value with
    | some value => Run.assign name value
    | none => pure ()
  pure 0

def unset : Builtin := fun _ arguments => do
  let (letters, names) ← options ['v', 'f'] arguments
  for text in names do
    if letters.contains 'f' then
      modify fun s => { s with
        functions := s.functions.filter fun entry => entry.1.toList ≠ text }
    else
      let name ← variableName text
      if (((← get).vars.lookup name).map Variable.readOnly).getD false then
        Run.fault (octets name ++ octets ": is read only")
      modify fun s => { s with vars := s.vars.filter fun entry => entry.1 ≠ name }
  pure 0

def shift : Builtin := fun _ arguments => do
  let count ← match arguments with
    | [] => pure 1
    | text :: _ => natural text
  let s ← get
  if s.parameters.length < count then Run.fault (octets "can't shift that many")
  set { s with parameters := s.parameters.drop count, optionPlace := {} }
  pure 0

def switchNames : List (String × Char) :=
  [("errexit", 'e'), ("nounset", 'u'), ("xtrace", 'x'), ("noglob", 'f'), ("noclobber", 'C'),
    ("allexport", 'a'), ("verbose", 'v'), ("notify", 'b'), ("monitor", 'm'), ("noexec", 'n'),
    ("ignoreeof", 'I'), ("stdin", 's'), ("interactive", 'i'), ("vi", 'V'), ("emacs", 'E'),
    ("nolog", 'L'), ("debug", 'D')]

def setSwitch (on : Bool) (letter : Char) : Run Unit :=
  modify fun s =>
    let w := s.switches
    { s with switches := match letter with
        | 'e' => { w with errexit := on }
        | 'u' => { w with nounset := on }
        | 'x' => { w with xtrace := on }
        | c => { w with others := (w.others.filter (· ≠ c)) ++ (if on then [c] else []) } }

/-- Turns on or off the switches of arguments; gives the arguments behind them, if any are to be
positional parameters. -/
def switchArguments : List Octets → Run (Option (List Octets))
  | [] => pure none
  | ['-', '-'] :: rest => pure (some rest)
  | ['-', 'o'] :: name :: rest => named true name rest
  | ['+', 'o'] :: name :: rest => named false name rest
  | (sign :: c :: letters) :: rest =>
    if sign = '-' || sign = '+' then do
      for letter in c :: letters do
        if letter = 'o' || (switchNames.any fun entry => entry.2 = letter) then
          setSwitch (sign = '-') letter
        else Run.fault (octets "Illegal option " ++ ['-', letter])
      switchArguments rest
    else pure (some ((sign :: c :: letters) :: rest))
  | rest => pure (some rest)
where
  /-- Turns a switch on or off by its name, and goes on. -/
  named (on : Bool) (name : Octets) (rest : List Octets) : Run (Option (List Octets)) := do
    match switchNames.lookup (String.ofList name) with
    | some letter =>
      setSwitch on letter
      switchArguments rest
    | none => Run.fault (octets "Illegal option -o " ++ name)

/-- Sets switches and positional parameters, or shows the variables. -/
def set : Builtin := fun _ arguments => do
  if arguments.isEmpty then
    let lines := (← get).vars.filterMap fun (name, v) =>
      v.value.map fun value => octets name ++ '=' :: quotedValue value ++ ['\n']
    print "set" ((lines.mergeSort inOrder).flatten)
  else
    match ← switchArguments arguments with
    | some parameters => modify fun s => { s with parameters, optionPlace := {} }
    | none => pure ()
    pure 0

/-! ### Other commands -/

def test (bracketed : Bool) : Builtin := fun _ arguments => do
  let words ← if bracketed then
      if arguments.getLast? = some [']'] then pure arguments.dropLast
      else Run.fault (octets "missing ]")
    else pure arguments
  match Test.run (← get).world.disk words with
  | .ok holds => pure (if holds then 0 else 1)
  | .error f => Run.fault f

/-- The end of the shell and the signals, in the order of their numbers. -/
def conditions : List String :=
  ["EXIT", "HUP", "INT", "QUIT", "ILL", "TRAP", "ABRT", "BUS", "FPE", "KILL", "USR1", "SEGV", "USR2",
    "PIPE", "ALRM", "TERM", "STKFLT", "CHLD", "CONT", "STOP", "TSTP", "TTIN", "TTOU", "URG", "XCPU",
    "XFSZ", "VTALRM", "PROF", "WINCH", "IO", "PWR", "SYS"]

def conditionNumber? (text : Octets) : Option Nat :=
  if !text.isEmpty && text.all Char.isDigit then
    let n := Number.digitsValue text
    if n < 65 then some n else none
  else conditions.idxOf? (String.ofList (text.map Char.toUpper))

/-- Says what is to be done at the end and when signals come. -/
def trap : Builtin := fun _ arguments => do
  let (_, arguments) ← options [] arguments
  match arguments with
  | [] =>
    let lines := ((← get).traps.mergeSort fun a b => a.1 ≤ b.1).map fun (n, action) =>
      octets "trap -- " ++ quotedValue action ++ octets (" " ++ conditions[n]?.getD "" ++ "\n")
    print "trap" lines.flatten
  | action :: others =>
    let (action?, names) : Option Octets × List Octets :=
      if others.isEmpty then (none, [action])
      else if action = ['-'] then (none, others)
      else (some action, others)
    for name in names do
      match conditionNumber? name with
      | none =>
        let _ ← Run.write 2 (octets "trap: " ++ name ++ octets ": bad trap\n")
      | some n =>
        modify fun s => { s with
          traps := (s.traps.filter (·.1 ≠ n)) ++ (action?.map fun action => (n, action)).toList }
    pure (if names.all fun name => (conditionNumber? name).isSome then 0 else 1)

/-- Signals that change nothing unless a trap is set for them. -/
def quietSignals : List Nat :=
  [0, 17, 18, 23, 28]

/-- Lets a signal come to the shell. -/
def receive (d : Deeper) (signal : Nat) : Run Unit := do
  let action? := (← get).traps.lookup signal
  match if signal = 9 then none else action? with
  | some action =>
    let status := (← get).status
    d.script action
    Run.setStatus status
  | none =>
    if !quietSignals.contains signal then
      modify fun s => { s with traps := [], status := 128 + signal }
      throw .exit

/-- Sends signals. There is nobody but the shell to send them to. -/
def kill : Builtin := fun d arguments => do
  let usage : Run Nat :=
    Run.fault (octets ("Usage: kill [-s sigspec | -signum | -sigspec] [pid | job]... or\n"
      ++ "kill -l [exitstatus]"))
  let (signal?, targets) : Option Nat × List Octets := match arguments with
    | ['-', 's'] :: name :: rest => (conditionNumber? name, rest)
    | ['-', '-'] :: rest => (some 15, rest)
    | ('-' :: name) :: rest => (conditionNumber? name, rest)
    | targets => (some 15, targets)
  match signal?, targets with
  | none, _ => usage
  | _, [] => usage
  | some signal, target :: _ =>
    Run.setStatus 0
    if some target = (← get).parameter? "$" then
      receive d signal
      pure 0
    else
      Run.complain (octets "No such process")
      pure 1

def cd : Builtin := fun _ arguments => do
  let (_, arguments) ← options ['L', 'P'] arguments
  let s ← get
  let (target, isShown) := match arguments with
    | [] => ((s.valueOf? "HOME").getD [], false)
    | ['-'] :: _ => ((s.valueOf? "OLDPWD").getD [], true)
    | name :: _ => (name, false)
  match s.world.disk.look (pathOf target) with
  | .ok (place, .folder) =>
    let path := '/' :: (['/'].intercalate (place.map octets))
    let before := s.valueOf? "PWD"
    modify fun s => { s with
      world := { s.world with disk := { s.world.disk with working := place } } }
    match before with
    | some before => Run.assign "OLDPWD" before
    | none => pure ()
    Run.assign "PWD" path
    if isShown then print "cd" (path ++ ['\n']) else pure 0
  | _ => Run.fault (octets "can't cd to " ++ target)

def pwd : Builtin := fun _ _ => do
  print "pwd" ('/' :: (['/'].intercalate ((← get).world.disk.working.map octets)) ++ ['\n'])

def wait : Builtin := fun _ arguments => do
  let s ← get
  match arguments.getLast? with
  | none => pure 0
  | some text =>
    let n ← natural text
    -- the first command in the background has the number three
    pure (if n < 3 then 127 else s.jobs[n - 3]?.getD 127)

/-- What stands behind a letter in the letters that `getopts` is given; nothing if the letter is not
among them. A colon behind a letter belongs to it. -/
def behindLetter? (letter : Char) : Octets → Option Octets
  | [] => none
  | c :: ':' :: rest => if c = letter then some (':' :: rest) else behindLetter? letter rest
  | c :: rest => if c = letter then some rest else behindLetter? letter rest

/-- The letters that `getopts` goes on with, and how far it has come when it does. -/
def nextLetters? (place : OptionPlace) (words : List Octets) : Option (Octets × OptionPlace) :=
  match place.taken, (words[place.index - 2]?.getD []).drop place.taken with
  | _ + 1, c :: letters => some (c :: letters, place)
  | _, _ =>
    match words[place.index - 1]? with
    | some ('-' :: c :: letters) => some (c :: letters, ⟨place.index + 1, 1⟩)
    | _ => none

/-- Takes the next option from the arguments. -/
def getopts : Builtin := fun _ arguments => do
  match arguments with
  | letters :: nameText :: rest =>
    let name ← variableName nameText
    let s ← get
    let words := if rest.isEmpty then s.parameters else rest
    let silent := letters.head? == some ':'
    let finish (value : Char) (index taken : Nat) : Run Unit := do
      Run.assign "OPTIND" (State.number index)
      modify fun s => { s with optionPlace := { index, taken } }
      Run.assign name [value]
    let blame (letter : Char) (kind : Char) (complaint : String) : Run Char := do
      if silent then
        Run.assign "OPTARG" [letter]
        pure kind
      else
        let _ ← Run.write 2 (octets (complaint ++ "\n"))
        modify fun s => { s with vars := s.vars.filter (·.1 ≠ "OPTARG") }
        pure '?'
    match nextLetters? s.optionPlace words with
    | none =>
      finish '?' s.optionPlace.index 0
      pure 1
    | some (['-'], ⟨index, 1⟩) =>
      finish '?' index 0
      pure 1
    | some (found, ⟨index, taken⟩) =>
      let letter := found.headD '?'
      let more := found.drop 1
      match behindLetter? letter letters with
      | none =>
        let value ← blame letter '?' ("Illegal option -" ++ String.singleton letter)
        finish value index (taken + 1)
      | some (':' :: _) =>
        if !more.isEmpty then
          Run.assign "OPTARG" more
          finish letter index 0
        else
          match words[index - 1]? with
          | some value =>
            Run.assign "OPTARG" value
            finish letter (index + 1) 0
          | none =>
            let value ← blame letter ':' ("No arg for -" ++ String.singleton letter ++ " option")
            finish value index 0
      | some _ =>
        Run.assign "OPTARG" []
        finish letter index (taken + 1)
      pure 0
  | _ => Run.fault (octets "Usage: getopts optstring var [arg...]")

end Builtin

/-- The special commands of the shell. -/
def special? (name : String) : Option Builtin :=
  match name with
  | "." => some Builtin.source
  | ":" => some fun _ _ => pure 0
  | "break" => some (Builtin.leave false)
  | "continue" => some (Builtin.leave true)
  | "eval" => some Builtin.eval
  | "exit" => some Builtin.exit
  | "export" => some Builtin.announce
  | "readonly" => some Builtin.readonly
  | "return" => some Builtin.finish
  | "set" => some Builtin.set
  | "shift" => some Builtin.shift
  | "times" => some fun _ _ => Builtin.print "times" (octets "0m0.00s 0m0.00s\n0m0.00s 0m0.00s\n")
  | "trap" => some Builtin.trap
  | "unset" => some Builtin.unset
  | _ => none

/-- The other commands of the shell. -/
def regular? (name : String) : Option Builtin :=
  match name with
  | "[" => some (Builtin.test true)
  | "cd" => some Builtin.cd
  | "chdir" => some Builtin.cd
  | "echo" => some Builtin.echo
  | "false" => some fun _ _ => pure 1
  | "getopts" => some Builtin.getopts
  | "hash" => some fun _ _ => pure 0
  | "jobs" => some fun _ _ => pure 0
  | "kill" => some Builtin.kill
  | "local" => some Builtin.makeLocal
  | "printf" => some Builtin.printf
  | "pwd" => some Builtin.pwd
  | "read" => some Builtin.read
  | "test" => some (Builtin.test false)
  | "true" => some fun _ _ => pure 0
  | "ulimit" => some fun _ _ => Builtin.print "ulimit" (octets "unlimited\n")
  | "umask" => some fun _ arguments =>
    if arguments.isEmpty then Builtin.print "umask" (octets "0022\n") else pure 0
  | "wait" => some Builtin.wait
  | _ => none

end BulkEdit.Program.Shell
