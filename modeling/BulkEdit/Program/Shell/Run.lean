import BulkEdit.Program.Cat
import BulkEdit.Program.Shell.Builtin
import BulkEdit.Program.Tr

/-!
# Running shell scripts

Commands, words and scripts contain each other; each step is defined by what the shell does one
level deeper, and the shell is the result of going down far enough.
-/

namespace BulkEdit.Program.Shell

/-- The programs that are not shells. -/
def program? (name : String) : Option (Task → Outcome) :=
  match name with
  | "cat" => some cat
  | "tr" => some tr
  | "echo" => some Program.echo
  | "true" => some Task.start
  | "false" => some fun t => { t.start with status := 1 }
  | "sleep" => some Task.start
  | _ => none

/-- The name of a program without the folder it is found in. -/
def plainName (name : Octets) : Octets :=
  let without (folder : String) : Option Octets :=
    if folder.toList.isPrefixOf name then some (name.drop folder.length) else none
  match (without "/usr/bin/").or (without "/bin/") with
  | some rest => if rest.contains '/' then name else rest
  | none => name

/-- What a name of a command stands for. -/
inductive Meaning where
  | special (b : Builtin)
  | function (body : Command)
  | regular (b : Builtin)
  /-- The command that runs another command or program in the place of the shell. -/
  | exec
  /-- The command that runs a command whatever functions there are. -/
  | command
  /-- The command that tells what names stand for. -/
  | type
  | program (run : Task → Outcome)
  /-- A program that is a shell. -/
  | shell
  /-- What the system refuses, with the exit status. -/
  | refused (why : String) (status : Nat)

def meaning (s : State) (name : Octets) : Meaning :=
  let text := String.ofList name
  let plain := String.ofList (plainName name)
  let asProgram : Meaning :=
    if plain = "sh" || plain = "dash" then .shell
    else
      match program? plain with
      | some run => .program run
      | none =>
        if name.contains '/' then
          match s.world.disk.look (pathOf name) with
          | .ok _ => .refused "Permission denied" 126
          | .error _ => .refused "not found" 127
        else if name = ['.', '.'] || name = [] then .refused "Permission denied" 127
        else .refused "not found" 127
  if text = "exec" then .exec
  else if text = "command" then .command
  else
    match special? text, s.functions.lookup text, regular? text with
    | some b, _, _ => .special b
    | none, some body, _ => .function body
    | none, none, some b => .regular b
    | none, none, none => if text = "type" then .type else asProgram

/-! ### Parts of commands -/

/-- Ends the shell if a command failed and nobody looks at its failure. -/
def checkFailure (tested : Bool) : Run Unit := do
  let s ← get
  if s.switches.errexit && !tested && s.status ≠ 0 then throw .exit

def inShell (d : Deeper) (step : Run Unit) : Run Unit := do
  match ← Run.outcome step with
  | _ => pure ()
  match (← get).traps.lookup 0 with
  | none => pure ()
  | some action =>
    let status := (← get).status
    modify fun s => { s with traps := s.traps.filter (·.1 ≠ 0) }
    match ← Run.outcome (d.script action) with
    | .error .exit => pure ()
    | _ => Run.setStatus status

def runProgram (run : Task → Outcome) (name : Octets) (arguments : List Octets) : Run Unit := do
  let s ← get
  let handle := (s.descriptors.lookup 0).getD .null
  let o := run
    { name, arguments
      input := s.world.unread handle
      reads := (s.descriptors.lookup 0).isSome
      writes := (s.descriptors.lookup 1).isSome
      disk := s.world.disk }
  modify fun s => { s with
    world := { s.world.readUpTo handle o.unread with disk := o.disk }
    status := o.status }
  let _ ← Run.write 1 o.stdout
  let _ ← Run.write 2 o.stderr

/-- Runs a builtin command. An error ends the shell only if the command is special. -/
def runBuiltin (d : Deeper) (name : String) (isSpecial : Bool) (b : Builtin)
    (arguments : List Octets) : Run Unit := do
  let before := (← get).working
  modify fun s => { s with working := some name }
  let result ← Run.outcome do
    let status ← b d arguments
    Run.setStatus status
  modify fun s => { s with working := before }
  match result with
  | .ok () => pure ()
  | .error .fault => if isSpecial then throw .fault
  | .error stop => throw stop

def callFunction (d : Deeper) (tested : Bool) (body : Command) (arguments : List Octets) :
    Run Unit := do
  let before ← get
  set { before with
    parameters := arguments, optionPlace := {}, loops := 0, locals := [] :: before.locals }
  let result ← Run.outcome (d.run tested body)
  let after ← get
  let restored := (after.locals.headD []).foldl
    (fun (s : State) (name, v) => s.restoreVariable name v) after
  set { restored with
    parameters := before.parameters, optionPlace := before.optionPlace
    loops := before.loops, locals := before.locals }
  match result with
  | .ok () => pure ()
  | .error .return => pure ()
  | .error stop => throw stop

/-- What a name stands for, in words; nothing if it stands for nothing. -/
def describe? (s : State) (name : Octets) : Option String :=
  let text := String.ofList name
  if (keywords.lookup text).isSome then some "a shell keyword"
  else
    match meaning s name with
    | .special _ => some "a special shell builtin"
    | .exec => some "a special shell builtin"
    | .function _ => some "a shell function"
    | .regular _ => some "a shell builtin"
    | .command => some "a shell builtin"
    | .type => some "a shell builtin"
    | .program _ => some (if name.contains '/' then text else "/usr/bin/" ++ text)
    | .shell => some (if name.contains '/' then text else "/usr/bin/" ++ text)
    | .refused _ _ => none

/-- Tells what names stand for. -/
def typeNames : Builtin := fun _ names => do
  let s ← get
  let mut status := 0
  for name in names do
    match describe? s name with
    | some text => let _ ← Run.write 1 (name ++ octets (" is " ++ text ++ "\n"))
    | none =>
      let _ ← Run.write 1 (name ++ octets ": not found\n")
      status := 127
  pure status

/-- Tells how names are found. -/
def findNames : Builtin := fun _ names => do
  let s ← get
  match names with
  | [] => pure 0
  | name :: _ =>
    match describe? s name with
    | none => pure 127
    | some text =>
      let found := if text.toList.head? = some '/' then octets text else name
      Builtin.print "command" (found ++ ['\n'])

/-- Runs the command of some words. -/
def perform (d : Deeper) (tested : Bool) : Nat → Bool → List Octets → Run Unit
  | 0, _, _ => pure ()
  | _ + 1, _, [] => do Run.setStatus (← get).substituted
  | depth + 1, plain, name :: arguments => do
    let s ← get
    let text := String.ofList name
    match meaning (if plain then { s with functions := [] } else s) name with
    | .special b => runBuiltin d text (!plain) b arguments
    | .regular b => runBuiltin d text false b arguments
    | .type => runBuiltin d text false typeNames arguments
    | .function body => callFunction d tested body arguments
    | .program run => runProgram run name arguments
    | .shell => runProgram (d.shell s.exports) name arguments
    | .command =>
      match arguments with
      | [] => Run.setStatus 0
      | ['-', 'v'] :: names => runBuiltin d text false findNames names
      | ['-', 'V'] :: names => runBuiltin d text false typeNames names
      | ['-', 'p'] :: rest => perform d tested depth true rest
      | ['-', '-'] :: rest => perform d tested depth true rest
      | rest => perform d tested depth true rest
    | .exec =>
      match arguments with
      | [] => Run.setStatus 0
      | target :: rest =>
        match meaning { s with functions := [] } target with
        | .program run => runProgram run target rest
        | .shell => runProgram (d.shell s.exports) target rest
        | .refused why status =>
          modify fun s => { s with working := some "exec", status }
          Run.complain (target ++ octets (": " ++ why))
        | _ =>
          match program? (String.ofList (plainName target)) with
          | some run => runProgram run target rest
          | none => runBuiltin d text false (fun d a => do
              match regular? (String.ofList target) with
              | some b => b d a
              | none => pure 127) rest
        throw .exit
    | .refused why status =>
      Run.complain (name ++ octets (": " ++ why))
      Run.setStatus status

/-- Shows a command before it runs. -/
def showCommand (assigned : List (String × Octets)) (words : List Octets) : Run Unit := do
  if (← get).switches.xtrace then
    let texts := assigned.map (fun (name, value) => octets name ++ '=' :: value) ++ words
    let mark := ((← get).valueOf? "PS4").getD (octets "+ ")
    let _ ← Run.write 2 (mark ++ spaced texts ++ ['\n'])

/-- Expands assignments one after the other and carries them out. -/
def assignAll (d : Deeper) (exported : Bool) :
    List (String × Word) → Run (List (String × Octets))
  | [] => pure []
  | (name, w) :: rest => do
    let value ← expandText d w
    Run.assign name value
    if exported then modify fun s => s.modifyVariable name fun v => { v with exported := true }
    pure ((name, value) :: (← assignAll d exported rest))

/-- The words of a command. The arguments of commands that assign are not divided where they do. -/
def commandWords (d : Deeper) : List Word → Run (List Octets)
  | [] => pure []
  | w :: rest => do
    match ← expandWords d [w] with
    | [] => commandWords d rest
    | name :: more =>
      let assigns := ["export", "readonly", "local"].contains (String.ofList name)
      let mut words := name :: more
      for argument in rest do
        if assigns && (assignment? argument).isSome then
          words := words ++ [← expandText d argument]
        else words := words ++ (← expandWords d [argument])
      pure words

/-- Whether a command changes the shell itself, so that its assignments last. -/
def isLasting (s : State) : List Octets → Bool
  | [] => true
  | name :: _ =>
    match meaning s name with
    | .special _ => true
    | .exec => true
    | _ => false

def runSimple (d : Deeper) (tested : Bool) (line : Nat) (assignments : List (String × Word))
    (words : List Word) (redirections : List Redirection) : Run Unit := do
  modify fun s => { s with line, substituted := 0 }
  let words ← commandWords d words
  let targets ← redirectionTargets d redirections
  let before ← get
  let lasting := isLasting before words
  let isSpecial := !words.isEmpty && lasting
  match ← Run.outcome (redirectAll targets) with
  | .error .fault =>
    modify fun s => { s with descriptors := before.descriptors }
    if isSpecial then throw .fault
  | .error stop => throw stop
  | .ok () =>
    let assigned ← assignAll d (!lasting) assignments
    showCommand assigned words
    let result ← Run.outcome (perform d tested (words.length + 1) false words)
    let keepsDescriptors := words == [octets "exec"]
    modify fun s =>
      let s := if keepsDescriptors then s else { s with descriptors := before.descriptors }
      if lasting then s
      else assigned.foldl (fun s (name, _) =>
        s.restoreVariable name (before.vars.lookup name)) s
    match result with
    | .ok () => pure ()
    | .error stop => throw stop
  checkFailure tested

/-- Runs the commands of a pipeline one after the other; each reads what the one before has
written. -/
def runPipeline (d : Deeper) : Option Octets → List Command → Run Unit
  | _, [] => pure ()
  | input, c :: rest => do
    let inner : Run Unit := do
      match input with
      | some text => Run.setSource 0 text
      | none => pure ()
      inShell d (d.run false c)
    match rest with
    | [] => Run.inSubshell inner
    | rest =>
      let (number, world) := (← get).world.addSink
      modify fun s => { s with world }
      Run.inSubshell do
        Run.setHandle 1 (some (.sink number))
        inner
      let text := (← get).world.sinks[number]?.getD []
      runPipeline d (some text) rest

/-- Runs one round of a loop; tells whether there is another one. -/
def round (step : Run Unit) : Run Bool := do
  match ← Run.outcome step with
  | .ok () => pure true
  | .error (.leave (n + 2)) => throw (.leave (n + 1))
  | .error (.leave _) => pure false
  | .error (.again (n + 2)) => throw (.again (n + 1))
  | .error (.again _) => pure true
  | .error stop => throw stop

/-- Runs a loop, at most `count` times; gives the exit status. -/
def runLoop (d : Deeper) (tested isUntil : Bool) (condition body : Command) :
    Nat → Nat → Run Nat
  | 0, status => pure status
  | count + 1, status => do
    let goesOn ← round (d.run true condition)
    if !goesOn then pure status
    else if ((← get).status = 0) = isUntil then pure status
    else
      let goesOn ← round (d.run tested body)
      let status := (← get).status
      if goesOn then runLoop d tested isUntil condition body count status else pure status

/-- Runs a command for each of some words; gives the exit status. -/
def runEach (d : Deeper) (tested : Bool) (name : String) (body : Command) :
    Nat → List Octets → Run Nat
  | status, [] => pure status
  | _, word :: rest => do
    Run.assign name word
    let goesOn ← round (d.run tested body)
    let status := (← get).status
    if goesOn then runEach d tested name body status rest else pure status

/-- Runs the loop with one more loop at work. -/
def inLoop (step : Run Nat) : Run Unit := do
  modify fun s => { s with loops := s.loops + 1 }
  let result ← Run.outcome do
    let status ← step
    Run.setStatus status
  modify fun s => { s with loops := s.loops - 1 }
  match result with
  | .ok () => pure ()
  | .error stop => throw stop

def anyMatches (d : Deeper) (text : Octets) : List Word → Run Bool
  | [] => pure false
  | w :: rest => do
    let pattern := glyphPattern (← d.expand false false (withHome (← get) w))
    if matchesPattern pattern text then pure true else anyMatches d text rest

/-- Runs the first case with a pattern that matches. -/
def runCases (d : Deeper) (tested : Bool) (text : Octets) :
    List (List Word × Command) → Run Unit
  | [] => Run.setStatus 0
  | (patterns, body) :: rest => do
    if ← anyMatches d text patterns then
      Run.setStatus 0
      d.run tested body
    else runCases d tested text rest

def withRedirections (d : Deeper) (line : Nat) (redirections : List Redirection) (step : Run Unit) :
    Run Unit := do
  modify fun s => { s with line }
  let targets ← redirectionTargets d redirections
  let before := (← get).descriptors
  match ← Run.outcome (redirectAll targets) with
  | .error .fault => modify fun s => { s with descriptors := before }
  | .error stop => throw stop
  | .ok () =>
    let result ← Run.outcome step
    modify fun s => { s with descriptors := before }
    match result with
    | .ok () => pure ()
    | .error stop => throw stop

def maxRounds : Nat := 20000

def runCommand (d : Deeper) (tested : Bool) : Command → Run Unit
  | .nothing => pure ()
  | .simple line assignments words redirections =>
    runSimple d tested line assignments words redirections
  | .pipeline parts => do
    runPipeline d none parts
    checkFailure tested
  | .negation c => do
    d.run true c
    Run.setStatus (if (← get).status = 0 then 1 else 0)
  | .andThen first second => do
    d.run true first
    if (← get).status = 0 then d.run tested second
  | .orElse first second => do
    d.run true first
    if (← get).status ≠ 0 then d.run tested second
  | .sequence first second => do
    d.run tested first
    d.run tested second
  | .background c => do
    Run.inSubshell do
      Run.setSource 0 []
      inShell d (d.run false c)
    modify fun s => { s with jobs := s.jobs ++ [s.status], status := 0 }
  | .subshell line c redirections => do
    Run.inSubshell (withRedirections d line redirections (inShell d (d.run tested c)))
    checkFailure tested
  | .redirected line c redirections => withRedirections d line redirections (d.run tested c)
  | .branch condition yes no => do
    d.run true condition
    if (← get).status = 0 then d.run tested yes
    else
      match no with
      | .nothing => Run.setStatus 0
      | no => d.run tested no
  | .loop isUntil condition body =>
    inLoop (runLoop d tested isUntil condition body maxRounds 0)
  | .forEach line name words body => do
    modify fun s => { s with line }
    let words ← expandWords d words
    inLoop (runEach d tested name body 0 words)
  | .choice line w cases => do
    modify fun s => { s with line }
    let text ← expandText d w
    runCases d tested text cases
  | .definition name body => do
    modify fun s => { s with
      functions := (name, body) :: s.functions.filter fun entry => entry.1 ≠ name
      status := 0 }

/-- Runs a script command by command; `count` bounds their number. -/
def runScript (d : Deeper) : Nat → Reader → Run Unit
  | 0, _ => pure ()
  | count + 1, r => do
    match nextCommand r with
    | .error f =>
      modify fun s => { s with line := f.line }
      Run.fault (octets f.text)
    | .ok (none, _) => pure ()
    | .ok (some c, r) =>
      modify fun s => { s with
        documents := r.documents ++ s.documents
        nextDocument := r.nextDocument }
      d.run false c
      runScript d count { r with documents := [] }

/-! ### Shells -/

def initialVariables (exports : List (String × Octets)) : List (String × Variable) :=
  let own : List (String × Variable) :=
    [("IFS", { value := some [' ', '\t', '\n'] }), ("OPTIND", { value := some ['1'] }),
      ("PS1", { value := some (octets "# ") }), ("PS2", { value := some (octets "> ") }),
      ("PS4", { value := some (octets "+ ") })]
  let given := exports.map fun (name, value) =>
    (name, ({ value := some value, exported := true } : Variable))
  own.filter (fun entry => (exports.lookup entry.1).isNone || entry.1 = "IFS") ++ given

/-- Takes the switches of a shell from the front of its arguments: whether a script is among the
arguments, whether one is read, and the rest. -/
def shellArguments : List Octets → Run (Bool × Bool × List Octets)
  | [] => pure (false, false, [])
  | ['-', '-'] :: rest => pure (false, false, rest)
  | ['-'] :: rest => pure (false, false, rest)
  | ['-', 'o'] :: name :: rest => do
    let _ ← Builtin.switchArguments [['-', 'o'], name]
    shellArguments rest
  | (sign :: c :: letters) :: rest =>
    if sign = '-' || sign = '+' then do
      for letter in (c :: letters).filter fun l => l ≠ 'c' && l ≠ 's' do
        let _ ← Builtin.switchArguments [[sign, letter]]
      let (hasScript, reads, rest) ← shellArguments rest
      pure (hasScript || (c :: letters).contains 'c', reads || (c :: letters).contains 's', rest)
    else pure (false, false, (sign :: c :: letters) :: rest)
  | rest => pure (false, false, rest)

def runShell (d : Deeper) (arguments : List Octets) : Run Unit := do
  modify fun s => { s with line := 0 }
  let (hasScript, reads, rest) ← shellArguments arguments
  if hasScript then
    match rest with
    | [] => Run.fault (octets "-c requires an argument")
    | [script] => d.script script
    | script :: name :: parameters =>
      modify fun s => { s with name, parameters }
      d.script script
  else
    match reads, rest with
    | false, name :: parameters =>
      match contents (← get).world.disk name with
      | .ok text =>
        modify fun s => { s with name, parameters }
        d.script text
      | .error "Is a directory" => pure ()
      | .error _ => cannot "open" name "No such file"
    | _, parameters =>
      let s ← get
      let handle := (s.descriptors.lookup 0).getD .null
      let text := s.world.unread handle
      set { s with world := s.world.readUpTo handle [], parameters }
      d.script text

/-- What a shell with a given depth does. -/
def shellOutcome (d : Deeper) (exports : List (String × Octets)) (t : Task) : Outcome :=
  let start : State :=
    { world := { disk := t.disk, sources := [t.input], sinks := [[], []] }
      name := t.name
      parameters := []
      vars := initialVariables exports
      descriptors := (if t.reads then [(0, .source 0)] else [])
        ++ (if t.writes then [(1, .sink 0)] else []) ++ [(2, .sink 1)] }
  let (_, after) := (ExceptT.run (inShell d (runShell d t.arguments))).run start
  { stdout := after.world.sinks[0]?.getD []
    stderr := after.world.sinks[1]?.getD []
    status := after.status % 256
    unread := after.world.sources[0]?.getD []
    disk := after.world.disk }

/-- The shell that can go down a number of levels. -/
def deeper : Nat → Deeper
  | 0 =>
    { run := fun _ _ => throw .exit
      expand := fun _ _ _ => throw .exit
      script := fun _ => throw .exit
      shell := fun _ t => t.start }
  | depth + 1 =>
    let d := deeper depth
    { run := runCommand d
      expand := expandPieces d
      script := fun text => do
        let s ← get
        runScript d (text.length + 2) { rest := text, nextDocument := s.nextDocument }
      shell := shellOutcome d }

/-- How many levels commands may contain each other. -/
def maxDepth : Nat := 1000

/-- What a shell finds set when it is started from outside. -/
def environment : List (String × Octets) :=
  [("HOME", octets "/root"),
    ("PATH", octets "/usr/local/sbin:/usr/local/bin:/usr/sbin:/usr/bin:/sbin:/bin"),
    ("PWD", octets "/")]

end Shell

/-- The shell: runs the script in its arguments, in a file, or the one that it reads. -/
def sh (t : Task) : Outcome :=
  (Shell.deeper Shell.maxDepth).shell Shell.environment t

def ofName? (name : String) : Option (Task → Outcome) :=
  match String.ofList (Shell.plainName name.toList) with
  | "sh" => some sh
  | "dash" => some sh
  | plain => Shell.program? plain

end BulkEdit.Program
