import BulkEdit.Number.Literal
import BulkEdit.Program.Shell.Reader

/-!
# A shell at work

What a shell knows, what is open in it, and how a step of it may end. What a subshell changes of the
world stays; what it changes of itself does not.
-/

namespace BulkEdit.Program.Shell

/-- Where a descriptor leads. -/
inductive Handle where
  /-- Bytes to be read, by number. -/
  | source (number : Nat)
  /-- Bytes that have been written, by number. -/
  | sink (number : Nat)
  /-- The end of a file. -/
  | file (path : Path)
  | null
deriving DecidableEq, Repr

/-- What all shells and programs share. -/
structure World where
  disk : Disk := .fresh
  sources : List Octets := []
  sinks : List Octets := []

structure Variable where
  value : Option Octets := none
  exported : Bool := false
  readOnly : Bool := false
deriving DecidableEq, Repr

/-- What a shell can be told to do differently. -/
structure Switches where
  /-- A command that fails ends the shell. -/
  errexit : Bool := false
  /-- A parameter without a value is an error. -/
  nounset : Bool := false
  /-- Commands are shown before they run. -/
  xtrace : Bool := false
  /-- Further letters, which change nothing here. -/
  others : Octets := []
deriving DecidableEq, Repr

/-- How far `getopts` has come: the number of the next parameter, and how many bytes of the one before
have been taken; none if that one is done with. -/
structure OptionPlace where
  index : Nat := 1
  taken : Nat := 0
deriving DecidableEq, Repr

structure State where
  world : World
  name : Octets
  parameters : List Octets
  vars : List (String × Variable)
  functions : List (String × Command) := []
  descriptors : List (Nat × Handle)
  /-- The texts in scripts that have been read so far. -/
  documents : List (Nat × Word) := []
  nextDocument : Nat := 0
  /-- The exit status of the last command. -/
  status : Nat := 0
  /-- The exit status of the last command whose output was used in the current one. -/
  substituted : Nat := 0
  line : Nat := 1
  /-- The command of the shell itself that is at work, as complaints name it. -/
  working : Option String := none
  switches : Switches := {}
  /-- What is done when signals come, by their numbers; that of the end is zero. -/
  traps : List (Nat × Octets) := []
  /-- The variables that functions at work have made local, with what they were before; innermost
  first. -/
  locals : List (List (String × Option Variable)) := []
  /-- How many loops are at work. -/
  loops : Nat := 0
  /-- How far options have been taken from the parameters. -/
  optionPlace : OptionPlace := {}
  /-- The exit statuses of commands in the background. -/
  jobs : List Nat := []

/-- How a step may end early. -/
inductive Stop where
  /-- The shell ends. -/
  | exit
  /-- The shell ends because of an error. -/
  | fault
  /-- So many loops end. -/
  | leave (count : Nat)
  /-- So many loops but one end, and that one goes on. -/
  | again (count : Nat)
  /-- A function ends. -/
  | return
deriving DecidableEq, Repr

/-- A step of a shell. -/
abbrev Run := ExceptT Stop (StateM State)

/-! ### Parameters -/

namespace State

def valueOf? (s : State) (name : String) : Option Octets :=
  (s.vars.lookup name).bind Variable.value

/-- The bytes that divide words. -/
def separators (s : State) : Octets :=
  (s.valueOf? "IFS").getD [' ', '\t', '\n']

/-- The letters of the switches that are on. -/
def letters (s : State) : Octets :=
  (if s.switches.errexit then ['e'] else []) ++ (if s.switches.nounset then ['u'] else [])
    ++ (if s.switches.xtrace then ['x'] else []) ++ s.switches.others

def number (n : Nat) : Octets :=
  Nat.toDigits 10 n

def parameter? (s : State) (name : String) : Option Octets :=
  match name.toList with
  | ['?'] => some (number s.status)
  | ['#'] => some (number s.parameters.length)
  | ['$'] => some (number 2)
  | ['-'] => some s.letters
  | ['!'] => if s.jobs.isEmpty then none else some (number (s.jobs.length + 2))
  | c :: rest =>
    if c.isDigit then
      match (c :: rest).foldl (fun n d => 10 * n + (d.toNat - 48)) 0 with
      | 0 => some s.name
      | n + 1 => s.parameters[n]?
    else s.valueOf? name
  | [] => none

def modifyVariable (s : State) (name : String) (f : Variable → Variable) : State :=
  match s.vars.lookup name with
  | some _ => { s with vars := s.vars.map fun (n, v) => (n, if n = name then f v else v) }
  | none => { s with vars := s.vars ++ [(name, f {})] }

/-- The shell with a variable put back to what it was. -/
def restoreVariable (s : State) (name : String) (before : Option Variable) : State :=
  match before with
  | some v => s.modifyVariable name fun _ => v
  | none => { s with vars := s.vars.filter fun entry => entry.1 ≠ name }

/-- The variables that programs are told of. -/
def exports (s : State) : List (String × Octets) :=
  s.vars.filterMap fun (name, v) =>
    if v.exported then v.value.map fun value => (name, value) else none

end State

/-! ### Reading and writing -/

namespace World

/-- The world with one more thing to read, and its number. -/
def addSource (w : World) (text : Octets) : Nat × World :=
  (w.sources.length, { w with sources := w.sources ++ [text] })

/-- The world with one more place to write to, and its number. -/
def addSink (w : World) : Nat × World :=
  (w.sinks.length, { w with sinks := w.sinks ++ [[]] })

def write (w : World) (h : Handle) (text : Octets) : World :=
  match h with
  | .sink n => { w with sinks := w.sinks.modify n (· ++ text) }
  | .file p =>
    match w.disk.look p with
    | .ok (place, .file before) =>
      { w with disk := w.disk.store place (before ++ bytesOf text) }
    | _ => w
  | _ => w

/-- What can be read from a handle. -/
def unread (w : World) (h : Handle) : Octets :=
  match h with
  | .source n => w.sources[n]?.getD []
  | _ => []

/-- The world with a handle read up to a rest. -/
def readUpTo (w : World) (h : Handle) (rest : Octets) : World :=
  match h with
  | .source n => { w with sources := w.sources.set n rest }
  | _ => w

end World

namespace Run

/-- Writes to a descriptor; tells whether it is open. -/
def write (descriptor : Nat) (text : Octets) : Run Bool := do
  match (← get).descriptors.lookup descriptor with
  | some h =>
    modify fun s => { s with world := s.world.write h text }
    pure true
  | none => pure false

def complain (text : Octets) : Run Unit := do
  let s ← get
  let place := s.name ++ ": ".toList ++ State.number s.line ++ ": ".toList
  let working := match s.working with
    | some name => octets name ++ ": ".toList
    | none => []
  let _ ← write 2 (place ++ working ++ text ++ ['\n'])

def fault {α : Type} (text : Octets) : Run α := do
  complain text
  modify fun s => { s with status := 2 }
  throw .fault

def setStatus (status : Nat) : Run Unit :=
  modify fun s => { s with status }

def assign (name : String) (value : Octets) : Run Unit := do
  let before := ((← get).vars.lookup name).getD {}
  if before.readOnly then fault (octets name ++ octets ": is read only")
  else modify fun s =>
    { s.modifyVariable name fun v => { v with value := some value } with
      optionPlace := if name = "OPTIND" then { index := max 1 (Number.digitsValue value) }
        else s.optionPlace }

/-- Runs a step and gives how it ended. -/
def outcome (step : Run Unit) : Run (Except Stop Unit) := do
  let s ← get
  let (result, after) := (ExceptT.run step).run s
  set after
  pure result

def inSubshell (step : Run Unit) : Run Unit := do
  let s ← get
  let (_, after) := (ExceptT.run step).run { s with traps := [], jobs := [] }
  set { s with world := after.world, status := after.status, documents := after.documents
               nextDocument := after.nextDocument }

end Run

end BulkEdit.Program.Shell
