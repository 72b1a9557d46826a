import BulkEdit.Program.Options

/-!
# Copying files

`cat` copies files one after the other. On demand it numbers lines, leaves out repeated empty lines
and shows what cannot be seen.
-/

namespace BulkEdit.Program.Cat

/-- What is done to the copied bytes. -/
structure Style where
  /-- Lines get numbers. -/
  numbers : Bool := false
  /-- Only lines that are not empty get numbers. -/
  numbersFilled : Bool := false
  /-- Of several empty lines in a row one is kept. -/
  squeezes : Bool := false
  /-- Line ends are shown. -/
  showsEnds : Bool := false
  /-- Tabs are shown. -/
  showsTabs : Bool := false
  /-- Bytes that are no graphic characters are shown. -/
  showsHidden : Bool := false
deriving DecidableEq, Repr

def Style.withOption (s : Style) (letter : Char) : Style :=
  match letter with
  | 'A' => { s with showsHidden := true, showsEnds := true, showsTabs := true }
  | 'b' => { s with numbers := true, numbersFilled := true }
  | 'e' => { s with showsHidden := true, showsEnds := true }
  | 'E' => { s with showsEnds := true }
  | 'n' => { s with numbers := true }
  | 's' => { s with squeezes := true }
  | 't' => { s with showsHidden := true, showsTabs := true }
  | 'T' => { s with showsTabs := true }
  | 'v' => { s with showsHidden := true }
  | _ => s

/-- The options of the program, by the name it was called. -/
def options (program : Octets) : OptionTable where
  program
  letters := "AbeEnstTuv".toList
  words := [("number-nonblank", 'b'), ("number", 'n'), ("squeeze-blank", 's'),
    ("show-nonprinting", 'v'), ("show-ends", 'E'), ("show-tabs", 'T'), ("show-all", 'A')]

/-- The number of a line, in a column of six. -/
def numberText (n : Nat) : Octets :=
  let digits := Nat.toDigits 10 n
  List.replicate (6 - digits.length) ' ' ++ digits ++ ['\t']

/-- A byte below 128 as it is shown. -/
def lowText (c : Char) : Octets :=
  if c.toNat < 32 then ['^', Char.ofNat (c.toNat + 64)]
  else if c.toNat = 127 then ['^', '?']
  else [c]

def byteText (s : Style) (c : Char) : Octets :=
  if c = '\t' then (if s.showsTabs then ['^', 'I'] else ['\t'])
  else if !s.showsHidden then [c]
  else if c.toNat < 128 then lowText c
  else 'M' :: '-' :: lowText (Char.ofNat (c.toNat - 128))

/-- Where in the lines the copying is. -/
inductive Position where
  /-- Inside a line. -/
  | inside
  /-- At the beginning of a line, after so many empty lines. -/
  | fresh (empty : Nat)
deriving DecidableEq, Repr

/-- Copies bytes in a style; `count` lines have been numbered. -/
def copy (s : Style) : Position → Nat → Octets → Octets
  | _, _, [] => []
  | position, count, '\n' :: rest =>
    let stop := (if s.showsEnds then ['$'] else []) ++ ['\n']
    match position with
    | .inside => stop ++ copy s (.fresh 0) count rest
    | .fresh empty =>
      if s.squeezes && 1 ≤ empty then copy s (.fresh (empty + 1)) count rest
      else if s.numbers && !s.numbersFilled then
        numberText (count + 1) ++ stop ++ copy s (.fresh (empty + 1)) (count + 1) rest
      else stop ++ copy s (.fresh (empty + 1)) count rest
  | position, count, c :: rest =>
    let numbered := s.numbers && position != .inside
    let count := if numbered then count + 1 else count
    let text := if c = '\r' && s.showsEnds && rest.head? == some '\n' then ['^', 'M']
      else byteText s c
    (if numbered then numberText count else []) ++ text ++ copy s .inside count rest

/-- The bytes of one operand, added to those before it. -/
def gather (t : Task) (o : Outcome) (name : Octets) : Outcome :=
  if isInputName name then
    if t.reads then { o with stdout := o.stdout ++ o.unread, unread := [] }
    else o.complain (t.complaint (quotedName name ++ octets (": " ++ Task.closedText)))
  else
    match contents o.disk name with
    | .ok text => { o with stdout := o.stdout ++ text }
    | .error e => o.complain (t.complaint (quotedName name ++ octets (": " ++ e)))

end Cat

/-- Copies the files that it is given, or what it reads. -/
def cat (t : Task) : Outcome :=
  match (Cat.options t.name).sort t.arguments with
  | .error complaint => t.fail 1 complaint
  | .ok o =>
    if !t.writes then t.fail 1 (t.complaint (octets ("standard output: " ++ Task.closedText)))
    else
      let style := o.given.foldl (fun s (letter, _) => Cat.Style.withOption s letter) {}
      let names := if o.operands.isEmpty then [['-']] else o.operands
      let all := names.foldl (Cat.gather t) t.start
      let all := if t.reads || !names.any isInputName then all
        else all.complain (t.complaint (octets ("closing standard input: " ++ Task.closedText)))
      { all with stdout := Cat.copy style (.fresh 0) 0 all.stdout }

end BulkEdit.Program
