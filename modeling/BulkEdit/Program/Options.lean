import BulkEdit.Program.Basic

/-!
# Options of programs

Options stand among the arguments of a program: letters behind one hyphen, several at once, and
words behind two, which may be cut short as long as only one word is meant.
-/

namespace BulkEdit.Program

/-- The options of a program: letters, those of them that take a value, and words for letters. -/
structure OptionTable where
  /-- The name that complaints begin with. -/
  program : Octets
  letters : List Char
  valued : List Char := []
  words : List (String × Char) := []
  /-- Whether options may stand behind operands. -/
  anywhere : Bool := true

/-- Options in their order with their values, and the operands. -/
structure Options where
  given : List (Char × Octets) := []
  operands : List Octets := []

namespace Options

def has (o : Options) (letter : Char) : Bool :=
  o.given.any (·.1 = letter)

/-- The last value of an option. -/
def value? (o : Options) (letter : Char) : Option Octets :=
  (o.given.reverse.find? (·.1 = letter)).map Prod.snd

end Options

namespace OptionTable

/-- The beginning of a complaint. -/
def complaint (t : OptionTable) (text : Octets) : Octets :=
  t.program ++ ": ".toList ++ text

def hint (t : OptionTable) : Octets :=
  octets "Try '" ++ t.program ++ octets " --help' for more information.\n"

def misuse (t : OptionTable) (text : Octets) : Octets :=
  t.complaint text ++ '\n' :: t.hint

/-- The options of one cluster of letters; the rest of the cluster or the next argument is the value
of a letter that takes one. -/
def cluster (t : OptionTable) : Octets → List Octets →
    Except Octets (List (Char × Octets) × List Octets)
  | [], rest => .ok ([], rest)
  | letter :: more, rest =>
    if t.valued.contains letter then
      match more, rest with
      | [], value :: rest => .ok ([(letter, value)], rest)
      | [], [] =>
        .error (t.misuse (octets "option requires an argument -- '" ++ [letter, '\'']))
      | value, rest => .ok ([(letter, value)], rest)
    else if t.letters.contains letter then
      match t.cluster more rest with
      | .ok (given, rest) => .ok ((letter, []) :: given, rest)
      | .error e => .error e
    else .error (t.misuse (octets "invalid option -- '" ++ [letter, '\'']))

def word (t : OptionTable) (text : Octets) (rest : List Octets) :
    Except Octets (List (Char × Octets) × List Octets) :=
  let name := text.takeWhile (· ≠ '=')
  let value? := if name.length < text.length then some (text.drop (name.length + 1)) else none
  let matching := t.words.filter fun w => name.isPrefixOf w.1.toList
  let exact := matching.filter fun w => w.1.toList = name
  let letters := (matching.map Prod.snd).eraseDups
  let quoted (s : Octets) : Octets := "'--".toList ++ s ++ ['\'']
  match (if exact.isEmpty then matching else exact) with
  | [] => .error (t.misuse (octets "unrecognized option " ++ quoted text))
  | (full, letter) :: _ =>
    if exact.isEmpty && 1 < letters.length then
      .error (t.misuse (octets "option " ++ quoted text ++ octets " is ambiguous; possibilities:"
        ++ matching.flatMap fun w => ' ' :: quoted w.1.toList))
    else if t.valued.contains letter then
      match value?, rest with
      | some value, rest => .ok ([(letter, value)], rest)
      | none, value :: rest => .ok ([(letter, value)], rest)
      | none, [] =>
        .error (t.misuse (octets "option " ++ quoted full.toList ++ octets " requires an argument"))
    else
      match value? with
      | some _ =>
        .error (t.misuse (octets "option " ++ quoted full.toList
          ++ octets " doesn't allow an argument"))
      | none => .ok ([(letter, [])], rest)

/-- Sorts arguments into options and operands; `count` bounds their number. -/
def sortFrom (t : OptionTable) : Nat → List Octets → Except Octets Options
  | 0, _ => .ok {}
  | _ + 1, [] => .ok {}
  | count + 1, argument :: rest =>
    let goOn (found : Except Octets (List (Char × Octets) × List Octets)) : Except Octets Options :=
      match found with
      | .error e => .error e
      | .ok (given, rest) =>
        match t.sortFrom count rest with
        | .ok o => .ok { o with given := given ++ o.given }
        | .error e => .error e
    match argument with
    | ['-', '-'] => .ok { operands := rest }
    | '-' :: '-' :: text => goOn (t.word text rest)
    | '-' :: c :: letters => goOn (t.cluster (c :: letters) rest)
    | operand =>
      if t.anywhere then
        match t.sortFrom count rest with
        | .ok o => .ok { o with operands := operand :: o.operands }
        | .error e => .error e
      else .ok { operands := operand :: rest }

/-- Sorts arguments into options and operands, or gives the complaint about them. -/
def sort (t : OptionTable) (arguments : List Octets) : Except Octets Options :=
  t.sortFrom arguments.length arguments

end OptionTable

end BulkEdit.Program
