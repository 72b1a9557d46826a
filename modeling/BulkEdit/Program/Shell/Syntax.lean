import BulkEdit.Program.Basic

/-!
# Shell scripts as trees

Words made of pieces, redirections, and commands.
-/

namespace BulkEdit.Program.Shell

/-- What is taken of a parameter. With `orNull`, a value without bytes counts as none. -/
inductive Operation where
  /-- The value. -/
  | value
  /-- How long the value is. -/
  | length
  /-- The word, unless there is a value. -/
  | default (orNull : Bool)
  /-- The word, which becomes the value unless there is one. -/
  | assign (orNull : Bool)
  /-- The value; without one, the word is a complaint. -/
  | demand (orNull : Bool)
  /-- The word, if there is a value. -/
  | alternative (orNull : Bool)
  /-- The value without what the word matches at its beginning or end. -/
  | trim (atFront longest : Bool)
  /-- Something that is not known. -/
  | unknown
deriving DecidableEq, Repr

/-- How a redirection uses its target. -/
inductive Direction where
  | read
  | write
  | append
  | readWrite
  /-- The target is another descriptor. -/
  | duplicate
  /-- The target is a text in the script, which is known by its number. -/
  | document (number : Nat)
deriving DecidableEq, Repr

mutual

inductive Piece where
  | char (c : Char) (quoted : Bool)
  /-- Quotes, which keep a word even if there is nothing in them. -/
  | mark
  | parameter (name : String) (operation : Operation) (word : List Piece) (quoted : Bool)
  /-- The output of a command. -/
  | output (command : Command) (quoted : Bool)
  /-- The value of an arithmetic expression. -/
  | arithmetic (expression : List Piece) (quoted : Bool)

inductive Redirection where
  | mk (descriptor : Nat) (direction : Direction) (target : List Piece)

/-- A command. Those that can be complained about know their line. -/
inductive Command where
  | nothing
  | simple (line : Nat) (assignments : List (String × List Piece)) (words : List (List Piece))
      (redirections : List Redirection)
  | pipeline (parts : List Command)
  | negation (command : Command)
  /-- The second command runs if the first one succeeds. -/
  | andThen (first second : Command)
  /-- The second command runs if the first one fails. -/
  | orElse (first second : Command)
  | sequence (first second : Command)
  | background (command : Command)
  | subshell (line : Nat) (command : Command) (redirections : List Redirection)
  | redirected (line : Nat) (command : Command) (redirections : List Redirection)
  | branch (condition yes no : Command)
  /-- The body runs as long as the condition succeeds, or fails if `isUntil` says so. -/
  | loop (isUntil : Bool) (condition body : Command)
  | forEach (line : Nat) (name : String) (words : List (List Piece)) (body : Command)
  | choice (line : Nat) (word : List Piece) (cases : List (List (List Piece) × Command))
  | definition (name : String) (body : Command)

end

instance : Inhabited Command := ⟨.nothing⟩

abbrev Word := List Piece

def isNameStart (c : Char) : Bool :=
  c.isAlpha || c = '_'

def isNameChar (c : Char) : Bool :=
  c.isAlphanum || c = '_'

def isName (text : Octets) : Bool :=
  match text with
  | [] => false
  | c :: rest => isNameStart c && rest.all isNameChar

/-- Characters that name a parameter of the shell itself. -/
def isSpecial (c : Char) : Bool :=
  c.isDigit || "!#$*-?@".toList.contains c

/-- The text of a word in which nothing is quoted or replaced. -/
def bareText? : Word → Option Octets
  | [] => some []
  | .char c false :: rest => (bareText? rest).map (c :: ·)
  | _ => none

def assignment? (word : Word) : Option (String × Word) :=
  go [] word
where
  /-- Looks for the sign behind the name, whose characters are held in reverse. -/
  go (held : Octets) : Word → Option (String × Word)
    | .char '=' false :: rest =>
      if isName held.reverse then some (String.ofList held.reverse, rest) else none
    | .char c false :: rest => go (c :: held) rest
    | _ => none

end BulkEdit.Program.Shell
