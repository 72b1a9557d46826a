import BulkEdit.Filemod.Command
import BulkEdit.Overlay.Basic
import BulkEdit.Settings.Argument

/-!
# Filemods

A filemod is a codemod for a whole tree, given as a handful of hooks, each with a default. Hooks may
ask about the tree as it is with all changes made so far, but change it only by the commands they
give.
-/

namespace BulkEdit

/-- A question about the tree. -/
inductive Query where
  | root
  | content (path : Path)
  | children (path : Path)
  | isDirectory (path : Path)
  | contains (path : Path)
  | select (included excluded : List String)
deriving DecidableEq, Repr

abbrev Query.Answer : Query → Type
  | root => Path
  | content _ => Except OverlayError String
  | children _ => List Path
  | isDirectory _ => Bool
  | contains _ => Bool
  | select _ _ => Except String (List Path)

/-- What a hook does: it asks, goes on with the answers, and in the end gives a value or breaks
down. -/
inductive Inquiry (α : Type) where
  | done (a : α)
  | ask (q : Query) (next : q.Answer → Inquiry α)
  | crash

namespace Inquiry

/-- Goes on with the value of an inquiry. -/
def bind {α β : Type} (i : Inquiry α) (f : α → Inquiry β) : Inquiry β :=
  match i with
  | done a => f a
  | ask q next => ask q fun answer => (next answer).bind f
  | crash => crash

/-- Asks the questions in order, goes on whatever the answers are. -/
def askAll {α : Type} (queries : List Query) (i : Inquiry α) : Inquiry α :=
  queries.foldr (fun q rest => ask q fun _ => rest) i

end Inquiry

/-- The state that a filemod carries through a pass and from one pass to the next. -/
abbrev FilemodState := Option Json

/-- A codemod for a whole tree. -/
structure Filemod where
  /-- The files it is meant for, if it says so. -/
  included : Option (List String) := none
  excluded : List String := []
  /-- Makes the state of a pass from that of the pass before. -/
  init : (previous : FilemodState) → (paths : Option (List Path)) → ArgumentRecord →
      Inquiry (Except String FilemodState) :=
    fun previous _ _ => .done (.ok previous)
  /-- Handles a folder; nothing means that there is no handler for it. -/
  directory : Path → ArgumentRecord → FilemodState →
      Inquiry (Option (Except String (List FilemodCommand))) :=
    fun _ _ _ => .done none
  /-- Handles a file. -/
  file : Path → ArgumentRecord → FilemodState → Inquiry (Except String (List FilemodCommand)) :=
    fun path _ _ => .done (.ok [.upsertFile path])
  /-- Handles the content of a file. -/
  data : Path → String → ArgumentRecord → FilemodState → Inquiry (Except String FilemodCommand) :=
    fun _ _ _ _ => .done (.ok .noop)
  /-- Says whether another pass is wanted. -/
  finish : ArgumentRecord → FilemodState → Except String FinishCommand :=
    fun _ _ => .ok .noop

end BulkEdit
