import BulkEdit.Json.Bits
import BulkEdit.Json.Printer
import BulkEdit.Text.Search
import BulkEdit.Worker.Transform

/-!
# Transforms written as rules

The first rule whose suffix the path ends with applies: it does some actions in order and then
returns.
-/

namespace BulkEdit.Script

/-- What a rule does before it returns. -/
inductive Action where
  | console (kind : ConsoleKind) (message : String)
  | create (path : Path) (data : String)
  /-- Writes all that the transform was given to the console. -/
  | inspect
deriving DecidableEq, Repr

/-- How a rule returns. -/
inductive Reply where
  | append (text : String)
  | prepend (text : String)
  | replace (old new : String)
  | fail (message : String)
  | panic (message : String)
  | hang
  /-- Returns the argument of that name; of a number, only that it is one. -/
  | argument (name : String)
  | value (v : Json)
  | nothing
deriving Repr

/-- What is done with the files whose paths end in the suffix. -/
structure TransformRule where
  suffix : String
  actions : List Action
  reply : Reply
deriving Repr

/-- All that a transform is given, as a JSON object. -/
def inspection (a : Assignment) : Json :=
  .obj [("path", .str a.path.text), ("source", .str a.source), ("engine", a.engine.toJson),
    ("name", .str a.codemodName), ("arguments", a.arguments.toJson.withBits)]

def Action.perform (a : Assignment) (e : Execution) : Action → Execution
  | console kind message => { e with console := e.console ++ [(kind, message)] }
  | create path data => { e with created := e.created ++ [(path, data)] }
  | inspect => { e with console := e.console ++ [(.log, (inspection a).sortedText)] }

def Reply.ending (a : Assignment) : Reply → Ending
  | append text => .returned (some (.str (a.source ++ text)))
  | prepend text => .returned (some (.str (text ++ a.source)))
  | replace old new => .returned (some (.str (Text.replaceAll a.source old new)))
  | fail message => .failed (.execution message)
  | panic message => .failed (.panicked message)
  | hang => .hangs
  | argument name =>
    .returned ((a.arguments.get? name).map fun
      | .boolean b => .bool b
      | .number _ => .int 0
      | .text s => .str s)
  | value v => .returned (some v)
  | nothing => .returned none

def transform (rules : List TransformRule) : Transform := fun a =>
  match rules.find? fun rule => Text.endsWith a.path.text rule.suffix with
  | none => { ending := .returned none }
  | some rule =>
    let done := rule.actions.foldl (Action.perform a) { ending := .returned none }
    { done with ending := rule.reply.ending a }

end BulkEdit.Script
