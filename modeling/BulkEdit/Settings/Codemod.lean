import BulkEdit.Json.Reader
import BulkEdit.Path.Route
import BulkEdit.Settings.Argument

/-!
# Descriptors of codemods

A codemod names its engine and its entry; a recipe also lists the codemods it is made of. Recipes
are one level deep: no step of a recipe is itself a recipe, and nothing else has steps.
-/

namespace BulkEdit

/-- A codemod: what runs it, where its code is, and what it declares. -/
structure Codemod where
  name : Option String := none
  engine : Engine
  entryPath : Path := ⟨""⟩
  included : Option (List String) := none
  arguments : List ArgumentDefinition := []
deriving DecidableEq, Repr

/-- A codemod with its steps, which only a recipe has. -/
structure Descriptor extends Codemod where
  steps : List Codemod := []
deriving DecidableEq, Repr

/-- The name shown for a codemod: its own, else its file's, else its engine's. -/
def Codemod.displayName (c : Codemod) : String :=
  match c.name with
  | some name => name
  | none => c.entryPath.fileName?.getD c.engine.name

namespace Descriptor

/-- The rule for steps: none of them is a recipe, and only a recipe has any. -/
def WellFormed (d : Descriptor) : Prop :=
  (d.steps ≠ [] → d.engine = .recipe) ∧ ∀ step ∈ d.steps, step.engine ≠ .recipe

/-- Checks a codemod together with its steps. -/
def assemble (c : Codemod) (steps : List Codemod) : Except StepsError Descriptor :=
  if c.engine = .recipe then
    match steps.find? fun step => step.engine = .recipe with
    | some nested => .error (.nestedRecipe (c.name.getD "recipe") nested.displayName)
    | none => .ok { c with steps }
  else if steps = [] then .ok { c with steps }
  else .error (.unexpectedChildren c.engine)

def single (engine : Engine) (entryPath : Path) : Descriptor :=
  { engine, entryPath }

def recipe (name : Option String) (steps : List Codemod) : Except StepsError Descriptor :=
  assemble { name, engine := .recipe } steps

def withName (d : Descriptor) (name : String) : Descriptor :=
  { d with name := some name }

def withIncluded (d : Descriptor) (patterns : List String) : Descriptor :=
  { d with included := some patterns }

def withArguments (d : Descriptor) (arguments : List ArgumentDefinition) : Descriptor :=
  { d with arguments }

/-! ### JSON form -/

/-- Why a JSON value is no descriptor: its form, or the rule for steps. -/
inductive Refusal where
  | form
  | rule (e : StepsError)
deriving DecidableEq, Repr

/-- The parts of a descriptor read so far. -/
structure Draft where
  name : Option (Option String) := none
  engine : Option Engine := none
  entryPath : Option Path := none
  included : Option (Option (List String)) := none
  arguments : Option (List ArgumentDefinition) := none
  steps : Option (List Codemod) := none

namespace Draft

def finish (draft : Draft) : Except Refusal Descriptor :=
  match draft.engine with
  | none => .error .form
  | some engine =>
    let codemod : Codemod := {
      name := draft.name.getD none
      engine
      entryPath := draft.entryPath.getD ⟨""⟩
      included := draft.included.getD none
      arguments := draft.arguments.getD [] }
    (assemble codemod (draft.steps.getD [])).mapError .rule

/-- Fills a part that is still empty with what the value gives. -/
def fill {α : Type} (part : Option α) (value : Option α) (set : α → Draft) :
    Except Refusal Draft :=
  match part, value with
  | none, some a => .ok (set a)
  | _, _ => .error .form

/-- Takes in a member other than the steps. -/
def take (draft : Draft) (name : String) (value : Json) : Except Refusal Draft :=
  match name with
  | "name" =>
    fill draft.name (Json.nullable? Json.text? value) fun a => { draft with name := some a }
  | "engine" =>
    fill draft.engine (Engine.ofJson? value) fun a => { draft with engine := some a }
  | "entryPath" =>
    fill draft.entryPath (value.text?.map Path.mk) fun a => { draft with entryPath := some a }
  | "include" =>
    fill draft.included (Json.nullable? (Json.list? Json.text?) value) fun a =>
      { draft with included := some a }
  | "arguments" =>
    fill draft.arguments (Json.list? ArgumentDefinition.ofJson? value) fun a =>
      { draft with arguments := some a }
  | _ => if value.isWhole then .ok draft else .error .form

end Draft

/-- The fields of a descriptor in the order in which an array gives them. -/
def fields : List String :=
  ["name", "engine", "entryPath", "include", "arguments", "codemods"]

mutual

/-- Reads a descriptor. The first fault in the order of the text decides, and the rule for steps is
checked where a descriptor ends. -/
def ofJson : Json → Except Refusal Descriptor
  | .obj members =>
    match ofMembers {} members with
    | .ok draft => draft.finish
    | .error e => .error e
  | .arr items =>
    match ofFields {} fields items with
    | .ok draft => draft.finish
    | .error e => .error e
  -- what stands before a fault may be refused first
  | .partly (.obj members) _ =>
    match ofMembers {} members with
    | .ok _ => .error .form
    | .error e => .error e
  | .partly (.arr items) _ =>
    match ofFields {} fields items with
    | .ok _ => .error .form
    | .error e => .error e
  | _ => .error .form

def ofMembers (draft : Draft) : List (String × Json) → Except Refusal Draft
  | [] => .ok draft
  | (name, value) :: rest =>
    match ofMember draft name value with
    | .ok draft => ofMembers draft rest
    | .error e => .error e

/-- Takes in the items of an array as the fields in order. -/
def ofFields (draft : Draft) : List String → List Json → Except Refusal Draft
  | _, [] => .ok draft
  | [], _ :: _ => .error .form
  | name :: names, value :: rest =>
    match ofMember draft name value with
    | .ok draft => ofFields draft names rest
    | .error e => .error e

def ofMember (draft : Draft) (name : String) (value : Json) : Except Refusal Draft :=
  if name = "codemods" then
    match draft.steps, value with
    | none, .arr items =>
      match ofSteps items with
      | .ok steps => .ok { draft with steps := some steps }
      | .error e => .error e
    | none, .partly (.arr items) _ =>
      match ofSteps items with
      | .ok _ => .error .form
      | .error e => .error e
    | _, _ => .error .form
  else draft.take name value

/-- Reads the steps in order. Steps of a step are refused before they could be kept. -/
def ofSteps : List Json → Except Refusal (List Codemod)
  | [] => .ok []
  | item :: rest =>
    match ofJson item with
    | .error e => .error e
    | .ok d =>
      match ofSteps rest with
      | .error e => .error e
      | .ok steps => .ok (d.toCodemod :: steps)

end

/-- Reads the text of a descriptor. What is wrong first decides, also before a fault of the text. -/
def parse (text : String) : Except ConfigError Descriptor :=
  let (value, isAll) := Json.parsePartly text
  match ofJson value with
  | .ok d => if isAll then .ok d else .error (.descriptor none)
  | .error .form => .error (.descriptor none)
  | .error (.rule e) => .error (.descriptor (some e))

/-- The members that write a codemod, with its steps written already. -/
def members (c : Codemod) (steps : List Json) : List (String × Json) :=
  [("name", Json.ofOption .str c.name), ("engine", c.engine.toJson),
    ("entryPath", .str c.entryPath.text), ("include", Json.ofOption Json.ofTexts c.included),
    ("arguments", .arr (c.arguments.map ArgumentDefinition.toJson)), ("codemods", .arr steps)]

def toJson (d : Descriptor) : Json :=
  .obj (members d.toCodemod (d.steps.map fun step => .obj (members step [])))

end Descriptor

end BulkEdit
