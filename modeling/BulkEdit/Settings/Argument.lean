import BulkEdit.Number.Literal
import BulkEdit.Settings.Error
import BulkEdit.Text.Blank
import BulkEdit.Text.Search

/-!
# Arguments of codemods

What a codemod declares, what the user gives as text, and the record of typed values that the
codemod receives.
-/

namespace BulkEdit

/-- What values an argument admits. -/
inductive ArgumentKind where
  | text
  | number
  | boolean
  | choice (options : List String)
deriving DecidableEq, Repr

inductive ArgumentValue where
  | boolean (value : Bool)
  | number (value : Double)
  | text (value : String)
deriving DecidableEq, Repr

/-- An argument as a codemod declares it. -/
structure ArgumentDefinition where
  name : String
  kind : ArgumentKind
  required : Bool
  fallback : Option ArgumentValue
deriving DecidableEq, Repr

/-- Argument values by name, in the order of the names. -/
abbrev ArgumentRecord := List (String × ArgumentValue)

namespace ArgumentRecord

def insert (record : ArgumentRecord) (name : String) (value : ArgumentValue) : ArgumentRecord :=
  Json.sortMembers.insert record (name, value)

def get? (record : ArgumentRecord) (name : String) : Option ArgumentValue :=
  (record.find? fun entry => entry.1 == name).map Prod.snd

end ArgumentRecord

namespace ArgumentKind

/-- The value that a text stands for under this kind, or what is wrong with it. -/
def read (kind : ArgumentKind) (raw : String) : Except String ArgumentValue :=
  match kind with
  | text => .ok (.text raw)
  | number =>
    match Number.literal (Text.trim raw) with
    | .ok d => .ok (.number d)
    | .error e => .error e.message
  | boolean =>
    let word := Text.lowerAscii (Text.trim raw)
    if word = "true" ∨ word = "1" ∨ word = "yes" then .ok (.boolean true)
    else if word = "false" ∨ word = "0" ∨ word = "no" then .ok (.boolean false)
    else .error ("expected a boolean, got \"" ++ word ++ "\"")
  | choice options =>
    if options.contains raw then .ok (.text raw)
    else
      .error ("expected one of [" ++ ", ".intercalate options ++ "], got \"" ++ raw ++ "\"")

end ArgumentKind

namespace ArgumentDefinition

/-- The value of an argument: what the user gave, else its default; nothing if there is neither and
it is not required. -/
def value (definition : ArgumentDefinition) (raw : Option String) :
    Except ConfigError (Option ArgumentValue) :=
  match raw with
  | some given =>
    match definition.kind.read given with
    | .ok value => .ok (some value)
    | .error reason => .error (.invalidArgument definition.name reason)
  | none =>
    match definition.fallback with
    | some value => .ok (some value)
    | none =>
      if definition.required then .error (.missingArgument definition.name) else .ok none

end ArgumentDefinition

/-- Sets the values of the definitions in order on a record; the first that fails decides. -/
def ArgumentRecord.fill (raw : String → Option String) :
    ArgumentRecord → List ArgumentDefinition → Except ConfigError ArgumentRecord
  | record, [] => .ok record
  | record, definition :: rest =>
    match definition.value (raw definition.name) with
    | .error e => .error e
    | .ok none => fill raw record rest
    | .ok (some value) => fill raw (record.insert definition.name value) rest

/-- The record of values for the declared arguments from the texts that the user gave. -/
def ArgumentRecord.build (definitions : List ArgumentDefinition) (raw : String → Option String) :
    Except ConfigError ArgumentRecord :=
  fill raw [] definitions

/-! ### JSON form -/

namespace ArgumentValue

/-- A value written in JSON; every number is a double. -/
def ofJson? : Json → Option ArgumentValue
  | .bool b => some (boolean b)
  | .int n =>
    let d := Double.ofNat n.natAbs
    some (number (if n < 0 then d.neg else d))
  | .real d => some (number d)
  | .str s => some (text s)
  | _ => none

def toJson : ArgumentValue → Json
  | boolean b => .bool b
  | number d => .real d
  | text s => .str s

end ArgumentValue

namespace ArgumentKind

def name : ArgumentKind → String
  | text => "string"
  | number => "number"
  | boolean => "boolean"
  | choice _ => "enum"

/-- The kind names in the order in which a number may stand for them. -/
def names : List String := ["string", "number", "boolean", "enum"]

def tagName? : Json → Option String
  | .str s => some s
  | .int n => if 0 ≤ n then names[n.toNat]? else none
  | _ => none

/-- The kind of a tag and the members beside it. -/
def ofTag? (tag : Json) (members : List (String × Json)) : Option ArgumentKind := do
  match ← tagName? tag with
  | "string" => pure text
  | "number" => pure number
  | "boolean" => pure boolean
  | "enum" => pure (choice (← Json.field? members "options" (Json.list? Json.text?)))
  | _ => none

def toMembers (kind : ArgumentKind) : List (String × Json) :=
  match kind with
  | choice options => [("kind", .str kind.name), ("options", Json.ofTexts options)]
  | _ => [("kind", .str kind.name)]

end ArgumentKind

namespace ArgumentDefinition

def ofJson? : Json → Option ArgumentDefinition
  | .obj members => do
    guard (Json.membersReadable members)
    let name ← Json.field? members "name" Json.text?
    let required ← Json.fieldOr? members "required" (some false) Json.bool?
    let fallback ← Json.nullableField? members "default" ArgumentValue.ofJson?
    let tag ← Json.field? members "kind" some
    let kind ← ArgumentKind.ofTag? tag members
    pure ⟨name, kind, required, fallback⟩
  | _ => none

def toJson (definition : ArgumentDefinition) : Json :=
  .obj (("name", .str definition.name) :: definition.kind.toMembers ++
    [("required", .bool definition.required),
      ("default", Json.ofOption ArgumentValue.toJson definition.fallback)])

end ArgumentDefinition

def ArgumentRecord.toJson (record : ArgumentRecord) : Json :=
  .obj (record.map fun (name, value) => (name, value.toJson))

end BulkEdit
