import BulkEdit.Json.Record

/-!
# Engines

The engines that run codemods, and the names under which settings refer to them.
-/

namespace BulkEdit

/-- What runs a codemod. -/
inductive Engine where
  | jscodeshift
  | tsMorph
  | astGrep
  | filemod
  | recipe
  | piranha
deriving DecidableEq, Repr, Inhabited

namespace Engine

def name : Engine → String
  | jscodeshift => "jscodeshift"
  | tsMorph => "ts-morph"
  | astGrep => "ast-grep"
  | filemod => "filemod"
  | recipe => "recipe"
  | piranha => "piranha"

/-- The engine of a name; one engine has an older second name. -/
def ofName? : String → Option Engine
  | "jscodeshift" => some jscodeshift
  | "ts-morph" => some tsMorph
  | "ast-grep" => some astGrep
  | "filemod" => some filemod
  | "repomod-engine" => some filemod
  | "recipe" => some recipe
  | "piranha" => some piranha
  | _ => none

theorem ofName?_name (e : Engine) : ofName? e.name = some e := by
  cases e <;> rfl

/-- Whether the engine transforms files one by one. -/
def isPerFile : Engine → Bool
  | jscodeshift => true
  | tsMorph => true
  | astGrep => true
  | _ => false

/-- Whether the engine works on JavaScript and TypeScript sources. -/
def isScriptFamily : Engine → Bool
  | jscodeshift => true
  | tsMorph => true
  | _ => false

def ofJson? (value : Json) : Option Engine :=
  value.choice?.bind ofName?

def toJson (e : Engine) : Json :=
  .str e.name

end Engine

end BulkEdit
