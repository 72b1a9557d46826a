import BulkEdit.Settings.Engine

/-!
# Errors of the user

Errors in what the user configured, with their wording.
-/

namespace BulkEdit

/-- A fault in the steps of a codemod. -/
inductive StepsError where
  | nestedRecipe (recipe child : String)
  | unexpectedChildren (engine : Engine)
deriving DecidableEq, Repr

def StepsError.message : StepsError → String
  | nestedRecipe recipe child =>
    "recipe \"" ++ recipe ++ "\" contains nested recipe \"" ++ child
      ++ "\"; recipes may only be one level deep"
  | unexpectedChildren engine =>
    "only recipes may declare child codemods (engine: " ++ engine.name ++ ")"

/-- A fault in settings, descriptors, rules, patterns or arguments. -/
inductive ConfigError where
  | steps (e : StepsError)
  | piranhaUnsupported
  | missingRuleLanguage
  | unsupportedRuleLanguage (language : String)
  | invalidRule
  | unresolvableExport (detail : String)
  | missingArgument (name : String)
  | invalidArgument (name reason : String)
  | invalidPattern (pattern reason : String)
  | descriptor (cause : Option StepsError)
  | invalidEnvironment (key value : String)
deriving DecidableEq, Repr

namespace ConfigError

/-- The wording of the error; of a rule or descriptor that cannot be read at all, only what was being
read is named. -/
def message : ConfigError → String
  | steps e => e.message
  | piranhaUnsupported => "Piranha not supported"
  | missingRuleLanguage => "ast-grep rule does not declare a language"
  | unsupportedRuleLanguage language => "ast-grep language \"" ++ language ++ "\" is not supported"
  | invalidRule => "invalid ast-grep rule"
  | unresolvableExport detail => "could not resolve a transform export from " ++ detail
  | missingArgument name => "missing required argument \"" ++ name ++ "\""
  | invalidArgument name reason =>
    "invalid value for argument \"" ++ name ++ "\": " ++ reason
  | invalidPattern pattern reason => "invalid glob pattern \"" ++ pattern ++ "\": " ++ reason
  | descriptor (some cause) => cause.message
  | descriptor none => "invalid codemod descriptor"
  | invalidEnvironment key value => "invalid environment value " ++ key ++ "=" ++ value

end ConfigError

end BulkEdit
