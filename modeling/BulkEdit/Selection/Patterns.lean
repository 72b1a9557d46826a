import BulkEdit.FileTree.Basic
import BulkEdit.Selection.RuleLanguage
import BulkEdit.Settings.Flow

/-!
# Patterns of a run

Which files a codemod runs on: the include and exclude patterns of a run, where they come from, and
which of them give way to others.
-/

namespace BulkEdit

/-- A pattern as it is matched: one without a slash in front or two stars matches at any depth, one
that begins with `./` is taken from the target, and one that ends with a slash means everything
below. -/
def normalizePattern (pattern : String) : String :=
  let formatted :=
    if Text.startsWith pattern "./" then String.ofList (pattern.toList.drop 2)
    else if Text.startsWith pattern "**" then pattern
    else if Text.startsWith pattern "/" then "**" ++ pattern
    else "**/" ++ pattern
  if Text.endsWith formatted "/" then formatted ++ "**/*.*" else formatted

/-- The list without repetitions, first occurrences kept. -/
def dedup (patterns : List String) : List String :=
  patterns.foldl (fun kept p => if kept.contains p then kept else kept ++ [p]) []

/-- The patterns of a run and where the included ones come from. -/
structure PatternSet where
  included : List String
  excluded : List String
  reason : String
deriving DecidableEq, Repr

namespace PatternSet

/-- Folders and files that are left out unless they are asked for. -/
def defaultExcluded : List String :=
  ["node_modules/", "dist/", "build/", "out/", ".next/", "coverage/", "*.min.js", ".git/", ".svn/",
    ".hg/"]

/-- What the engines for scripts run on by default. -/
def scriptPatterns : List String :=
  ["**/*.js", "**/*.jsx", "**/*.ts", "**/*.tsx", "**/*.vue", "**/*.svelte"]

/-- What the other engines run on by default. -/
def anyFile : String := "**/*.*"

/-- The patterns of the target's ignore file; comments and negations are left out. -/
def ignored (tree : FileTree) (target : Path) : List String :=
  match tree.read (target.join ⟨".gitignore"⟩) with
  | .error _ => []
  | .ok contents =>
    ((Text.lines contents).map Text.trim).filter fun line =>
      line ≠ "" && !Text.startsWith line "#" && !Text.startsWith line "!"

/-- The included patterns as they were given, with the reason: those of the user, else those of the
codemod, else those of a rule's languages; a filemod's own patterns are added; and if all that gives
none, the defaults of the engine. -/
def rawIncluded (flow : Flow) (codemod : Codemod) (ruleSource : Option String)
    (filemodIncluded : Option (List String)) : Except ConfigError (List String × String) := do
  let (patterns, reason) :=
    if flow.included.isSome || flow.files.isSome then
      (flow.included.getD [] ++ (flow.files.getD []).map Path.text,
        "Using include patterns and file paths from user input")
    else
      match codemod.included with
      | some patterns => (patterns, "Using include patterns from codemod settings")
      | none => ([], "")
  let (patterns, reason) ←
    if patterns.isEmpty && codemod.engine = .astGrep then do
      let patterns ← RuleLanguage.patternsForRule (ruleSource.getD "")
      pure (patterns, "Using include patterns from the ast-grep rule language")
    else pure (patterns, reason)
  let (patterns, reason) :=
    match codemod.engine, filemodIncluded with
    | .filemod, some (p :: ps) => (patterns ++ p :: ps, "Using include patterns from the filemod")
    | _, _ => (patterns, reason)
  if patterns.isEmpty then
    pure (if codemod.engine.isScriptFamily then scriptPatterns else [anyFile],
      "Using default include patterns for the codemod engine")
  else pure (patterns, reason)

/-- The excluded patterns that stay: a default or an ignored one gives way to the same pattern among
the included ones. -/
def settleExcluded (included user default ignored : List String) : List String :=
  dedup ((user ++ default ++ ignored).filter fun p =>
    !(default.contains p || ignored.contains p) || !included.contains p)

def build (tree : FileTree) (flow : Flow) (codemod : Codemod) (ruleSource : Option String)
    (filemodIncluded : Option (List String)) : Except ConfigError PatternSet := do
  let user := dedup (flow.excluded.map normalizePattern)
  let default := dedup (defaultExcluded.map normalizePattern)
  let ignored := dedup ((ignored tree flow.target).map normalizePattern)
  let (patterns, reason) ← rawIncluded flow codemod ruleSource filemodIncluded
  let included := dedup (patterns.map normalizePattern)
  let excluded := settleExcluded included user default ignored
  pure ⟨included.filter fun p => !excluded.contains p, excluded, reason⟩

/-- What is said before a codemod starts. -/
def summary (patterns : PatternSet) (codemod : Codemod) (target : Path) : String :=
  "Running: " ++ codemod.displayName ++ "\nTarget: " ++ target.text ++ "\n" ++ patterns.reason
    ++ "\nIncluded patterns: " ++ ", ".intercalate patterns.included
    ++ "\nExcluded patterns: " ++ ", ".intercalate patterns.excluded

end PatternSet

/-- What is said when no file is selected. -/
def noFilesMessage (target : Path) : String :=
  "No files to process were found in " ++ target.text
    ++ " with the given include/exclude patterns. Exiting..."

end BulkEdit
