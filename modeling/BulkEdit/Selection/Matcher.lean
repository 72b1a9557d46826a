import BulkEdit.Glob.Match
import BulkEdit.Selection.Patterns

/-!
# Selecting files

Files are selected by compiled include and exclude globs below a root. A file is matched both as
seen from the root and by its whole path.
-/

namespace BulkEdit

/-- Compiled globs below a root. -/
structure Matcher where
  root : Path
  included : List (List Glob.Token)
  excluded : List (List Glob.Token)

namespace Matcher

def compileOne (pattern : String) : Except ConfigError (List Glob.Token) :=
  match Glob.parse pattern with
  | .ok tokens => .ok tokens
  | .error e =>
    .error (.invalidPattern pattern ("error parsing glob '" ++ pattern ++ "': " ++ e.message))

/-- Compiles globs in order; the first that cannot be read decides. -/
def compile : List String → Except ConfigError (List (List Glob.Token))
  | [] => .ok []
  | pattern :: rest =>
    match compileOne pattern with
    | .error e => .error e
    | .ok tokens =>
      match compile rest with
      | .error e => .error e
      | .ok more => .ok (tokens :: more)

def build (root : Path) (included excluded : List String) : Except ConfigError Matcher := do
  let included ← compile included
  let excluded ← compile excluded
  pure ⟨root, included, excluded⟩

def ofPatterns (root : Path) (patterns : PatternSet) : Except ConfigError Matcher :=
  build root patterns.included patterns.excluded

def anyMatch (globs : List (List Glob.Token)) (p : Path) : Bool :=
  globs.any fun tokens => Glob.isMatch tokens p.text

def accepts (m : Matcher) (p : Path) : Bool :=
  let relative := (p.relativeTo? m.root).getD p
  (anyMatch m.included relative || anyMatch m.included p) &&
    !anyMatch m.excluded relative && !anyMatch m.excluded p

/-- The selected files at and below a place, in path order. -/
def collect (m : Matcher) (tree : FileTree) (root : Path) : Except TreeError (List Path) := do
  let routes ← tree.walk root
  pure ((routes.map Route.toPath).filter m.accepts)

end Matcher

end BulkEdit
