import BulkEdit.Settings.Error
import BulkEdit.Text.Blank
import BulkEdit.Text.Search
import BulkEdit.Yaml.Printer

/-!
# Languages of rules

A rule file of ast-grep holds one or more documents; the `language` of each at its top level decides
which files the rule applies to.
-/

namespace BulkEdit.RuleLanguage

/-- The patterns for files of a language, by any of its names in any case. -/
def patterns? (language : String) : Option (List String) :=
  let endings : Option (List String) := match Text.lowerAscii language with
    | "js" | "jsx" | "javascript" => some ["js", "jsx", "cjs", "mjs"]
    | "ts" | "typescript" => some ["ts", "cts", "mts"]
    | "tsx" => some ["tsx"]
    | "py" | "python" => some ["py", "py3", "pyi", "bzl"]
    | "java" => some ["java"]
    | "bash" | "bash-exp" =>
      some ["bash", "bats", "cgi", "command", "env", "fcgi", "ksh", "sh", "sh.in", "tmux", "tool",
        "zsh"]
    | "c" => some ["c", "h"]
    | "cc" | "c++" | "cpp" | "cxx" => some ["cc", "hpp", "cpp", "c++", "hh", "cxx", "cu", "ino"]
    | "json" => some ["json"]
    | "html" => some ["html", "htm", "xhtml"]
    | _ => none
  endings.map fun es => es.map ("**/*." ++ ·)

/-- Adds the language of each document to those found so far; the first document that cannot be read
or names no text as its language decides. A language that is no text is shown as it would be written;
one that cannot be written makes the rule invalid. -/
def collect : List String → List (Option Yaml.Value) → Except ConfigError (List String)
  | found, [] => .ok found
  | _, none :: _ => .error .invalidRule
  | found, some document :: rest =>
    match document.get? "language" with
    | none => collect found rest
    | some .null => collect found rest
    | some (.str language) =>
      collect (if found.contains language then found else found ++ [language]) rest
    | some other =>
      match other.render? with
      | some text => .error (.unsupportedRuleLanguage (Text.trim text))
      | none => .error .invalidRule

/-- The different languages that a rule file names, in order. -/
def ofRule (source : String) : Except ConfigError (List String) :=
  collect [] (Yaml.values source)

/-- The patterns of all languages in order; the first unknown one decides. -/
def patternsOf : List String → Except ConfigError (List String)
  | [] => .ok []
  | language :: rest =>
    match patterns? language with
    | none => .error (.unsupportedRuleLanguage language)
    | some found =>
      match patternsOf rest with
      | .ok more => .ok (found ++ more)
      | .error e => .error e

/-- The patterns for the files that a rule file applies to. -/
def patternsForRule (source : String) : Except ConfigError (List String) :=
  match ofRule source with
  | .error e => .error e
  | .ok [] => .error .missingRuleLanguage
  | .ok languages => patternsOf languages

end BulkEdit.RuleLanguage
