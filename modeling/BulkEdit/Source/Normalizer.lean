import BulkEdit.Source.Parenthesis

/-!
# Comparing sources

Sources are compared up to differences that do not matter.
-/

namespace BulkEdit

/-- The canonical form of a source, if it has one. -/
abbrev Normalizer := String → Option String

namespace Normalizer

/-- Whether two sources have the same canonical form. -/
def equivalent (n : Normalizer) (left right : String) : Bool :=
  match n left, n right with
  | some l, some r => l == r
  | _, _ => false

/-- The canonical form without redundant parentheses. -/
def parenthesis : Normalizer :=
  Source.normalize?

end Normalizer

end BulkEdit
