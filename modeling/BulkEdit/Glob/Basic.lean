/-!
# Globs

Patterns as token lists, the texts they match, and why a pattern may be refused. A `/` is matched
only by itself, by an explicit class and by `**` as a whole component.
-/

namespace BulkEdit.Glob

inductive Token where
  /-- The character itself. -/
  | literal (c : Char)
  /-- One byte other than the separator. -/
  | one
  /-- Any bytes other than the separator. -/
  | many
  /-- One byte in the ranges, or one outside of them. -/
  | class (negated : Bool) (ranges : List (Char × Char))
  /-- A leading `**` component: nothing, a separator, or anything up to a separator. -/
  | deepStart
  /-- A final `**` component: a separator and anything. -/
  | deepEnd
  /-- An inner `**` component: one separator, or two with anything between them. -/
  | deepMiddle
  /-- One of the branches. -/
  | oneOf (branches : List (List Token))
deriving Repr

/-- Why a text is no glob. -/
inductive Error where
  | unclosedClass
  | invalidRange (low high : Char)
  | unopenedGroup
  | unclosedGroup
  | danglingEscape
deriving DecidableEq, Repr

def Error.message : Error → String
  | unclosedClass => "unclosed character class; missing ']'"
  | invalidRange low high =>
    "invalid range; '" ++ String.singleton low ++ "' > '" ++ String.singleton high ++ "'"
  | unopenedGroup =>
    "unopened alternate group; missing '\x7b' (maybe escape '\x7d' with '[\x7d]'?)"
  | unclosedGroup =>
    "unclosed alternate group; missing '\x7d' (maybe escape '\x7b' with '[\x7b]'?)"
  | danglingEscape => "dangling '\\'"

end BulkEdit.Glob
