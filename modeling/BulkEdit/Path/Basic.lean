import BulkEdit.Path.Component
import BulkEdit.Text.Search

/-!
# Paths as they are written

A path keeps its text; repeated separators, inner `.` components and a trailing separator are part
of the text but not of its meaning, which is the list of components.
-/

namespace BulkEdit

/-- A path in the spelling in which it was given. -/
structure Path where
  text : String
deriving DecidableEq, Repr, Inhabited

namespace Path

/-- What stands before the first segment: nothing, the root, or an explicit `.`. -/
inductive Lead where
  | nothing
  | root
  | current
deriving DecidableEq, Repr

namespace Lead

def chars : Lead → List Char
  | nothing => []
  | root => ['/']
  | current => ['.']

def components : Lead → List Component
  | nothing => []
  | root => [.root]
  | current => [.current]

end Lead

/-- The lead of a path text and the characters after it. -/
def cutLead : List Char → Lead × List Char
  | '/' :: rest => (.root, rest)
  | ['.'] => (.current, [])
  | '.' :: '/' :: rest => (.current, '/' :: rest)
  | cs => (.nothing, cs)

/-- Empty segments and inner `.` segments stand for nothing. -/
def isVisible (segment : List Char) : Bool :=
  segment ≠ [] && segment ≠ ['.']

def componentOf (segment : List Char) : Component :=
  if segment = ['.', '.'] then .up else .name (String.ofList segment)

def lead (p : Path) : Lead :=
  (cutLead p.text.toList).1

/-- The segments between the separators after the lead. -/
def segments (p : Path) : List (List Char) :=
  Text.pieces '/' (cutLead p.text.toList).2

/-- What the path means: its components in order. -/
def components (p : Path) : List Component :=
  p.lead.components ++ (p.segments.filter isVisible).map componentOf

/-- Two paths are the same if their components are, however they are written. -/
def sameAs (p q : Path) : Bool :=
  p.components == q.components

def order : Path → Path → Ordering :=
  compareOn components

instance : Ord Path := ⟨order⟩

instance : Std.TransOrd Path :=
  inferInstanceAs (Std.TransCmp (compareOn components))

def isAbsolute (p : Path) : Bool :=
  p.text.toList.head? == some '/'

/-- The segments without the invisible ones at the end. -/
def trimRight (segments : List (List Char)) : List (List Char) :=
  (segments.reverse.dropWhile fun s => !isVisible s).reverse

/-- The segments without the invisible ones at the beginning. -/
def trimLeft (segments : List (List Char)) : List (List Char) :=
  segments.dropWhile fun s => !isVisible s

def ofParts (lead : Lead) (segments : List (List Char)) : Path :=
  ⟨String.ofList (lead.chars ++ Text.joined '/' segments)⟩

/-- The path without its last component; the root and the empty path have none. -/
def parent? (p : Path) : Option Path :=
  match (trimRight p.segments).reverse with
  | _ :: before => some (ofParts p.lead (trimRight before.reverse))
  | [] =>
    match p.lead with
    | .current => some ⟨""⟩
    | _ => none

/-- The last component if it is an ordinary name. -/
def fileName? (p : Path) : Option String :=
  match p.components.getLast? with
  | some (.name text) => some text
  | _ => none

/-- The characters after the last full stop of a name; a name that begins with its only full stop
has no extension. -/
def extensionOf? (name : List Char) : Option (List Char) :=
  let after := (name.reverse.takeWhile (· ≠ '.')).reverse
  let before := name.reverse.drop (after.length + 1)
  if after.length = name.length ∨ before = [] then none else some after

def extension? (p : Path) : Option String :=
  p.fileName?.bind fun name => (extensionOf? name.toList).map String.ofList

/-- `q` as seen from `p`: an absolute `q` stands for itself. -/
def join (p q : Path) : Path :=
  if q.isAbsolute then
    q
  else
    match p.text.toList.getLast? with
    | none => q
    | some '/' => ⟨p.text ++ q.text⟩
    | some _ => ⟨p.text ++ "/" ++ q.text⟩

/-- Whether the components of `base` begin those of `p`. -/
def isBelow (p base : Path) : Bool :=
  base.components.isPrefixOf p.components

def dropVisible : Nat → List (List Char) → List (List Char)
  | 0, segments => segments
  | _ + 1, [] => []
  | count + 1, s :: rest =>
    if isVisible s then dropVisible count rest else dropVisible (count + 1) rest

/-- The rest of `p` after the components of `base`, in the spelling of `p`. -/
def relativeTo? (p base : Path) : Option Path :=
  if p.isBelow base then
    match base.components.length with
    | 0 => some (ofParts p.lead (trimRight p.segments))
    | count + 1 =>
      let rest := dropVisible (count + 1 - p.lead.components.length) p.segments
      some (ofParts .nothing (trimRight (trimLeft rest)))
  else
    none

end Path

end BulkEdit
