import BulkEdit.Digest
import BulkEdit.Path.Basic

/-!
# Routes

Routes are the places that paths name. Normalizing a path drops its `.` components and lets each
`..` take back the component before it, whatever that is; at the root and at the empty route there
is nothing to take back and the `..` stays.
-/

namespace BulkEdit

/-- A place in a file tree: the components that lead to it. -/
abbrev Route := List Component

namespace Route

/-- The route without its last component; the root and the empty route have none. -/
def parent? (r : Route) : Option Route :=
  match r.getLast? with
  | none => none
  | some .root => none
  | some _ => some r.dropLast

/-- The folder that holds the place, if the route names one. -/
def folder? (r : Route) : Option Route :=
  r.parent?.filter fun parent => !parent.isEmpty

def step (r : Route) : Component → Route
  | .current => r
  | .up =>
    match r.parent? with
    | some parent => parent
    | none => r ++ [.up]
  | c => r ++ [c]

/-- The non-empty routes that `r` properly extends, the nearest first. -/
def ancestors : Route → List Route
  | [] => []
  | [_] => []
  | c :: rest => (ancestors rest).map (c :: ·) ++ [[c]]

/-- The place of which `r` is `base` and more. -/
def isBelow (r base : Route) : Bool :=
  base.isPrefixOf r

def text : Route → String
  | .root :: rest => "/" ++ "/".intercalate (rest.map Component.text)
  | r => "/".intercalate (r.map Component.text)

def toPath (r : Route) : Path :=
  ⟨r.text⟩

end Route

namespace Path

def route (p : Path) : Route :=
  p.components.foldl Route.step []

/-- The one spelling kept for all paths that name the same place. -/
def normalize (p : Path) : Path :=
  p.route.toPath

/-- The fingerprint that tells the places of paths apart. -/
def digest (p : Path) : String :=
  Digest.ofText p.normalize.text

/-- The folder of a path, if its text names one. -/
def folder? (p : Path) : Option Path :=
  p.parent?.filter fun parent => parent.text ≠ ""

end Path

end BulkEdit
