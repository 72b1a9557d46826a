import BulkEdit.Number.Double

/-!
# JSON values

Whole numbers and doubles are kept apart, and an object keeps its members as they were written,
repeated names included; reading it as a map takes the last of them. A number out of range, a string
with half a surrogate pair or what is nested too deep is well formed but has no value; it may stand
only where it is ignored. A text that is cut or malformed still has the values before the fault.
-/

namespace BulkEdit

inductive Json where
  | null
  | bool (value : Bool)
  | int (value : Int)
  | real (value : Double)
  | str (value : String)
  | arr (items : List Json)
  | obj (members : List (String × Json))
  | unreadable
  /-- Only the part `seen` has values. With `isWhole` the text around it is well formed. -/
  | partly (seen : Json) (isWhole : Bool)
deriving Repr, BEq, Inhabited

namespace Json

/-- The members of an object with each name once, in the order of the names; the last one
written counts. -/
def sortMembers {α : Type} (members : List (String × α)) : List (String × α) :=
  members.foldl insert []
where
  /-- Puts a member at its place. -/
  insert : List (String × α) → String × α → List (String × α)
    | [], m => [m]
    | first :: rest, m =>
      match compare m.1 first.1 with
      | .lt => m :: first :: rest
      | .eq => m :: rest
      | .gt => first :: insert rest m

mutual

/-- The value with all its objects read as maps. -/
def sorted : Json → Json
  | arr items => arr (sortedItems items)
  | obj members => obj (sortMembers (sortedMembers members))
  | value => value

def sortedItems : List Json → List Json
  | [] => []
  | item :: rest => item.sorted :: sortedItems rest

def sortedMembers : List (String × Json) → List (String × Json)
  | [] => []
  | (name, item) :: rest => (name, item.sorted) :: sortedMembers rest

end

mutual

/-- Whether every token inside has a value. -/
def isReadable : Json → Bool
  | arr items => areReadable items
  | obj members => membersReadable members
  | unreadable => false
  | partly _ _ => false
  | _ => true

def areReadable : List Json → Bool
  | [] => true
  | item :: rest => item.isReadable && areReadable rest

def membersReadable : List (String × Json) → Bool
  | [] => true
  | (_, item) :: rest => item.isReadable && membersReadable rest

end

/-- Whether the text of the value is well formed up to its end. -/
def isWhole : Json → Bool
  | partly _ isWhole => isWhole
  | _ => true

mutual

/-- Whether two values are equal: doubles by value, so that both zeros are one, and objects member by
member. -/
def same : Json → Json → Bool
  | null, null => true
  | bool a, bool b => a == b
  | int a, int b => a == b
  | real a, real b => a.equals b
  | str a, str b => a == b
  | arr xs, arr ys => sameItems xs ys
  | obj xs, obj ys => sameMembers xs ys
  | _, _ => false

def sameItems : List Json → List Json → Bool
  | [], [] => true
  | x :: xs, y :: ys => x.same y && sameItems xs ys
  | _, _ => false

def sameMembers : List (String × Json) → List (String × Json) → Bool
  | [], [] => true
  | (a, x) :: xs, (b, y) :: ys => a == b && x.same y && sameMembers xs ys
  | _, _ => false

end

/-- The values written under a name. -/
def under (members : List (String × Json)) (name : String) : List Json :=
  (members.filter fun m => m.1 == name).map Prod.snd

/-- The last value written under a name of an object. -/
def member? (value : Json) (name : String) : Option Json :=
  match value with
  | obj members => (under members name).getLast?
  | _ => none

end Json

end BulkEdit
