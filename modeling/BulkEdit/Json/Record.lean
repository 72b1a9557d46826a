import BulkEdit.Json.Basic

/-!
# Typed data in JSON values

A record may be written as an object, whose unknown members are ignored and whose known ones may not
be repeated, or as an array of its fields in order.
-/

namespace BulkEdit.Json

def text? : Json → Option String
  | str s => some s
  | _ => none

def bool? : Json → Option Bool
  | bool b => some b
  | _ => none

/-- A whole number of sixty-four bits that is not negative. -/
def count? : Json → Option Nat
  | int n => if 0 ≤ n ∧ n < 0x10000000000000000 then some n.toNat else none
  | _ => none

/-- An array of items that can all be read. -/
def list? {α : Type} (item? : Json → Option α) : Json → Option (List α)
  | arr items => items.mapM item?
  | _ => none

/-- Null, or a value that can be read. -/
def nullable? {α : Type} (value? : Json → Option α) : Json → Option (Option α)
  | null => some none
  | value => (value? value).map some

/-- The name of a choice without data: a string, or an object that gives it null. -/
def choice? : Json → Option String
  | str s => some s
  | obj [(s, null)] => some s
  | _ => none

/-- A record of the given fields, as members. In an array only fields with a default may be left
out, from the end. -/
def record? (fields defaulted : List String) : Json → Option (List (String × Json))
  | obj members => some members
  | arr items =>
    if items.length ≤ fields.length ∧ (fields.drop items.length).all defaulted.contains then
      some (fields.zip items)
    else none
  | _ => none

/-- The tag of a record with variants, and its other members as an object or array. A tagged
record is read as a whole before its variant is known, so all of it must be readable. -/
def tagged? (tag : String) (value : Json) : Option (Json × Json) :=
  if !value.isReadable then none
  else
    match value with
    | obj members =>
      match under members tag with
      | [found] => some (found, obj (members.filter fun m => m.1 != tag))
      | _ => none
    | arr (found :: items) => some (found, arr items)
    | _ => none

/-- The record without fields: any object, or the array without items. -/
def nothing? : Json → Option Unit
  | obj _ => some ()
  | arr [] => some ()
  | _ => none

/-- The member of that name, which may be missing but not repeated. -/
def optional? (members : List (String × Json)) (name : String) : Option (Option Json) :=
  match under members name with
  | [] => some none
  | [value] => some (some value)
  | _ => none

/-- The member of that name, read, or the given value if it is missing. -/
def fieldOr? {α : Type} (members : List (String × Json)) (name : String) (missing : Option α)
    (value? : Json → Option α) : Option α := do
  match ← optional? members name with
  | some value => value? value
  | none => missing

/-- The member of that name, read; it may not be missing. -/
def field? {α : Type} (members : List (String × Json)) (name : String)
    (value? : Json → Option α) : Option α :=
  fieldOr? members name none value?

/-- The member of that name if it is there and not null, read. -/
def nullableField? {α : Type} (members : List (String × Json)) (name : String)
    (value? : Json → Option α) : Option (Option α) :=
  fieldOr? members name (some none) (nullable? value?)

def ofOption {α : Type} (f : α → Json) : Option α → Json
  | some a => f a
  | none => null

def ofTexts (texts : List String) : Json :=
  arr (texts.map str)

end BulkEdit.Json
