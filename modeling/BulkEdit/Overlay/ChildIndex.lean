import Std.Data.ExtTreeMap
import Std.Data.ExtTreeSet

/-!
# Children of folders

Which children each folder has, by any ordered keys.
-/

namespace BulkEdit

structure ChildIndex (κ : Type) [Ord κ] where
  children : Std.ExtTreeMap κ (Std.ExtTreeSet κ) := ∅

namespace ChildIndex

variable {κ : Type} [Ord κ] [Std.TransOrd κ]

def childSet (index : ChildIndex κ) (folder : κ) : Std.ExtTreeSet κ :=
  index.children.getD folder ∅

def insert (index : ChildIndex κ) (folder child : κ) : ChildIndex κ :=
  ⟨index.children.insert folder ((index.childSet folder).insert child)⟩

def erase (index : ChildIndex κ) (folder child : κ) : ChildIndex κ :=
  ⟨index.children.insert folder ((index.childSet folder).erase child)⟩

def toList (index : ChildIndex κ) (folder : κ) : List κ :=
  (index.childSet folder).toList

def contains (index : ChildIndex κ) (folder child : κ) : Bool :=
  (index.childSet folder).contains child

end ChildIndex

end BulkEdit
