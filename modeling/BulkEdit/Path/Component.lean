/-!
# Components of paths

Components are ordered by their kinds: the root, the current folder, the folder above, and ordinary
names, in this order; names are compared character by character.
-/

namespace BulkEdit

inductive Component where
  | root
  | current
  | up
  | name (text : String)
deriving DecidableEq, Repr

namespace Component

/-- The place of a component's kind in the order. -/
def rank : Component → Nat
  | root => 0
  | current => 1
  | up => 2
  | name _ => 3

/-- The component as it is written between separators. -/
def text : Component → String
  | root => ""
  | current => "."
  | up => ".."
  | name text => text

/-- Components are compared by kind, names among themselves by their text. -/
def order : Component → Component → Ordering :=
  compareLex (compareOn rank) (compareOn text)

instance : Ord Component := ⟨order⟩

instance : Std.TransOrd Component :=
  inferInstanceAs (Std.TransCmp (compareLex (compareOn rank) (compareOn text)))

theorem eq_of_order_eq {a b : Component} (h : order a b = .eq) : a = b := by
  simp only [order, compareLex, compareOn, Ordering.then_eq_eq] at h
  obtain ⟨hr, ht⟩ := h
  have hr := Std.LawfulEqOrd.eq_of_compare hr
  have ht := Std.LawfulEqOrd.eq_of_compare ht
  cases a <;> cases b <;> simp_all [rank, text]

instance : Std.LawfulEqOrd Component where
  compare_self := Std.ReflCmp.compare_self
  eq_of_compare := eq_of_order_eq

end Component

end BulkEdit
