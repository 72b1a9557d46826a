/-!
# Blanks and lines

Which code points count as white space, trimming a text on both sides, and cutting a text into its
lines.
-/

namespace BulkEdit.Text

/-- The white space of the Unicode character database, twenty-five code points. -/
def isBlank (c : Char) : Bool :=
  let n := c.toNat
  (9 ≤ n && n ≤ 13) || n == 0x20 || n == 0x85 || n == 0xA0 || n == 0x1680 ||
    (0x2000 ≤ n && n ≤ 0x200A) || n == 0x2028 || n == 0x2029 || n == 0x202F || n == 0x205F ||
    n == 0x3000

/-- Every character that the standard library calls white space is blank. -/
theorem isBlank_of_isWhitespace {c : Char} (h : c.isWhitespace = true) : isBlank c = true := by
  simp only [Char.isWhitespace, Bool.or_eq_true, decide_eq_true_eq] at h
  rcases h with ((rfl | rfl) | rfl) | rfl <;> decide

/-- Drops the members of a class from both ends of a list. -/
def stripBoth (drop : Char → Bool) (cs : List Char) : List Char :=
  ((cs.dropWhile drop).reverse.dropWhile drop).reverse

def trim (s : String) : String :=
  String.ofList (stripBoth isBlank s.toList)

def trimEnd (s : String) : String :=
  String.ofList (s.toList.reverse.dropWhile isBlank).reverse

/-- Cuts a list after every line feed; a piece keeps neither the line feed nor a carriage return
right before it, and nothing follows a final line feed. -/
def linesFrom : List Char → List Char → List (List Char)
  | [], [] => []
  | held, [] => [held.reverse]
  | held, '\n' :: rest =>
    let line := match held with
      | '\r' :: earlier => earlier
      | _ => held
    line.reverse :: linesFrom [] rest
  | held, c :: rest => linesFrom (c :: held) rest

def lines (s : String) : List String :=
  (linesFrom [] s.toList).map String.ofList

end BulkEdit.Text
