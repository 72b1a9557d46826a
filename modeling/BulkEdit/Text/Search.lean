/-!
# Searching texts

How one text stands in another: occurrence, beginning, end, and replacement of all occurrences.
-/

namespace BulkEdit.Text

def occursIn (part : List Char) : List Char → Bool
  | [] => part.isEmpty
  | c :: rest => part.isPrefixOf (c :: rest) || occursIn part rest

def contains (s part : String) : Bool :=
  occursIn part.toList s.toList

def startsWith (s part : String) : Bool :=
  part.toList.isPrefixOf s.toList

def endsWith (s part : String) : Bool :=
  part.toList.isSuffixOf s.toList

/-- Replaces the occurrences of the non-empty list `head :: tail` from left to right; `skip` counts
the characters of the current occurrence that are still to be dropped. -/
def substitute (head : Char) (tail new : List Char) : Nat → List Char → List Char
  | _, [] => []
  | skip + 1, _ :: rest => substitute head tail new skip rest
  | 0, c :: rest =>
    if c = head ∧ tail.isPrefixOf rest then
      new ++ substitute head tail new tail.length rest
    else
      c :: substitute head tail new 0 rest

/-- Replaces every occurrence of `old`; an empty `old` occurs before each character and at the
end. -/
def replaceAll (s old new : String) : String :=
  match old.toList with
  | [] => String.ofList (new.toList ++ s.toList.flatMap fun c => c :: new.toList)
  | head :: tail => String.ofList (substitute head tail new.toList 0 s.toList)

/-- Writes the ASCII capitals small and keeps everything else. -/
def lowerAscii (s : String) : String :=
  s.map Char.toLower

/-- Cuts a list at every occurrence of `mark`: one piece more than there are marks. -/
def pieces (mark : Char) : List Char → List (List Char)
  | [] => [[]]
  | c :: rest =>
    if c = mark then
      [] :: pieces mark rest
    else
      match pieces mark rest with
      | [] => [[c]]
      | piece :: more => (c :: piece) :: more

def joined (mark : Char) : List (List Char) → List Char
  | [] => []
  | [piece] => piece
  | piece :: more => piece ++ mark :: joined mark more

theorem joined_pieces (mark : Char) (cs : List Char) : joined mark (pieces mark cs) = cs := by
  induction cs with
  | nil => rfl
  | cons c rest ih =>
    have ne : pieces mark rest ≠ [] := by
      cases rest with
      | nil => simp [pieces]
      | cons d more =>
        simp only [pieces]
        split
        · simp
        · split <;> simp
    unfold pieces
    by_cases h : c = mark
    · cases hp : pieces mark rest with
      | nil => exact absurd hp ne
      | cons piece more => simp [h, hp] at ih ⊢; simp [joined, ih]
    · cases hp : pieces mark rest with
      | nil => exact absurd hp ne
      | cons piece more =>
        rw [hp] at ih
        cases more with
        | nil => simp_all [joined]
        | cons next others => simp_all [joined]

end BulkEdit.Text
