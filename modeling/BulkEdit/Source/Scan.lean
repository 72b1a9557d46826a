import BulkEdit.Source.Code

/-!
# Marking a source in place

A scan goes over a source by positions: it reads the character at a position, may look at the one
behind it, and takes marks off. It has no result if it reads or takes off a mark at a position that
the source does not have, or if it would never come to the end of the source.
-/

namespace BulkEdit.Source

/-- The marks as they are now, and the position that comes next. -/
structure Scan where
  marks : List Bool
  position : Nat
deriving DecidableEq, Repr

namespace Scan

/-- Takes off the marks from a position on and before another. -/
def hide? (marks : List Bool) (start stop : Nat) : Option (List Bool) :=
  if start ≤ stop ∧ stop ≤ marks.length then
    some (marks.take start ++ List.replicate (stop - start) false ++ marks.drop stop)
  else none

/-- Goes along a line comment up to the end of the line. -/
def lineComment? (cs : List Char) (s : Scan) : Option Scan :=
  if s.position < cs.length then do
    let c ← cs[s.position]?
    if c = '\n' then some s
    else do
      let marks ← hide? s.marks s.position (s.position + 1)
      lineComment? cs ⟨marks, s.position + 1⟩
  else some s
termination_by cs.length - s.position

/-- The first position from a given one on that closes a block comment, or the end of the source. -/
def blockEnd? (cs : List Char) (i : Nat) : Option Nat :=
  if i < cs.length then do
    let c ← cs[i]?
    if c = '*' ∧ cs[i + 1]? = some '/' then some i else blockEnd? cs (i + 1)
  else some i
termination_by cs.length - i

/-- Goes along a string behind its opening quote. A backslash takes the next character with it, if there
is one. -/
def string? (quote : Char) (cs : List Char) (s : Scan) : Option Scan :=
  if s.position < cs.length then do
    let marks ← hide? s.marks s.position (s.position + 1)
    let c ← cs[s.position]?
    if c = '\\' then do
      let marks ←
        if s.position + 1 < cs.length then hide? marks (s.position + 1) (s.position + 2) else some marks
      string? quote cs ⟨marks, s.position + 2⟩
    else if c = quote then some ⟨marks, s.position + 1⟩
    else string? quote cs ⟨marks, s.position + 1⟩
  else some s
termination_by cs.length - s.position

def region? (cs : List Char) (s : Scan) : Option Scan := do
  let c ← cs[s.position]?
  if c = '/' ∧ cs[s.position + 1]? = some '/' then lineComment? cs s
  else if c = '/' ∧ cs[s.position + 1]? = some '*' then do
    let closing ← blockEnd? cs (s.position + 2)
    let stop := min (closing + 2) cs.length
    let marks ← hide? s.marks s.position stop
    some ⟨marks, stop⟩
  else if isQuote c then do
    let marks ← hide? s.marks s.position (s.position + 1)
    string? c cs ⟨marks, s.position + 1⟩
  else some { s with position := s.position + 1 }

/-- Goes along the regions up to the end of the source. After a region that does not get on it would go on
for ever, so there is no result. -/
def marksFrom? (cs : List Char) (s : Scan) : Option (List Bool) :=
  if s.position < cs.length then do
    let next ← region? cs s
    if s.position < next.position then marksFrom? cs next else none
  else some s.marks
termination_by cs.length - s.position

/-- The marks of a whole source: all of them stand at first. -/
def marks? (cs : List Char) : Option (List Bool) :=
  marksFrom? cs ⟨List.replicate cs.length true, 0⟩

end Scan

end BulkEdit.Source
