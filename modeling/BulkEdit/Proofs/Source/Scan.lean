import BulkEdit.Proofs.Source.Reading
import BulkEdit.Source.Scan

/-!
# Scanning a source by positions

A scan reads a source by positions, looks one character ahead and steps over several characters at once.
Still it reads and marks only positions that the source has, it comes to its end, and its marks are those of
the source (`marks?_eq`): between two regions it stands before what the regions have left
(`Scan.Before`), and each part of it leads from there to the end of its own region. The marks are then told
by the reader that goes through the source character by character (`codeMask_exact`).
-/

namespace BulkEdit.Source

namespace Scan

variable {cs rest : List Char} {c : Char} {s : Scan} {done : List Bool}

/-! ### Where a scan stands -/

/-- What is seen from a position that has something behind it. -/
theorem ahead {i : Nat} (h : cs.drop i = c :: rest) :
    i < cs.length ∧ cs[i]? = some c ∧ cs[i + 1]? = rest.head? ∧ cs.drop (i + 1) = rest := by
  obtain ⟨hget, hnext⟩ := getElem?_of_drop h
  obtain ⟨hlt, -⟩ := List.getElem?_eq_some_iff.1 hget
  exact ⟨hlt, hget, by rw [← hnext, List.head?_drop], hnext⟩

/-- The scan has dealt with all but the rest of the source: it has given marks to what comes before, and the
marks of the rest all stand. At the end of the source its position may be any behind the last one. -/
structure Before (cs : List Char) (s : Scan) (done : List Bool) (rest : List Char) : Prop where
  drop_eq : cs.drop s.position = rest
  marks_eq : s.marks = done ++ List.replicate rest.length true
  length_eq : done.length + rest.length = cs.length

theorem before_start (cs : List Char) : Before cs ⟨List.replicate cs.length true, 0⟩ [] cs :=
  ⟨rfl, rfl, by simp⟩

theorem Before.at_end (h : Before cs s done []) : ¬ s.position < cs.length :=
  not_lt.2 (List.drop_eq_nil_iff.1 h.drop_eq)

theorem Before.position_eq (h : Before cs s done (c :: rest)) : s.position = done.length := by
  have hlength := congrArg List.length h.drop_eq
  have hsum := h.length_eq
  have hlt := (ahead h.drop_eq).1
  rw [List.length_drop] at hlength
  omega

theorem Before.lt_position {s' : Scan} {marks : List Bool} {rest' : List Char}
    (h : Before cs s done (c :: rest)) (h' : Before cs s' (done ++ marks) rest') (hmarks : marks ≠ []) :
    s.position < s'.position := by
  cases rest' with
  | nil => exact lt_of_lt_of_le (ahead h.drop_eq).1 (not_lt.1 h'.at_end)
  | cons d more =>
    have hpos := List.length_pos_iff.2 hmarks
    rw [h.position_eq, h'.position_eq, List.length_append]
    omega

theorem Before.hide (h : Before cs s done (c :: rest)) {k : Nat} (hk : k ≤ rest.length + 1) :
    ∃ marks, hide? s.marks s.position (s.position + k) = some marks ∧
      Before cs ⟨marks, s.position + k⟩ (done ++ List.replicate k false) ((c :: rest).drop k) := by
  have hposition := h.position_eq
  have hlength : done.length + (rest.length + 1) = cs.length := h.length_eq
  have hstop : s.position + k ≤ s.marks.length := by
    rw [h.marks_eq, List.length_append, List.length_replicate, List.length_cons]
    omega
  refine ⟨_, if_pos ⟨Nat.le_add_right _ k, hstop⟩, ?_, ?_, ?_⟩
  · rw [← h.drop_eq, List.drop_drop]
  · have hleft : (c :: rest).length - k = ((c :: rest).drop k).length := List.length_drop.symm
    rw [h.marks_eq, hposition, List.take_left, Nat.add_sub_cancel_left, List.drop_append,
      List.drop_eq_nil_of_le (Nat.le_add_right _ k), Nat.add_sub_cancel_left, List.nil_append,
      List.drop_replicate, hleft]
  · rw [List.length_append, List.length_replicate, List.length_drop, List.length_cons]
    omega

theorem Before.hide_one (h : Before cs s done (c :: rest)) :
    ∃ marks, hide? s.marks s.position (s.position + 1) = some marks ∧
      Before cs ⟨marks, s.position + 1⟩ (done ++ [false]) rest :=
  h.hide (Nat.le_add_left 1 rest.length)

theorem Before.keep_one (h : Before cs s done (c :: rest)) :
    Before cs { s with position := s.position + 1 } (done ++ [true]) rest := by
  refine ⟨(ahead h.drop_eq).2.2.2, ?_, ?_⟩
  · rw [h.marks_eq, List.length_cons, List.replicate_succ, List.append_assoc]
    rfl
  · have hlength : done.length + (rest.length + 1) = cs.length := h.length_eq
    rw [List.length_append, List.length_singleton]
    omega

/-! ### The parts of a scan -/

theorem lineComment?_eq (h : Before cs s done rest) :
    ∃ s', lineComment? cs s = some s' ∧
      Before cs s' (done ++ List.replicate (rest.takeWhile (· ≠ '\n')).length false)
        (rest.drop (rest.takeWhile (· ≠ '\n')).length) := by
  induction rest generalizing s done with
  | nil =>
    rw [lineComment?, if_neg h.at_end]
    exact ⟨s, rfl, by simpa using h⟩
  | cons c rest ih =>
    obtain ⟨hlt, hget, -, -⟩ := ahead h.drop_eq
    rw [lineComment?, if_pos hlt, hget]
    by_cases hc : c = '\n'
    · subst hc
      exact ⟨s, rfl, by simpa using h⟩
    · obtain ⟨marks, hmarks, hnext⟩ := h.hide_one
      obtain ⟨s', hs', hend⟩ := ih hnext
      refine ⟨s', ?_, ?_⟩
      · simp [hc, hmarks, hs']
      · simpa [hc, List.replicate_succ] using hend

/-- A comment that is not closed ends with the source. -/
theorem blockEnd?_eq {i : Nat} (hi : i ≤ cs.length) (h : cs.drop i = rest) :
    ∃ closing, blockEnd? cs i = some closing ∧
      min (closing + 2) cs.length = i + blockCommentSize rest := by
  have hlength : rest.length = cs.length - i := by rw [← h, List.length_drop]
  fun_induction blockCommentSize rest generalizing i with
  | case1 rest =>
    obtain ⟨hlt, hget, hget', -⟩ := ahead h
    rw [List.length_cons, List.length_cons] at hlength
    refine ⟨i, ?_, by omega⟩
    rw [blockEnd?, if_pos hlt, hget, hget']
    rfl
  | case2 c rest hopen ih =>
    obtain ⟨hlt, hget, hget', hnext⟩ := ahead h
    rw [List.length_cons] at hlength
    obtain ⟨closing, hclosing, hstop⟩ := ih hlt hnext (by omega)
    refine ⟨closing, ?_, by omega⟩
    rw [blockEnd?, if_pos hlt, hget, hget']
    simpa [not_ahead hopen] using hclosing
  | case3 =>
    rw [List.length_nil] at hlength
    refine ⟨i, ?_, by omega⟩
    rw [blockEnd?, if_neg (by omega)]

/-- A backslash at the end of the source steps over a character that is not there. -/
theorem string?_eq (quote : Char) (h : Before cs s done rest) :
    ∃ s', string? quote cs s = some s' ∧
      Before cs s' (done ++ List.replicate (stringSize quote rest) false)
        (rest.drop (stringSize quote rest)) := by
  fun_induction stringSize quote rest generalizing s done with
  | case1 =>
    rw [string?, if_neg h.at_end]
    exact ⟨s, rfl, by simpa using h⟩
  | case2 =>
    obtain ⟨hlt, hget, -, -⟩ := ahead h.drop_eq
    obtain ⟨marks, hmarks, hnext⟩ := h.hide_one
    have hlast : ¬ s.position + 1 < cs.length := hnext.at_end
    have hend : Before cs ⟨marks, s.position + 2⟩ (done ++ [false]) [] :=
      ⟨List.drop_eq_nil_of_le (Nat.le_succ_of_le (not_lt.1 hlast)), hnext.marks_eq, hnext.length_eq⟩
    refine ⟨⟨marks, s.position + 2⟩, ?_, hend⟩
    have hstop : string? quote cs ⟨marks, s.position + 2⟩ = some ⟨marks, s.position + 2⟩ := by
      rw [string?, if_neg hend.at_end]
    rw [string?, if_pos hlt, hget, hmarks]
    simp [hlast, hstop]
  | case3 c rest ih =>
    obtain ⟨hlt, hget, -, -⟩ := ahead h.drop_eq
    obtain ⟨marks, hmarks, hnext⟩ := h.hide_one
    obtain ⟨marks', hmarks', hnext'⟩ := hnext.hide_one
    obtain ⟨s', hs', hend⟩ := ih hnext'
    refine ⟨s', ?_, ?_⟩
    · rw [string?, if_pos hlt, hget, hmarks]
      simp [(ahead hnext.drop_eq).1, hmarks', hs']
    · simpa [List.replicate_succ] using hend
  | case4 rest hlast hescape =>
    obtain ⟨hlt, hget, -, -⟩ := ahead h.drop_eq
    obtain ⟨marks, hmarks, hnext⟩ := h.hide_one
    refine ⟨⟨marks, s.position + 1⟩, ?_, by simpa using hnext⟩
    rw [string?, if_pos hlt, hget, hmarks]
    simp [ne_backslash hlast hescape]
  | case5 c rest hlast hescape hquote ih =>
    obtain ⟨hlt, hget, -, -⟩ := ahead h.drop_eq
    obtain ⟨marks, hmarks, hnext⟩ := h.hide_one
    obtain ⟨s', hs', hend⟩ := ih hnext
    refine ⟨s', ?_, ?_⟩
    · rw [string?, if_pos hlt, hget, hmarks]
      simp [ne_backslash hlast hescape, hquote, hs']
    · simpa [List.replicate_succ] using hend

/-- **One region** is marked as what it is. -/
theorem region?_eq (h : Before cs s done rest) (hrest : rest ≠ []) :
    ∃ s', region? cs s = some s' ∧
      Before cs s' (done ++ List.replicate (region rest).1 (region rest).2)
        (rest.drop (region rest).1) := by
  fun_cases region rest with
  | case1 => exact absurd rfl hrest
  | case2 rest =>
    obtain ⟨-, hget, hget', -⟩ := ahead h.drop_eq
    obtain ⟨s', hs', hend⟩ := lineComment?_eq h
    refine ⟨s', ?_, ?_⟩
    · simp [region?, hget, hget', hs']
    · simpa [Nat.add_comm 2] using hend
  | case3 rest =>
    obtain ⟨-, hget, hget', hnext⟩ := ahead h.drop_eq
    obtain ⟨hlt, -, -, hbehind⟩ := ahead hnext
    obtain ⟨closing, hclosing, hstop⟩ := blockEnd?_eq hlt hbehind
    have hstop : min (closing + 2) cs.length = s.position + (2 + blockCommentSize rest) := by omega
    have hsize : 2 + blockCommentSize rest ≤ ('*' :: rest).length + 1 := by
      have hlength := congrArg List.length hnext
      rw [List.length_drop] at hlength
      omega
    obtain ⟨marks, hmarks, hend⟩ := h.hide hsize
    refine ⟨_, ?_, hend⟩
    simp [region?, hget, hget', hclosing, hstop, hmarks]
  | case4 c rest hline hblock hquote =>
    obtain ⟨-, hget, -, -⟩ := ahead h.drop_eq
    obtain ⟨marks, hmarks, hnext⟩ := h.hide_one
    obtain ⟨s', hs', hend⟩ := string?_eq c hnext
    have hslash : c ≠ '/' := by
      rintro rfl
      simp [isQuote] at hquote
    refine ⟨s', ?_, ?_⟩
    · simp [region?, hget, hslash, hquote, hmarks, hs']
    · simpa [Nat.add_comm 1, List.replicate_succ] using hend
  | case5 c rest hline hblock hquote =>
    obtain ⟨-, hget, hget', -⟩ := ahead h.drop_eq
    refine ⟨_, ?_, h.keep_one⟩
    simp [region?, hget, hget', not_ahead hline, not_ahead hblock, hquote]

theorem marksFrom?_eq (h : Before cs s done rest) :
    marksFrom? cs s = some (done ++ automaton .code rest) := by
  induction hn : rest.length using Nat.strongRecOn generalizing rest s done with
  | _ n ih =>
    cases rest with
    | nil =>
      rw [marksFrom?, if_neg h.at_end, h.marks_eq]
      rfl
    | cons c more =>
      obtain ⟨hlt, -, -, -⟩ := ahead h.drop_eq
      have hpos := region_pos (List.cons_ne_nil c more)
      obtain ⟨s', hs', hnext⟩ := region?_eq h (List.cons_ne_nil c more)
      have hshort : ((c :: more).drop (region (c :: more)).1).length < n := by
        rw [List.length_drop]
        simp only [List.length_cons] at hn ⊢
        omega
      have hon : s.position < s'.position := h.lt_position hnext (by simpa using hpos.ne')
      rw [marksFrom?, if_pos hlt, hs', automaton_region, ← List.append_assoc, ← ih _ hshort hnext rfl]
      exact if_pos hon

/-- **A scan comes to the end of every source** without leaving it, and finds the marks of the source. -/
theorem marks?_eq (cs : List Char) : marks? cs = some (codeMask cs) := by
  rw [codeMask_eq_automaton]
  exact marksFrom?_eq (before_start cs)

end Scan

/-! ### What the marks say -/

/-- A reader who comes to a character in this mode is outside of comments and strings: a line comment has
ended when the end of the line comes. -/
def Mode.IsOutside (mode : Mode) (c : Char) : Prop :=
  mode = .code ∨ mode = .lineComment ∧ c = '\n'

/-- The character begins a mark that opens a comment or a string, seen with the next one. -/
def Opens (c : Char) (next : Option Char) : Prop :=
  c = '/' ∧ (next = some '/' ∨ next = some '*') ∨ isQuote c = true

theorem Mode.step_fst_iff (mode : Mode) (c : Char) (next : Option Char) :
    (mode.step c next).1 = true ↔ mode.IsOutside c ∧ ¬ Opens c next := by
  cases mode with
  | code =>
    by_cases hline : c = '/' ∧ next = some '/'
    · simp [Mode.step, Opens, hline]
    · by_cases hblock : c = '/' ∧ next = some '*'
      · simp [Mode.step, Opens, hblock]
      · by_cases hquote : isQuote c = true
        · simp [Mode.step, Opens, hline, hblock, hquote]
        · simp [Mode.step, Opens, Mode.IsOutside, hline, hblock, hquote, and_or_left]
  | lineComment =>
    by_cases hend : c = '\n'
    · subst hend
      simp [Mode.step, Opens, Mode.IsOutside, isQuote]
    · simp [Mode.step, Mode.IsOutside, hend]
  | blockOpened => simp [Mode.step, Mode.IsOutside]
  | blockComment =>
    by_cases hclose : c = '*' ∧ next = some '/' <;> simp [Mode.step, Mode.IsOutside, hclose]
  | blockClosing => simp [Mode.step, Mode.IsOutside]
  | string quote =>
    by_cases hescape : c = '\\'
    · simp [Mode.step, Mode.IsOutside, hescape]
    · by_cases hquote : c = quote
      · subst hquote
        simp [Mode.step, Mode.IsOutside, hescape]
      · simp [Mode.step, Mode.IsOutside, hescape, hquote]
  | escaped quote => simp [Mode.step, Mode.IsOutside]

/-- **The marks of a source.** A scan of it reads and marks only positions that it has, ends, and finds one
mark for each character. The mark of a position stands exactly if the reader who goes through the source
character by character is outside of comments and strings there and the character does not open one. -/
theorem codeMask_exact (cs : List Char) :
    Scan.marks? cs = some (codeMask cs) ∧ (codeMask cs).length = cs.length ∧
      ∀ i, (codeMask cs)[i]? = some true ↔
        ∃ c, cs[i]? = some c ∧ (modeAt cs i).IsOutside c ∧ ¬ Opens c cs[i + 1]? := by
  refine ⟨Scan.marks?_eq cs, length_codeMask cs, fun i => ?_⟩
  simp only [getElem?_codeMask, Option.map_eq_some_iff, Mode.step_fst_iff]

/-- The star that opens a comment does not close it, and the comment ends with the source. -/
example : codeMask ['/', '*', '/', ' ', 'x'] = [false, false, false, false, false] := by decide

end BulkEdit.Source
