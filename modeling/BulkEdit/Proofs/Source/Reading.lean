import BulkEdit.Source.Parenthesis
import Mathlib.Data.List.TakeWhile

/-!
# Reading a source character by character

A source is marked region by region, but the marks are those of a reader who goes through it character by
character and looks one character ahead (`codeMask_eq_automaton`). So the glyph at a position is known from
the mode in which the reader comes there (`getElem?_glyphs`), and the mode at the next position from the
character in between (`modeAt_succ`).
-/

namespace BulkEdit.Source

/-! ### Regions and modes -/

section

variable {c d e : Char} {rest : List Char}

/-- Two characters that are not matched at the beginning of a text are not seen there by a reader who looks
one character ahead. -/
theorem not_ahead (h : ∀ more, c = d → rest = e :: more → False) : ¬(c = d ∧ rest.head? = some e) := by
  rintro ⟨hc, hhead⟩
  obtain ⟨more, rfl⟩ := List.head?_eq_some_iff.1 hhead
  exact h more hc rfl

/-- A character that is matched neither as a backslash at the end nor as one before another character. -/
theorem ne_backslash (hlast : c = '\\' → rest = [] → False)
    (hescape : ∀ d more, c = '\\' → rest = d :: more → False) : c ≠ '\\' := by
  rintro rfl
  cases rest with
  | nil => exact hlast rfl rfl
  | cons d more => exact hescape d more rfl rfl

end

theorem automaton_lineComment (cs : List Char) : automaton .lineComment cs =
    List.replicate (cs.takeWhile (· ≠ '\n')).length false ++
      automaton .code (cs.drop (cs.takeWhile (· ≠ '\n')).length) := by
  induction cs with
  | nil => rfl
  | cons c rest ih =>
    by_cases hc : c = '\n'
    · -- the line break that ends the comment is code, whether read in the comment or after it
      subst hc
      simp [automaton, Mode.step, isQuote]
    · have htake : (c :: rest).takeWhile (· ≠ '\n') = c :: rest.takeWhile (· ≠ '\n') := by simp [hc]
      rw [htake, List.length_cons, List.replicate_succ, List.drop_succ_cons, List.cons_append, ← ih]
      simp [automaton, Mode.step, hc]

theorem automaton_blockComment (cs : List Char) : automaton .blockComment cs =
    List.replicate (blockCommentSize cs) false ++ automaton .code (cs.drop (blockCommentSize cs)) := by
  fun_induction blockCommentSize cs with
  | case1 rest => simp [automaton, Mode.step]
  | case2 c rest hopen ih =>
    rw [List.replicate_succ, List.drop_succ_cons, List.cons_append, ← ih]
    simp only [automaton, Mode.step, if_neg (not_ahead hopen)]
  | case3 => rfl

theorem automaton_string (quote : Char) (cs : List Char) : automaton (.string quote) cs =
    List.replicate (stringSize quote cs) false ++ automaton .code (cs.drop (stringSize quote cs)) := by
  fun_induction stringSize quote cs with
  | case1 => rfl
  | case2 => rfl
  | case3 c rest ih =>
    rw [List.replicate_succ, List.replicate_succ, List.drop_succ_cons, List.drop_succ_cons,
      List.cons_append, List.cons_append, ← ih]
    simp [automaton, Mode.step]
  | case4 rest hlast hescape =>
    simp [automaton, Mode.step, ne_backslash hlast hescape]
  | case5 c rest hlast hescape hquote ih =>
    rw [List.replicate_succ, List.drop_succ_cons, List.cons_append, ← ih]
    simp [automaton, Mode.step, ne_backslash hlast hescape, hquote]

theorem automaton_region (cs : List Char) : automaton .code cs =
    List.replicate (region cs).1 (region cs).2 ++ automaton .code (cs.drop (region cs).1) := by
  fun_cases region cs with
  | case1 => rfl
  | case2 rest =>
    rw [show 2 + (rest.takeWhile (· ≠ '\n')).length = (rest.takeWhile (· ≠ '\n')).length + 1 + 1 by omega]
    simp only [List.replicate_succ, List.drop_succ_cons, List.cons_append, ← automaton_lineComment]
    simp [automaton, Mode.step]
  | case3 rest =>
    rw [show 2 + blockCommentSize rest = blockCommentSize rest + 1 + 1 by omega]
    simp only [List.replicate_succ, List.drop_succ_cons, List.cons_append, ← automaton_blockComment]
    simp [automaton, Mode.step]
  | case4 c rest hline hblock hquote =>
    have hslash : c ≠ '/' := by
      rintro rfl
      simp [isQuote] at hquote
    rw [Nat.add_comm, List.replicate_succ, List.drop_succ_cons, List.cons_append, ← automaton_string]
    simp [automaton, Mode.step, hslash, hquote]
  | case5 c rest hline hblock hquote =>
    simp [automaton, Mode.step, not_ahead hline, not_ahead hblock, hquote]

theorem region_pos {cs : List Char} (h : cs ≠ []) : 0 < (region cs).1 := by
  fun_cases region cs with
  | case1 => exact absurd rfl h
  | case2 rest => omega
  | case3 rest => omega
  | case4 c rest => omega
  | case5 c rest => exact Nat.one_pos

theorem maskFrom_eq {fuel : Nat} {cs : List Char} (h : cs.length ≤ fuel) :
    maskFrom fuel cs = automaton .code cs := by
  induction fuel generalizing cs with
  | zero =>
    obtain rfl := List.length_eq_zero_iff.1 (Nat.le_zero.1 h)
    rfl
  | succ fuel ih =>
    cases cs with
    | nil => rfl
    | cons c rest =>
      have hpos := region_pos (List.cons_ne_nil c rest)
      have hshort : ((c :: rest).drop (region (c :: rest)).1).length ≤ fuel := by
        rw [List.length_drop]
        omega
      rw [maskFrom, automaton_region (c :: rest), ← ih hshort]

/-- **The marks of a source are those of the automaton.** -/
theorem codeMask_eq_automaton (cs : List Char) : codeMask cs = automaton .code cs :=
  maskFrom_eq le_rfl

/-! ### Glyphs and modes by position -/

theorem getElem?_of_drop {α : Type} {l r : List α} {x : α} {i : Nat} (h : l.drop i = x :: r) :
    l[i]? = some x ∧ l.drop (i + 1) = r := by
  constructor
  · rw [← List.head?_drop, h]
    rfl
  · rw [← List.tail_drop, h]
    rfl

/-- The glyphs that are read from a mode on. -/
def reading : Mode → List Char → List Glyph
  | _, [] => []
  | mode, c :: rest =>
    let (isCode, mode) := mode.step c rest.head?
    ⟨c, isCode⟩ :: reading mode rest

theorem reading_cons (mode : Mode) (c : Char) (rest : List Char) : reading mode (c :: rest) =
    ⟨c, (mode.step c rest.head?).1⟩ :: reading (mode.step c rest.head?).2 rest := rfl

theorem glyphs_eq_reading (cs : List Char) : glyphs cs = reading .code cs := by
  have hzip : ∀ (cs : List Char) (mode : Mode),
      ((cs.zip (automaton mode cs)).map fun mark => (⟨mark.1, mark.2⟩ : Glyph)) = reading mode cs := by
    intro cs
    induction cs with
    | nil => exact fun _ => rfl
    | cons c rest ih => exact fun mode => congrArg _ (ih _)
  rw [glyphs, codeMask_eq_automaton]
  exact hzip cs .code

theorem map_char_reading (mode : Mode) (cs : List Char) : (reading mode cs).map Glyph.char = cs := by
  induction cs generalizing mode with
  | nil => rfl
  | cons c rest ih => rw [reading_cons, List.map_cons, ih]

theorem map_char_glyphs (cs : List Char) : (glyphs cs).map Glyph.char = cs := by
  rw [glyphs_eq_reading, map_char_reading]

theorem length_glyphs (cs : List Char) : (glyphs cs).length = cs.length := by
  simpa using congrArg List.length (map_char_glyphs cs)

theorem map_isCode_reading (mode : Mode) (cs : List Char) :
    (reading mode cs).map Glyph.isCode = automaton mode cs := by
  induction cs generalizing mode with
  | nil => rfl
  | cons c rest ih =>
    rw [reading_cons, List.map_cons, ih]
    rfl

theorem map_isCode_glyphs (cs : List Char) : (glyphs cs).map Glyph.isCode = codeMask cs := by
  rw [glyphs_eq_reading, map_isCode_reading, codeMask_eq_automaton]

theorem length_codeMask (cs : List Char) : (codeMask cs).length = cs.length := by
  rw [← map_isCode_glyphs, List.length_map, length_glyphs]

/-- The mode in which a reader comes to a position. -/
def modeFrom : Mode → List Char → Nat → Mode
  | mode, _, 0 => mode
  | mode, [], _ + 1 => mode
  | mode, c :: rest, i + 1 => modeFrom (mode.step c rest.head?).2 rest i

/-- The mode in which a reader of a source comes to a position. -/
def modeAt (cs : List Char) (i : Nat) : Mode :=
  modeFrom .code cs i

theorem modeAt_zero (cs : List Char) : modeAt cs 0 = .code := by
  cases cs <;> rfl

theorem modeFrom_succ {mode : Mode} {cs : List Char} {i : Nat} {c : Char} (h : cs[i]? = some c) :
    modeFrom mode cs (i + 1) = ((modeFrom mode cs i).step c cs[i + 1]?).2 := by
  induction cs generalizing mode i with
  | nil => simp at h
  | cons d rest ih =>
    cases i with
    | zero =>
      obtain rfl : d = c := by simpa using h
      simp [modeFrom, List.head?_eq_getElem?]
    | succ i =>
      have h : rest[i]? = some c := by simpa using h
      rw [modeFrom, ih h]
      simp [modeFrom]

theorem modeAt_succ {cs : List Char} {i : Nat} {c : Char} (h : cs[i]? = some c) :
    modeAt cs (i + 1) = ((modeAt cs i).step c cs[i + 1]?).2 :=
  modeFrom_succ h

theorem getElem?_reading (mode : Mode) (cs : List Char) (i : Nat) : (reading mode cs)[i]? =
    cs[i]?.map fun c => ⟨c, ((modeFrom mode cs i).step c cs[i + 1]?).1⟩ := by
  induction cs generalizing mode i with
  | nil => rfl
  | cons c rest ih =>
    cases i with
    | zero => simp [reading_cons, modeFrom, List.head?_eq_getElem?]
    | succ i => simp [reading_cons, modeFrom, ih]

theorem getElem?_glyphs (cs : List Char) (i : Nat) : (glyphs cs)[i]? =
    cs[i]?.map fun c => ⟨c, ((modeAt cs i).step c cs[i + 1]?).1⟩ := by
  rw [glyphs_eq_reading]
  exact getElem?_reading .code cs i

theorem getElem?_codeMask (cs : List Char) (i : Nat) : (codeMask cs)[i]? =
    cs[i]?.map fun c => ((modeAt cs i).step c cs[i + 1]?).1 := by
  rw [← map_isCode_glyphs, List.getElem?_map, getElem?_glyphs, Option.map_map]
  rfl

end BulkEdit.Source
