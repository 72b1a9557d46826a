import BulkEdit.Proofs.Source.Cuts
import BulkEdit.Source.Normalizer

/-!
# Passes and the code of a source

Leaving out parentheses and blanks of code does not change what else is code, as long as no two marks come
together that open a comment and no line comment loses the line break that ends it (`glyphs_leftover`). The
first never happens; the second happens where the closing parenthesis of a redundant pair stands on a new line
after a line comment, because all blanks before that parenthesis are left out. Sources that come to the same
canonical form without such a pass have the same code (`equivalent_sameCode`).
-/

namespace BulkEdit.Source

/-! ### Modes -/

theorem isQuote_of_isFiller {c : Char} (hc : isFiller c = true) : isQuote c = false := by
  simp only [isFiller, Bool.or_eq_true, decide_eq_true_eq] at hc
  rcases hc with (rfl | rfl) | hc
  · rfl
  · rfl
  · simp [isQuote, ne_of_isBlank hc (show Text.isBlank '"' = false by decide),
      ne_of_isBlank hc (show Text.isBlank '\'' = false by decide),
      ne_of_isBlank hc (show Text.isBlank '\x60' = false by decide)]

namespace Mode

variable {mode : Mode} {c : Char} {next next' : Option Char}

theorem step_filler (hc : isFiller c = true) (next : Option Char) : code.step c next = (true, code) := by
  have hslash : c ≠ '/' := ne_of_isFiller hc (by decide)
  simp [step, hslash, isQuote_of_isFiller hc]

/-- Only slashes and stars look ahead, and only for slashes and stars. -/
theorem step_congr (h : c = '/' ∨ c = '*' →
      (next = some '/' ↔ next' = some '/') ∧ (next = some '*' ↔ next' = some '*')) :
    mode.step c next = mode.step c next' := by
  cases mode <;> simp only [step] <;> grind

/-- Code is read in code, except for the line break after a line comment. -/
theorem code_of_step (h : (mode.step c next).1 = true) : mode = code ∨ mode = lineComment ∧ c = '\n' := by
  cases mode <;> simp only [step] at h <;> grind

/-- What a reader knows in a mode: that a comment is closed by a slash, and which quotes there are. -/
def Fits : Mode → Option Char → Prop
  | blockClosing, next => next = some '/'
  | string quote, _ => isQuote quote = true
  | escaped quote, _ => isQuote quote = true
  | _, _ => True

theorem Fits.step (h : mode.Fits (some c)) : (mode.step c next).2.Fits next := by
  cases mode <;> simp only [Mode.step, Fits] at h ⊢ <;> grind [Fits]

/-- Before a blank that leads into code or into a line comment, the reader is in one of the two. -/
theorem before_blank (hc : Text.isBlank c = true) (hfits : mode.Fits (some c))
    (h : (mode.step c next).2 = code ∨ (mode.step c next).2 = lineComment) :
    mode = code ∨ mode = lineComment := by
  have hfiller : isFiller c = true := Bool.or_eq_true_iff.2 (.inr hc)
  cases mode with
  | code => exact .inl rfl
  | lineComment => exact .inr rfl
  | blockOpened => simp [step] at h
  | blockComment =>
    have hstar : c ≠ '*' := ne_of_isFiller hfiller (by decide)
    simp [step, hstar] at h
  | blockClosing =>
    have hslash : c ≠ '/' := ne_of_isFiller hfiller (by decide)
    exact absurd (Option.some.inj hfits) hslash
  | string quote =>
    have hescape : c ≠ '\\' := ne_of_isFiller hfiller (by decide)
    have hquote : c ≠ quote := by
      rintro rfl
      have hno := isQuote_of_isFiller hfiller
      rw [show isQuote c = true from hfits] at hno
      cases hno
    simp [step, hescape, hquote] at h
  | escaped quote => simp [step] at h

end Mode

variable {cs : List Char} {ps : List Pair} {p : Pair} {i : Nat} {c : Char}

theorem fits_modeAt (h : cs[i]? = some c) : (modeAt cs i).Fits (some c) := by
  induction i generalizing c with
  | zero =>
    rw [modeAt_zero]
    trivial
  | succ i ih =>
    have hlt := (List.getElem?_eq_some_iff.1 h).1
    obtain ⟨d, hd⟩ : ∃ d, cs[i]? = some d := ⟨_, List.getElem?_eq_getElem (by omega)⟩
    rw [modeAt_succ hd, h]
    exact (ih hd).step

/-- At a glyph of code that is no line break, the reader is in code. -/
theorem modeAt_of_isCode {g : Glyph} (h : (glyphs cs)[i]? = some g) (hcode : g.isCode = true)
    (hchar : g.char ≠ '\n') : modeAt cs i = .code := by
  rw [getElem?_glyphs, Option.map_eq_some_iff] at h
  obtain ⟨c, -, rfl⟩ := h
  rcases Mode.code_of_step hcode with hmode | ⟨-, hc⟩
  · exact hmode
  · exact absurd hc hchar

theorem getElem?_of_glyphs {g : Glyph} (h : (glyphs cs)[i]? = some g) : cs[i]? = some g.char := by
  rw [getElem?_glyphs, Option.map_eq_some_iff] at h
  obtain ⟨c, hc, rfl⟩ := h
  exact hc

theorem modeAt_succ_of_filler (h : cs[i]? = some c) (hc : isFiller c = true) (hmode : modeAt cs i = .code) :
    modeAt cs (i + 1) = .code := by
  rw [modeAt_succ h, hmode, Mode.step_filler hc]

theorem modeAt_after_fillers {j : Nat} (hij : i ≤ j)
    (hfillers : ∀ k, i ≤ k → k < j → ∃ c, cs[k]? = some c ∧ isFiller c = true) (hmode : modeAt cs i = .code) :
    modeAt cs j = .code := by
  induction j, hij using Nat.le_induction with
  | base => exact hmode
  | succ j hij ih =>
    obtain ⟨c, hc, hfiller⟩ := hfillers j hij (Nat.lt_succ_self j)
    exact modeAt_succ_of_filler hc hfiller (ih fun k hik hkj => hfillers k hik (by omega))

/-- Blanks that lead into code begin in code, or in a line comment. -/
theorem modeAt_before_blanks {j : Nat} (hij : i ≤ j)
    (hblanks : ∀ k, i ≤ k → k < j → ∃ c, cs[k]? = some c ∧ Text.isBlank c = true)
    (hmode : modeAt cs j = .code ∨ modeAt cs j = .lineComment) :
    modeAt cs i = .code ∨ modeAt cs i = .lineComment := by
  induction j, hij using Nat.le_induction with
  | base => exact hmode
  | succ j hij ih =>
    obtain ⟨c, hc, hblank⟩ := hblanks j hij (Nat.lt_succ_self j)
    rw [modeAt_succ hc] at hmode
    exact ih (fun k hik hkj => hblanks k hik (by omega)) (Mode.before_blank hblank (fits_modeAt hc) hmode)

/-! ### Line comments that lose their end -/

/-- Whether leaving a pair out takes away the end of a line comment: the blanks before the closing
parenthesis begin in one. -/
def Pair.joinsComment (p : Pair) (cs : List Char) : Bool :=
  modeAt cs (p.closing - (p.cut (glyphs cs)).trail) = .lineComment

/-- Whether a pass takes away the end of a line comment. -/
def joinsComment (cs : List Char) : Bool :=
  match pairs (glyphs cs) with
  | some ps => ps.any fun p => p.isRedundant (glyphs cs) && p.joinsComment cs
  | none => false

/-- A pass over a source that takes away no end of a line comment. -/
structure Careful (cs : List Char) (ps : List Pair) : Prop where
  pairs : pairs (glyphs cs) = some ps
  ends : ∀ p ∈ ps, p.isRedundant (glyphs cs) = true → p.joinsComment cs = false

theorem careful_of_pairs (hps : pairs (glyphs cs) = some ps) (h : joinsComment cs = false) :
    Careful cs ps := by
  refine ⟨hps, fun p hp hr => ?_⟩
  simp only [joinsComment, hps, List.any_eq_false, Bool.and_eq_true, not_and, Bool.not_eq_true] at h
  exact h p hp hr

/-- In the blanks before a closing parenthesis the reader is in code, unless they begin in a line
comment. -/
theorem modeAt_of_trail (hp : Stands (glyphs cs) p) (hends : p.joinsComment cs = false)
    (hi : p.closing ≤ i + (p.cut (glyphs cs)).trail) (hip : i ≤ p.closing) : modeAt cs i = .code := by
  have htrail := trail_lt hp
  have hblank : ∀ k, p.closing - (p.cut (glyphs cs)).trail ≤ k → k < p.closing →
      ∃ c, cs[k]? = some c ∧ Text.isBlank c = true := by
    intro k hk hkp
    obtain ⟨-, g, hg, hgb⟩ := blank_of_trail hp (by omega) hkp
    exact ⟨g.char, getElem?_of_glyphs hg, hgb⟩
  have hclosing : modeAt cs p.closing = .code := modeAt_of_isCode hp.closing rfl (by decide)
  have hstart : modeAt cs (p.closing - (p.cut (glyphs cs)).trail) = .code := by
    refine (modeAt_before_blanks (by omega) hblank (.inl hclosing)).resolve_right ?_
    simpa [Pair.joinsComment] using hends
  refine modeAt_after_fillers (by omega) (fun k hk hki => ?_) hstart
  obtain ⟨c, hc, hcb⟩ := hblank k hk (by omega)
  exact ⟨c, hc, Bool.or_eq_true_iff.2 (.inr hcb)⟩

/-- After the opening parenthesis of a pair, and in the blanks after it, the reader is in code. -/
theorem modeAt_of_lead (hp : Stands (glyphs cs) p) (hi : i ≤ p.opening + (p.cut (glyphs cs)).lead)
    (hpi : p.opening ≤ i) : modeAt cs i = .code := by
  refine modeAt_after_fillers hpi (fun k hk hki => ?_) (modeAt_of_isCode hp.opening rfl (by decide))
  rcases Nat.eq_or_lt_of_le hk with rfl | hk
  · exact ⟨'(', getElem?_of_glyphs hp.opening, by decide⟩
  · obtain ⟨-, g, hg, hgb⟩ := blank_of_lead (show k ≤ p.opening + (p.cut (glyphs cs)).lead by omega) hk
    exact ⟨g.char, getElem?_of_glyphs hg, Bool.or_eq_true_iff.2 (.inr hgb)⟩

namespace Careful

variable (h : Careful cs ps)

include h

theorem modeAt_of_touched (ht : Touched (redundantCuts (glyphs cs) ps) i) : modeAt cs i = .code := by
  obtain ⟨p, hp, hr, rfl | rfl | ⟨hi, hlead⟩ | ⟨htrail, hi⟩⟩ := touched_cases ht
  · exact modeAt_of_isCode (stands h.pairs hp).opening rfl (by decide)
  · exact modeAt_of_isCode (stands h.pairs hp).closing rfl (by decide)
  · exact modeAt_of_lead (stands h.pairs hp) hlead hi.le
  · exact modeAt_of_trail (stands h.pairs hp) (h.ends p hp hr) htrail hi.le

/-- What is read at a glyph that stays is not changed by what is left after it. -/
theorem step_of_untouched (hi : ¬Touched (redundantCuts (glyphs cs) ps) i) (hc : cs[i]? = some c) :
    (modeAt cs i).step c ((edit (redundantCuts (glyphs cs) ps) (i + 1) ((glyphs cs).drop (i + 1))).map
      Glyph.char).head? = (modeAt cs i).step c cs[i + 1]? := by
  have hg := getElem?_glyphs cs i
  rw [hc, Option.map_some] at hg
  cases hnext : cs[i + 1]? with
  | none =>
    have hnil : (glyphs cs).drop (i + 1) = [] := by
      rw [List.drop_eq_nil_iff, length_glyphs]
      exact List.getElem?_eq_none_iff.1 hnext
    rw [hnil]
    rfl
  | some d =>
    have hd := getElem?_glyphs cs (i + 1)
    rw [hnext, Option.map_some] at hd
    by_cases htouched : Touched (redundantCuts (glyphs cs) ps) (i + 1)
    · -- neither the filler that stood there nor what comes in its place opens or closes a comment
      refine Mode.step_congr fun hmark => ?_
      have hblank : Text.isBlank c = false := by
        rcases hmark with rfl | rfl <;> decide
      have hfiller := filler_of_touched h.pairs htouched hd
      have hcloses := closes_after h.pairs hi hg hblank htouched
      have hmarks : ∀ mark, isFiller mark = false → isCloser mark = false →
          (((edit (redundantCuts (glyphs cs) ps) (i + 1) ((glyphs cs).drop (i + 1))).map
            Glyph.char).head? = some mark ↔ some d = some mark) := by
        intro mark hmark hmark'
        refine iff_of_false (fun hhead => ?_) fun heq => ne_of_isFiller hfiller hmark (Option.some.inj heq)
        rw [List.head?_map, Option.map_eq_some_iff] at hhead
        obtain ⟨x, hx, rfl⟩ := hhead
        rcases hcloses x hx with hx | hx
        · rw [isFiller, show Text.isBlank x.char = true from hx, Bool.or_true] at hmark
          cases hmark
        · rw [hx] at hmark'
          cases hmark'
      exact ⟨hmarks '/' (by decide) (by decide), hmarks '*' (by decide) (by decide)⟩
    · rw [drop_eq_cons hd, edit_of_untouched htouched]
      rfl

/-- A careful pass leaves all glyphs as they are read, except those that it touches. -/
theorem glyphs_leftover : glyphs ((leftover (glyphs cs) ps).map Glyph.char) = leftover (glyphs cs) ps := by
  have hfrom : ∀ (rest : List Char) (i : Nat), cs.drop i = rest →
      reading (modeAt cs i) ((edit (redundantCuts (glyphs cs) ps) i ((glyphs cs).drop i)).map Glyph.char) =
        edit (redundantCuts (glyphs cs) ps) i ((glyphs cs).drop i) := by
    intro rest
    induction rest with
    | nil =>
      intro i hrest
      have hnil : (glyphs cs).drop i = [] := by
        rw [List.drop_eq_nil_iff, length_glyphs]
        exact List.drop_eq_nil_iff.1 hrest
      rw [hnil]
      rfl
    | cons c rest ih =>
      intro i hrest
      obtain ⟨hc, hdrop⟩ := getElem?_of_drop hrest
      have hg := getElem?_glyphs cs i
      rw [hc, Option.map_some] at hg
      rw [drop_eq_cons hg]
      have hih := ih (i + 1) hdrop
      by_cases htouched : Touched (redundantCuts (glyphs cs) ps) i
      · have hmode := h.modeAt_of_touched htouched
        have hfiller := filler_of_touched h.pairs htouched hg
        rw [modeAt_succ_of_filler hc hfiller hmode] at hih
        rw [hmode]
        rcases edit_of_touched htouched _ ((glyphs cs).drop (i + 1)) with hedit | hedit
        · rw [hedit, hih]
        · rw [hedit, List.map_cons, reading_cons, Mode.step_filler rfl, hih]
      · rw [edit_of_untouched htouched, List.map_cons, reading_cons, h.step_of_untouched htouched hc,
          ← modeAt_succ hc, hih]
  have hall := hfrom _ 0 rfl
  rw [modeAt_zero, List.drop_zero] at hall
  rw [glyphs_eq_reading, leftover, hall]

end Careful

/-! ### The code of a source -/

/-- Whether a glyph is code other than parentheses and blanks. -/
def Glyph.isText (g : Glyph) : Bool :=
  g.isCode && !isFiller g.char

theorem isText_filler (g : Glyph) (h : isFiller g.char = true) : g.isText = false := by
  simp [Glyph.isText, h]

/-- The code of a source without parentheses and blanks. -/
def codeText (cs : List Char) : List Char :=
  ((glyphs cs).filter Glyph.isText).map Glyph.char

/-- A pass touches nothing but parentheses and blanks: what is of a kind that these are not of stays, in its
order. -/
theorem filter_leftover {gs : List Glyph} {kind : Glyph → Bool}
    (hkind : ∀ g, isFiller g.char = true → kind g = false) (hps : pairs gs = some ps) :
    (leftover gs ps).filter kind = gs.filter kind := by
  have hfrom : ∀ (rest : List Glyph) (i : Nat), gs.drop i = rest →
      (edit (redundantCuts gs ps) i rest).filter kind = rest.filter kind := by
    intro rest
    induction rest with
    | nil => exact fun _ _ => rfl
    | cons g rest ih =>
      intro i hrest
      obtain ⟨hg, hdrop⟩ := getElem?_of_drop hrest
      have hih := ih (i + 1) hdrop
      by_cases htouched : Touched (redundantCuts gs ps) i
      · have hother : kind g = false := hkind g (filler_of_touched hps htouched hg)
        have hblank : kind ⟨' ', true⟩ = false := hkind _ (by decide)
        rw [List.filter_cons_of_neg (by simp [hother])]
        rcases edit_of_touched htouched g rest with hedit | hedit
        · rw [hedit, hih]
        · rw [hedit, List.filter_cons_of_neg (by simp [hblank]), hih]
      · rw [edit_of_untouched htouched, List.filter_cons, List.filter_cons, hih]
  exact hfrom gs 0 List.drop_zero

theorem strip?_eq_some {next : List Char} : strip? cs = some next ↔
    ∃ ps, pairs (glyphs cs) = some ps ∧ (leftover (glyphs cs) ps).map Glyph.char = next := by
  simp only [strip?, Option.map_eq_some_iff, applyCuts_eq]
  rfl

/-- A pass that takes away no end of a line comment keeps the code. -/
theorem codeText_of_strip? {next : List Char} (h : strip? cs = some next)
    (hcomments : joinsComment cs = false) : codeText next = codeText cs := by
  obtain ⟨ps, hps, rfl⟩ := strip?_eq_some.1 h
  rw [codeText, (careful_of_pairs hps hcomments).glyphs_leftover, filter_leftover isText_filler hps, codeText]

/-- The sources over which so many passes go. -/
def passes : Nat → List Char → List (List Char)
  | 0, _ => []
  | n + 1, cs =>
    cs :: match strip? cs with
      | none => []
      | some next => if next = cs then [] else passes n next

/-- What a pass can do: find nothing to leave out, or go on with what it leaves. -/
theorem stripTimes?_succ {n : Nat} {result : List Char} (h : stripTimes? (n + 1) cs = some result) :
    strip? cs = some cs ∧ result = cs ∨
      ∃ next, strip? cs = some next ∧ stripTimes? n next = some result ∧
        passes (n + 1) cs = cs :: passes n next := by
  rw [stripTimes?] at h
  cases hnext : strip? cs with
  | none => simp [hnext] at h
  | some next =>
    rw [hnext] at h
    dsimp only at h
    by_cases hsame : next = cs
    · rw [if_pos hsame] at h
      exact .inl ⟨by rw [hsame], (Option.some.inj h).symm⟩
    · rw [if_neg hsame] at h
      exact .inr ⟨next, rfl, h, by rw [passes, hnext]; simp [hsame]⟩

theorem codeText_of_stripTimes? {n : Nat} {result : List Char} (h : stripTimes? n cs = some result)
    (hcomments : ∀ source ∈ passes n cs, joinsComment source = false) : codeText result = codeText cs := by
  induction n generalizing cs with
  | zero =>
    obtain rfl := Option.some.inj h
    rfl
  | succ n ih =>
    rcases stripTimes?_succ h with ⟨-, rfl⟩ | ⟨next, hnext, hresult, hpasses⟩
    · rfl
    · rw [hpasses] at hcomments
      obtain ⟨hfirst, hlater⟩ := List.forall_mem_cons.1 hcomments
      rw [ih hresult hlater, codeText_of_strip? hnext hfirst]

theorem equivalent_iff {left right : String} : Normalizer.parenthesis.equivalent left right = true ↔
    ∃ form, stripTimes? maxPasses left.toList = some form ∧
      stripTimes? maxPasses right.toList = some form := by
  rw [Normalizer.equivalent, Normalizer.parenthesis, normalize?, normalize?]
  cases stripTimes? maxPasses left.toList with
  | none => simp
  | some l =>
    cases stripTimes? maxPasses right.toList with
    | none => simp
    | some r =>
      simp only [Option.map_some, beq_iff_eq, String.ofList_inj, Option.some.injEq]
      exact ⟨fun h => ⟨l, rfl, h.symm⟩, fun ⟨form, hl, hr⟩ => hl.trans hr.symm⟩

/-- **Equivalent sources have the same code**, if no pass over one of them takes away the end of a line
comment. -/
theorem equivalent_sameCode {left right : String} (h : Normalizer.parenthesis.equivalent left right = true)
    (hleft : ∀ source ∈ passes maxPasses left.toList, joinsComment source = false)
    (hright : ∀ source ∈ passes maxPasses right.toList, joinsComment source = false) :
    codeText left.toList = codeText right.toList := by
  obtain ⟨form, hl, hr⟩ := equivalent_iff.1 h
  rw [← codeText_of_stripTimes? hl hleft, codeText_of_stripTimes? hr hright]

theorem equivalent_sameCode_nested :
    let left := "return ( // sum\n  (a + \"(\") /* ) */\n);"
    let right := "return // sum\n  (a + \"(\") /* ) */;"
    Normalizer.parenthesis.equivalent left right = true ∧
      (∀ source ∈ passes maxPasses left.toList, joinsComment source = false) ∧
      (∀ source ∈ passes maxPasses right.toList, joinsComment source = false) ∧
      codeText left.toList = codeText right.toList := by
  have hequivalent : Normalizer.parenthesis.equivalent "return ( // sum\n  (a + \"(\") /* ) */\n);"
      "return // sum\n  (a + \"(\") /* ) */;" = true := by decide +kernel
  have hleft : ∀ source ∈ passes maxPasses "return ( // sum\n  (a + \"(\") /* ) */\n);".toList,
      joinsComment source = false := by decide +kernel
  have hright : ∀ source ∈ passes maxPasses "return // sum\n  (a + \"(\") /* ) */;".toList,
      joinsComment source = false := by decide +kernel
  exact ⟨hequivalent, hleft, hright, equivalent_sameCode hequivalent hleft hright⟩

/-- Where the closing parenthesis stands on a new line after a line comment, the passes take the code after it
for a comment. -/
theorem equivalent_differentCode :
    Normalizer.parenthesis.equivalent "x = (a // c\n);" "x = a // c;" = true ∧
      codeText "x = (a // c\n);".toList ≠ codeText "x = a // c;".toList := by
  decide +kernel

end BulkEdit.Source
