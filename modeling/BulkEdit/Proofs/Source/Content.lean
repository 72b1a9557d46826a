import BulkEdit.Proofs.Source.CodeText
import BulkEdit.Proofs.Source.Landing

/-!
# What normalizing keeps

A pass leaves out parentheses and blanks and puts in nothing but blanks, whether in code, strings or comments;
so what is neither stays as it is, in its order (`content_of_strip?`). Both parentheses of a pair go or both
stay. While a source is read, an opening parenthesis that is gone is made good by the closing one that will
be gone, as long as it waits on the stack (`surplus_edit`); at the end none waits, and there are as many more
opening than closing parentheses as before (`surplus_of_strip?`). The same then holds of any number of passes,
and of sources that come to the same form (`normalize?_keeps`).
-/

namespace BulkEdit.Source

/-- What a source shows besides parentheses and blanks. -/
def content (cs : List Char) : List Char :=
  cs.filter (!isFiller ·)

/-- How many more opening than closing parentheses a source shows. -/
def surplus (cs : List Char) : Int :=
  cs.count '(' - cs.count ')'

variable {gs rest : List Glyph} {ps qs : List Pair} {waiting : List Nat} {i : Nat} {g : Glyph}
  {cs next : List Char}

/-! ### Parentheses that balance each other -/

theorem surplus_leftParen (cs : List Char) : surplus ('(' :: cs) = surplus cs + 1 := by
  simp only [surplus, List.count_cons_self, List.count_cons_of_ne (by decide : '(' ≠ ')')]
  omega

theorem surplus_rightParen (cs : List Char) : surplus (')' :: cs) = surplus cs - 1 := by
  simp only [surplus, List.count_cons_self, List.count_cons_of_ne (by decide : ')' ≠ '(')]
  omega

theorem surplus_blank {c : Char} (hc : Text.isBlank c = true) (cs : List Char) :
    surplus (c :: cs) = surplus cs := by
  have hl : c ≠ '(' := ne_of_isBlank hc (by decide)
  have hr : c ≠ ')' := ne_of_isBlank hc (by decide)
  simp only [surplus, List.count_cons_of_ne hl, List.count_cons_of_ne hr]

theorem surplus_cons_sub (c : Char) (cs cs' : List Char) :
    surplus (c :: cs) - surplus (c :: cs') = surplus cs - surplus cs' := by
  simp only [surplus, List.count_cons]
  omega

theorem surplus_edit_of_touched (h : Touched (redundantCuts gs ps) i) (g : Glyph) (rest : List Glyph) :
    surplus ((edit (redundantCuts gs ps) i (g :: rest)).map Glyph.char) =
      surplus ((edit (redundantCuts gs ps) (i + 1) rest).map Glyph.char) := by
  rcases edit_of_touched h g rest with hedit | hedit
  · rw [hedit]
  · rw [hedit, List.map_cons, surplus_blank (by decide)]

/-- How many of the waiting parentheses are gone. -/
def gone (gs : List Glyph) (ps : List Pair) (waiting : List Nat) : Nat :=
  waiting.countP fun o => decide (Touched (redundantCuts gs ps) o)

theorem gone_of_touched {o : Nat} (ho : Touched (redundantCuts gs ps) o) :
    gone gs ps (o :: waiting) = gone gs ps waiting + 1 :=
  List.countP_cons_of_pos (by simpa using ho)

theorem gone_of_untouched {o : Nat} (ho : ¬Touched (redundantCuts gs ps) o) :
    gone gs ps (o :: waiting) = gone gs ps waiting :=
  List.countP_cons_of_neg (by simpa using ho)

/-- **Step by step along a source:** from a position on, what a pass leaves has more opening parentheses
than before by the number of those that wait and are gone, for the closing ones of these will be gone. -/
theorem surplus_edit (hps : pairs gs = some ps) (h : pairsFrom i waiting rest = some qs)
    (hdrop : gs.drop i = rest) (hqs : qs ⊆ ps) :
    surplus ((edit (redundantCuts gs ps) i rest).map Glyph.char) =
      surplus (rest.map Glyph.char) + gone gs ps waiting := by
  induction rest generalizing i waiting qs with
  | nil =>
    obtain ⟨rfl, -⟩ := pairsFrom_nil_eq_some.1 h
    rfl
  | cons g rest ih =>
    obtain ⟨hg, htail⟩ := getElem?_of_drop hdrop
    rcases pairsFrom_cons h with ⟨rfl, hnext⟩ | ⟨rfl, o, outer, qs, rfl, rfl, hnext⟩ | ⟨⟨hl, hr⟩, hnext⟩
    · have hrest := ih hnext htail hqs
      rw [List.map_cons, leftParen, surplus_leftParen]
      by_cases hi : Touched (redundantCuts gs ps) i
      · rw [surplus_edit_of_touched hi, hrest, gone_of_touched hi]
        omega
      · rw [edit_of_untouched hi, List.map_cons, surplus_leftParen, hrest, gone_of_untouched hi]
        omega
    · obtain ⟨hpair, hqs⟩ := List.cons_subset.1 hqs
      have hrest := ih hnext htail hqs
      have hboth := (touched_opening_iff hps hpair).trans (touched_closing_iff hps hpair).symm
      rw [List.map_cons, rightParen, surplus_rightParen]
      by_cases hi : Touched (redundantCuts gs ps) i
      · rw [surplus_edit_of_touched hi, hrest, gone_of_touched (hboth.2 hi)]
        omega
      · have ho : ¬Touched (redundantCuts gs ps) o := fun ho => hi (hboth.1 ho)
        rw [edit_of_untouched hi, List.map_cons, surplus_rightParen, hrest, gone_of_untouched ho]
        omega
    · have hrest := ih hnext htail hqs
      rw [List.map_cons]
      by_cases hi : Touched (redundantCuts gs ps) i
      · rw [surplus_edit_of_touched hi, hrest, surplus_blank (blank_of_touched hps hi hg hl hr)]
      · -- a parenthesis of a string or a comment is one of these, and stays
        have hsame := surplus_cons_sub g.char
          ((edit (redundantCuts gs ps) (i + 1) rest).map Glyph.char) (rest.map Glyph.char)
        rw [edit_of_untouched hi, List.map_cons]
        omega

/-! ### Passes -/

theorem surplus_of_strip? (h : strip? cs = some next) : surplus next = surplus cs := by
  obtain ⟨ps, hps, rfl⟩ := strip?_eq_some.1 h
  have hall := surplus_edit hps hps List.drop_zero (List.Subset.refl ps)
  rw [map_char_glyphs] at hall
  simpa [leftover, gone] using hall

theorem content_of_strip? (h : strip? cs = some next) : content next = content cs := by
  obtain ⟨ps, hps, rfl⟩ := strip?_eq_some.1 h
  have hkind : ∀ g : Glyph, isFiller g.char = true → ((!isFiller ·) ∘ Glyph.char) g = false :=
    fun g hg => by simp [hg]
  have hglyphs : content ((glyphs cs).map Glyph.char) = content cs := by rw [map_char_glyphs]
  rw [← hglyphs, content, content, List.filter_map, List.filter_map, filter_leftover hkind hps]

theorem keeps_of_stripTimes? {n : Nat} {result : List Char} (h : stripTimes? n cs = some result) :
    content result = content cs ∧ surplus result = surplus cs := by
  induction n generalizing cs with
  | zero =>
    obtain rfl := Option.some.inj h
    exact ⟨rfl, rfl⟩
  | succ n ih =>
    rcases stripTimes?_succ h with ⟨-, rfl⟩ | ⟨next, hnext, hresult, -⟩
    · exact ⟨rfl, rfl⟩
    · obtain ⟨hcontent, hsurplus⟩ := ih hresult
      exact ⟨hcontent.trans (content_of_strip? hnext), hsurplus.trans (surplus_of_strip? hnext)⟩

/-- **Normalizing drops nothing but parentheses and blanks.** The canonical form of a source shows the same
besides these, in the same order, and has as many more opening than closing parentheses. So do two sources
that are equivalent. -/
theorem normalize?_keeps (source : String) :
    (∀ form, normalize? source = some form →
      content form.toList = content source.toList ∧ surplus form.toList = surplus source.toList) ∧
    ∀ other, Normalizer.parenthesis.equivalent source other = true →
      content source.toList = content other.toList ∧ surplus source.toList = surplus other.toList := by
  refine ⟨fun form h => ?_, fun other h => ?_⟩
  · obtain ⟨result, hresult, rfl⟩ := Option.map_eq_some_iff.1 h
    rw [String.toList_ofList]
    exact keeps_of_stripTimes? hresult
  · obtain ⟨form, hsource, hother⟩ := equivalent_iff.1 h
    obtain ⟨hcontent, hsurplus⟩ := keeps_of_stripTimes? hsource
    obtain ⟨hcontent', hsurplus'⟩ := keeps_of_stripTimes? hother
    exact ⟨hcontent.symm.trans hcontent', hsurplus.symm.trans hsurplus'⟩

/-- Two opening parentheses in a comment and a closing one in a string are kept, and counted. -/
theorem normalize?_keeps_commented :
    let source := "f = ( ((\n  ([g(a, ')'), (b)])) ) ); // :(("
    let other := "f =(([g(a, ')'), (b)])); // :(("
    let form := "f = [g(a, ')'), (b)]; // :(("
    normalize? source = some form ∧ Normalizer.parenthesis.equivalent source other = true ∧
      content form.toList = content source.toList ∧ surplus form.toList = surplus source.toList ∧
      content source.toList = content other.toList ∧ surplus source.toList = surplus other.toList ∧
      surplus form.toList = 1 := by
  have hform : normalize? "f = ( ((\n  ([g(a, ')'), (b)])) ) ); // :((" =
      some "f = [g(a, ')'), (b)]; // :((" := by decide +kernel
  have hequivalent : Normalizer.parenthesis.equivalent "f = ( ((\n  ([g(a, ')'), (b)])) ) ); // :(("
      "f =(([g(a, ')'), (b)])); // :((" = true := by decide +kernel
  obtain ⟨hkept, hsame⟩ := normalize?_keeps "f = ( ((\n  ([g(a, ')'), (b)])) ) ); // :(("
  exact ⟨hform, hequivalent, (hkept _ hform).1, (hkept _ hform).2, (hsame _ hequivalent).1,
    (hsame _ hequivalent).2, by decide +kernel⟩

end BulkEdit.Source
