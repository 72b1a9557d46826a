import BulkEdit.Proofs.Source.Brackets
import BulkEdit.Proofs.Source.Landing

/-!
# The pairs that a pass keeps

What follows a kept pair may follow an expression before and after the pass alike
(`endsExpression_of_left`), and, if the brackets inside of all pairs are balanced, a pair that needs its
parentheses still needs them (`needsParentheses_of_kept`). So a kept pair becomes redundant only because the
pass leaves out the parenthesis before it (`redundant_before_of_land`).
-/

namespace BulkEdit.Source

variable {gs : List Glyph} {ps : List Pair} {p q : Pair} {i j k : Nat} {g x : Glyph}

/-! ### What stands after a kept parenthesis -/

theorem drop_eq_of_lt (hk : gs[k]? = some x) (hjk : j < k) :
    gs.drop (j + 1) = (gs.take k).drop (j + 1) ++ x :: gs.drop (k + 1) := by
  have hlt := (List.getElem?_eq_some_iff.1 hk).1
  have hle : j + 1 ≤ (gs.take k).length := by
    rw [List.length_take]
    omega
  calc
    gs.drop (j + 1) = (gs.take k ++ x :: gs.drop (k + 1)).drop (j + 1) := by rw [← eq_take_append_cons hk]
    _ = (gs.take k).drop (j + 1) ++ x :: gs.drop (k + 1) := List.drop_append_of_le_length hle

theorem edit_blanks (hk : gs[k]? = some x) (hku : ¬Touched (redundantCuts gs ps) k) (hjk : j < k)
    (hblank : BlankBetween gs j k) (rest : List Glyph) : ∃ blanks, (∀ g ∈ blanks, g.isBlank = true) ∧
      edit (redundantCuts gs ps) (j + 1) ((gs.take k).drop (j + 1) ++ x :: rest) =
        blanks ++ x :: edit (redundantCuts gs ps) (k + 1) rest := by
  have hlt := (List.getElem?_eq_some_iff.1 hk).1
  refine ⟨edit (redundantCuts gs ps) (j + 1) ((gs.take k).drop (j + 1)),
    isBlank_of_mem_edit _ _ hblank.mem, ?_⟩
  rw [edit_append, List.length_drop, List.length_take, Nat.min_eq_left hlt.le, Nat.add_sub_cancel' hjk,
    edit_of_untouched hku]

theorem endsExpression_blanks {blanks : List Glyph} (hblanks : ∀ g ∈ blanks, g.isBlank = true)
    (hx : x.isBlank = false) (rest : List Glyph) :
    endsExpression ((blanks ++ x :: rest).map Glyph.char) = isCloser x.char := by
  have hdrop : (blanks.map Glyph.char ++ x.char :: rest.map Glyph.char).dropWhile Text.isBlank =
      x.char :: rest.map Glyph.char := by
    rw [List.dropWhile_append_of_pos (by simpa [Glyph.isBlank] using hblanks)]
    exact List.dropWhile_cons_of_neg (by simpa [Glyph.isBlank] using hx)
  rw [List.map_append, List.map_cons, endsExpression, hdrop]
  rfl

theorem endsExpression_all_blank {xs : List Glyph} (hxs : ∀ g ∈ xs, g.isBlank = true) :
    endsExpression (xs.map Glyph.char) = true := by
  have hdrop : (xs.map Glyph.char).dropWhile Text.isBlank = [] := by
    rw [List.dropWhile_eq_nil_iff]
    simpa [Glyph.isBlank] using hxs
  rw [endsExpression, hdrop]

section

variable (hps : pairs gs = some ps)

include hps

/-- What may follow an expression after the pass may follow one before it. -/
theorem endsExpression_of_left (hp : p ∈ ps)
    (h : endsExpression ((edit (redundantCuts gs ps) (p.closing + 1) (gs.drop (p.closing + 1))).map
      Glyph.char) = true) : endsExpression ((gs.drop (p.closing + 1)).map Glyph.char) = true := by
  rcases exists_nonblank_after gs p.closing with hall | ⟨k, x, hpk, hk, hx, hblank⟩
  · exact endsExpression_all_blank hall
  · rw [drop_eq_of_lt hk hpk] at h ⊢
    rw [endsExpression_blanks hblank.mem hx]
    by_cases hku : Touched (redundantCuts gs ps) k
    · obtain ⟨q, hq, hr, rfl | rfl⟩ := paren_of_touched hps hku hk hx
      · -- an expression is not expected after a closing parenthesis
        have hslot := slot_of_redundant hr hpk (stands hps hp).closing rfl hblank
        exact absurd hslot (by decide)
      · obtain rfl := Option.some.inj (hk.symm.trans (stands hps hq).closing)
        rfl
    · obtain ⟨blanks, hblanks, hedit⟩ := edit_blanks hk hku hpk hblank (gs.drop (k + 1))
      rwa [hedit, endsExpression_blanks hblanks hx] at h

/-- What follows a kept opening parenthesis after blanks is kept. -/
theorem untouched_of_blankBetween (hj : gs[j]? = some leftParen) (hju : ¬Touched (redundantCuts gs ps) j)
    (hjk : j < k) (hblank : BlankBetween gs j k) (hk : gs[k]? = some x) (hx : x.isBlank = false) :
    ¬Touched (redundantCuts gs ps) k := by
  intro hku
  obtain ⟨q, hq, hr, rfl | rfl⟩ := paren_of_touched hps hku hk hx
  · have hslot := slot_of_redundant hr hjk hj rfl hblank
    exact absurd hslot (by decide)
  · have hmem := mem_of_adjacent hps hj (stands hps hq).closing hjk
      fun m hjm hmk g hm => hblank m g hjm hmk hm
    have hsame := eq_of_closing hps hq hmem rfl
    have hopening : q.opening = j := by rw [hsame]
    exact hju (hopening ▸ touched_opening hq hr)

end

/-! ### Pairs that need their parentheses -/

theorem startsWithWord_cons (c d : Char) (word cs : List Char) :
    startsWithWord (c :: word) (d :: cs) = (c == d && startsWithWord word cs) := by
  rw [startsWithWord, startsWithWord, List.isPrefixOf_cons_cons, Bool.and_assoc]
  rfl

theorem startsWithWord_nil (cs : List Char) :
    startsWithWord [] cs = cs.head?.all (!isIdentifierChar ·) := by
  cases cs <;> rfl

theorem isIdentifierChar_of_isBlank {c : Char} (h : Text.isBlank c = true) : isIdentifierChar c = false := by
  have hmem : c.toNat ∈ [9, 10, 11, 12, 13, 0x20, 0x85, 0xA0, 0x1680, 0x2000, 0x2001, 0x2002, 0x2003, 0x2004,
      0x2005, 0x2006, 0x2007, 0x2008, 0x2009, 0x200A, 0x2028, 0x2029, 0x202F, 0x205F, 0x3000] := by
    simp only [Text.isBlank, Bool.or_eq_true, Bool.and_eq_true, decide_eq_true_eq, beq_iff_eq] at h
    simp only [List.mem_cons, List.not_mem_nil, or_false]
    omega
  have hall : ∀ n ∈ [9, 10, 11, 12, 13, 0x20, 0x85, 0xA0, 0x1680, 0x2000, 0x2001, 0x2002, 0x2003, 0x2004,
      0x2005, 0x2006, 0x2007, 0x2008, 0x2009, 0x200A, 0x2028, 0x2029, 0x202F, 0x205F, 0x3000],
      isIdentifierChar (Char.ofNat n) = false := by decide +kernel
  simpa using hall _ hmem

theorem isIdentifierChar_of_isCloser {c : Char} (h : isCloser c = true) : isIdentifierChar c = false := by
  simp only [isCloser, Bool.or_eq_true, decide_eq_true_eq] at h
  rcases h with (((rfl | rfl) | rfl) | rfl) | rfl <;> decide +kernel

theorem isIdentifierChar_of_isFiller {c : Char} (h : isFiller c = true) : isIdentifierChar c = false := by
  simp only [isFiller, Bool.or_eq_true, decide_eq_true_eq] at h
  rcases h with (rfl | rfl) | h
  · decide +kernel
  · decide +kernel
  · exact isIdentifierChar_of_isBlank h

theorem needsParentheses_all_blank {inner : List Glyph} (h : ∀ g ∈ inner, g.isBlank = true)
    (onward : List Glyph) : needsParentheses inner onward = false := by
  have hdrop : inner.dropWhile (fun g => Text.isBlank g.char) = [] := by
    rw [List.dropWhile_eq_nil_iff]
    exact h
  rw [needsParentheses]
  simp only [hdrop]

theorem needsParentheses_blanks {blanks blanks' : List Glyph} (hblanks : ∀ g ∈ blanks, g.isBlank = true)
    (hblanks' : ∀ g ∈ blanks', g.isBlank = true) (hx : x.isBlank = false) (rest onward : List Glyph) :
    needsParentheses (blanks ++ x :: rest) (blanks' ++ x :: onward) =
      (x.char = '\x7b' || startsWithWord "function".toList ((x :: onward).map Glyph.char) ||
        startsWithWord "class".toList ((x :: onward).map Glyph.char) ||
        hasOuterComma 0 (blanks ++ x :: rest)) := by
  have hdrop : ∀ {blanks : List Glyph} (_ : ∀ g ∈ blanks, g.isBlank = true) (rest : List Glyph),
      (blanks ++ x :: rest).dropWhile (fun g => Text.isBlank g.char) = x :: rest := by
    intro blanks hblanks rest
    rw [List.dropWhile_append_of_pos (by simpa [Glyph.isBlank] using hblanks)]
    exact List.dropWhile_cons_of_neg (by simpa [Glyph.isBlank] using hx)
  rw [needsParentheses]
  simp only [hdrop hblanks, hdrop hblanks', hasOuterComma_blanks hblanks]

section

variable (hps : pairs gs = some ps)

include hps

/-- If no letter follows a glyph that stays, none follows it after the pass. -/
theorem no_letter_after (hku : ¬Touched (redundantCuts gs ps) k) (hg : gs[k]? = some g)
    (hgb : g.isBlank = false)
    (h : ((gs.drop (k + 1)).map Glyph.char).head?.all (!isIdentifierChar ·) = true) :
    ((edit (redundantCuts gs ps) (k + 1) (gs.drop (k + 1))).map Glyph.char).head?.all
      (!isIdentifierChar ·) = true := by
  cases hrest : gs.drop (k + 1) with
  | nil => rfl
  | cons y rest =>
    by_cases hnext : Touched (redundantCuts gs ps) (k + 1)
    · have hcloses := closes_after hps hku hg hgb hnext
      rw [hrest] at hcloses
      cases hedit : edit (redundantCuts gs ps) (k + 1) (y :: rest) with
      | nil => rfl
      | cons z more =>
        rw [hedit] at hcloses
        rcases hcloses z rfl with hz | hz
        · simpa using isIdentifierChar_of_isBlank hz
        · simpa using isIdentifierChar_of_isCloser hz
    · rw [hrest] at h
      rw [edit_of_untouched hnext]
      exact h

/-- The first letter of a word stays, so that the rest of the word is to be looked for after it. -/
theorem startsWithWord_tail {c : Char} {word : List Char} (hc : isFiller c = false)
    (h : startsWithWord (c :: word) ((gs.drop k).map Glyph.char) = true) :
    ∃ g, gs[k]? = some g ∧ g.isBlank = false ∧ ¬Touched (redundantCuts gs ps) k ∧
      startsWithWord word ((gs.drop (k + 1)).map Glyph.char) = true ∧
      startsWithWord (c :: word) ((edit (redundantCuts gs ps) k (gs.drop k)).map Glyph.char) =
        startsWithWord word ((edit (redundantCuts gs ps) (k + 1) (gs.drop (k + 1))).map Glyph.char) := by
  cases hrest : gs.drop k with
  | nil => simp [hrest, startsWithWord] at h
  | cons g rest =>
    obtain ⟨hg, hdrop⟩ := getElem?_of_drop hrest
    rw [hrest, List.map_cons, startsWithWord_cons, Bool.and_eq_true, beq_iff_eq] at h
    obtain ⟨rfl, hmore⟩ := h
    have hku : ¬Touched (redundantCuts gs ps) k := by
      intro hku
      rw [filler_of_touched hps hku hg] at hc
      cases hc
    have hgb : g.isBlank = false := (Bool.or_eq_false_iff.1 hc).2
    refine ⟨g, hg, hgb, hku, by rwa [hdrop], ?_⟩
    rw [edit_of_untouched hku, List.map_cons, startsWithWord_cons, beq_self_eq_true, Bool.true_and, hdrop]

/-- A word at a position is still there after the pass. -/
theorem startsWithWord_edit {c : Char} {word : List Char} (hword : (c :: word).all (!isFiller ·) = true)
    (h : startsWithWord (c :: word) ((gs.drop k).map Glyph.char) = true) :
    startsWithWord (c :: word) ((edit (redundantCuts gs ps) k (gs.drop k)).map Glyph.char) = true := by
  induction word generalizing c k with
  | nil =>
    have hc : isFiller c = false := by simpa using hword
    obtain ⟨g, hg, hgb, hku, hend, heq⟩ := startsWithWord_tail hps hc h
    rw [startsWithWord_nil] at hend
    rw [heq, startsWithWord_nil]
    exact no_letter_after hps hku hg hgb hend
  | cons d word ih =>
    rw [List.all_cons, Bool.and_eq_true, Bool.not_eq_true'] at hword
    obtain ⟨hc, hword⟩ := hword
    obtain ⟨-, -, -, -, hmore, heq⟩ := startsWithWord_tail hps hc h
    rw [heq]
    exact ih hword hmore

variable (hbalanced : ∀ p ∈ ps, p.isBalanced gs = true)

include hbalanced

/-- A kept pair that needs its parentheses needs them after the pass. -/
theorem needsParentheses_of_kept (hp : p ∈ ps) (hr : p.isRedundant gs = false)
    (h : needsParentheses (p.inner gs) (gs.drop (p.opening + 1)) = true) :
    needsParentheses (edit (redundantCuts gs ps) (p.opening + 1) (p.inner gs))
      (edit (redundantCuts gs ps) (p.opening + 1) (gs.drop (p.opening + 1))) = true := by
  have hstands := stands hps hp
  have hou := untouched_opening hps hp hr
  have hcomma : hasOuterComma 0 (p.inner gs) = true → _ :=
    hasOuterComma_edit hps hbalanced (nested_inner hps hp)
  rcases exists_nonblank_after (gs.take p.closing) p.opening with hall | ⟨k, x, hok, hk, hx, hblank⟩
  · rw [Pair.inner, needsParentheses_all_blank hall] at h
    cases h
  · have hkc : k < p.closing := by
      have hlt := (List.getElem?_eq_some_iff.1 hk).1
      rw [List.length_take] at hlt
      omega
    have hblank : BlankBetween gs p.opening k :=
      fun m g hom hmk hm => hblank m g hom hmk (by rwa [List.getElem?_take_of_lt (by omega)])
    have hinner : p.inner gs = (gs.take k).drop (p.opening + 1) ++ x :: (gs.take p.closing).drop (k + 1) := by
      rw [Pair.inner, drop_eq_of_lt hk hok, List.take_take, Nat.min_eq_left hkc.le]
    rw [List.getElem?_take_of_lt hkc] at hk
    have hku := untouched_of_blankBetween hps hstands.opening hou hok hblank hk hx
    have hword : ∀ {c : Char} {word : List Char}, (c :: word).all (!isFiller ·) = true →
        startsWithWord (c :: word) ((gs.drop k).map Glyph.char) = true →
        startsWithWord (c :: word) ((edit (redundantCuts gs ps) k (gs.drop k)).map Glyph.char) = true :=
      fun hletters => startsWithWord_edit hps hletters
    obtain ⟨blanks, hblanks, hedit⟩ := edit_blanks hk hku hok hblank ((gs.take p.closing).drop (k + 1))
    obtain ⟨blanks', hblanks', hedit'⟩ := edit_blanks hk hku hok hblank (gs.drop (k + 1))
    rw [hinner, hedit] at hcomma
    rw [drop_eq_cons hk, edit_of_untouched hku] at hword
    rw [hinner, drop_eq_of_lt hk hok, needsParentheses_blanks hblank.mem hblank.mem hx] at h
    rw [hinner, hedit, drop_eq_of_lt hk hok, hedit', needsParentheses_blanks hblanks hblanks' hx]
    simp only [Bool.or_eq_true, decide_eq_true_eq] at h ⊢
    exact h.imp (Or.imp (Or.imp_right (hword (by decide))) (hword (by decide))) hcomma

end

/-! ### What stands before a kept parenthesis -/

/-- The text before a position, backwards. -/
def textBefore (gs : List Glyph) (i : Nat) : List Char :=
  ((gs.take i).map Glyph.char).reverse

def leftBefore (gs : List Glyph) (ps : List Pair) (i : Nat) : List Char :=
  ((edit (redundantCuts gs ps) 0 (gs.take i)).map Glyph.char).reverse

/-- What an arrow, an assignment or a `return` needs before its last character. -/
theorem expectsExpression_iff {c : Char} (hc : Text.isBlank c = false) (before : List Char) :
    expectsExpression (c :: before) = true ↔
      c = '>' ∧ before.head? = some '=' ∨
      c = '=' ∧ before.head?.all (fun d => !(d = '=' || d = '!' || d = '<' || d = '>')) = true ∨
      c = 'n' ∧ ∃ more, before = ['r', 'u', 't', 'e', 'r'] ++ more ∧
        more.head?.all (!isIdentifierChar ·) = true := by
  unfold expectsExpression
  rw [List.dropWhile_cons_of_neg (by simpa using hc)]
  split
  · rename_i heq
    obtain ⟨rfl, rfl⟩ := List.cons.inj heq
    simp
  · rename_i heq
    obtain ⟨rfl, rfl⟩ := List.cons.inj heq
    simp
  · rename_i heq
    obtain ⟨rfl, rfl⟩ := List.cons.inj heq
    simp
  · rename_i rest heq
    obtain ⟨rfl, rfl⟩ := List.cons.inj heq
    cases rest <;> simp
  · rename_i harrow hassign hempty hreturn
    refine iff_of_false Bool.false_ne_true ?_
    rintro (⟨rfl, hhead⟩ | ⟨rfl, -⟩ | ⟨rfl, more, rfl, -⟩)
    · obtain ⟨more, rfl⟩ := List.head?_eq_some_iff.1 hhead
      exact harrow more rfl
    · cases before with
      | nil => exact hempty rfl
      | cons d more => exact hassign d more rfl
    · exact hreturn more rfl

theorem textBefore_succ (hg : gs[i]? = some g) : textBefore gs (i + 1) = g.char :: textBefore gs i := by
  rw [textBefore, List.take_add_one, hg, Option.toList_some, List.map_append, List.reverse_append]
  rfl

theorem leftBefore_eq (hg : gs[i]? = some g) : leftBefore gs ps (i + 1) =
    ((edit (redundantCuts gs ps) i [g]).map Glyph.char).reverse ++ leftBefore gs ps i := by
  have hlt := (List.getElem?_eq_some_iff.1 hg).1
  rw [leftBefore, List.take_add_one, hg, Option.toList_some, edit_append, List.map_append,
    List.reverse_append, List.length_take, Nat.min_eq_left hlt.le, Nat.zero_add, leftBefore]

theorem leftBefore_succ (hi : ¬Touched (redundantCuts gs ps) i) (hg : gs[i]? = some g) :
    leftBefore gs ps (i + 1) = g.char :: leftBefore gs ps i := by
  rw [leftBefore_eq hg, edit_of_untouched hi]
  rfl

section

variable (hps : pairs gs = some ps)

include hps

/-- What stands before a glyph that is neither blank nor a closing mark, before and after the pass: nothing,
or the same glyph, or a filler before and a blank after it. -/
theorem before_cases (hg : gs[i]? = some g) (hgb : g.isBlank = false) (hgc : isCloser g.char = false) :
    i = 0 ∨ ∃ k y, i = k + 1 ∧ gs[k]? = some y ∧
      (¬Touched (redundantCuts gs ps) k ∧ leftBefore gs ps i = y.char :: leftBefore gs ps k ∨
        isFiller y.char = true ∧ ∃ b more, leftBefore gs ps i = b :: more ∧ Text.isBlank b = true) := by
  cases i with
  | zero => exact .inl rfl
  | succ k =>
    have hlt := (List.getElem?_eq_some_iff.1 hg).1
    obtain ⟨y, hy⟩ : ∃ y, gs[k]? = some y := ⟨_, List.getElem?_eq_getElem (by omega)⟩
    refine .inr ⟨k, y, rfl, hy, ?_⟩
    by_cases hk : Touched (redundantCuts gs ps) k
    · refine .inr ⟨filler_of_touched hps hk hy, ?_⟩
      obtain ⟨x, hx, hxb⟩ := blank_before hps hg hgb hgc hk
      obtain ⟨more, hmore⟩ := List.getLast?_eq_some_iff.1 hx
      refine ⟨x.char, (more.map Glyph.char).reverse, ?_, hxb⟩
      rw [leftBefore, hmore, List.map_append, List.reverse_append]
      rfl
    · exact .inl ⟨hk, leftBefore_succ hk hy⟩

/-- What is left of a word before a position was there before the pass. -/
theorem textBefore_of_word {word more : List Char}
    (hword : word.all (fun c => !Text.isBlank c && !isCloser c) = true) (hg : gs[i]? = some g)
    (hgb : g.isBlank = false) (hgc : isCloser g.char = false) (h : leftBefore gs ps i = word ++ more) :
    ∃ k y, gs[k]? = some y ∧ y.isBlank = false ∧ isCloser y.char = false ∧
      textBefore gs i = word ++ textBefore gs k ∧ leftBefore gs ps k = more := by
  induction word generalizing i g with
  | nil => exact ⟨i, g, hg, hgb, hgc, rfl, h⟩
  | cons c word ih =>
    simp only [List.all_cons, Bool.and_eq_true, Bool.not_eq_true'] at hword
    obtain ⟨hc, hletters⟩ := hword
    rcases before_cases hps hg hgb hgc with rfl | ⟨k, y, rfl, hy, ⟨hk, hleft⟩ | ⟨-, b, rest, hleft, hb⟩⟩
    · cases h
    · obtain ⟨rfl, htail⟩ := List.cons.inj (hleft.symm.trans h)
      obtain ⟨m, z, hz, hzb, hzc, htext, hmore⟩ := ih hletters hy hc.1 hc.2 htail
      exact ⟨m, z, hz, hzb, hzc, by rw [textBefore_succ hy, htext, List.cons_append], hmore⟩
    · obtain ⟨rfl, -⟩ := List.cons.inj (hleft.symm.trans h)
      rw [hc.1] at hb
      cases hb

/-- What holds of parentheses and blanks, and of the character that is left before a position, holds of the
character that stood there. -/
theorem head_textBefore {f : Char → Bool} (hf : ∀ c, isFiller c = true → f c = true) (hg : gs[i]? = some g)
    (hgb : g.isBlank = false) (hgc : isCloser g.char = false)
    (h : (leftBefore gs ps i).head?.all f = true) : (textBefore gs i).head?.all f = true := by
  rcases before_cases hps hg hgb hgc with rfl | ⟨k, y, rfl, hy, ⟨hk, hleft⟩ | ⟨hfiller, -⟩⟩
  · rfl
  · rw [textBefore_succ hy]
    rwa [hleft] at h
  · rw [textBefore_succ hy]
    exact hf _ hfiller

/-- Where an expression is expected after a glyph that stays, one was expected before the pass. -/
theorem expectsExpression_of_left (hg : gs[i]? = some g) (hgb : g.isBlank = false)
    (h : expectsExpression (g.char :: leftBefore gs ps i) = true) :
    expectsExpression (g.char :: textBefore gs i) = true := by
  have hgc : isCloser g.char = false := by
    rcases expectsExpression_slot hgb h with hc | hc | hc <;> rw [hc] <;> decide
  rw [expectsExpression_iff hgb] at h ⊢
  rcases h with ⟨hc, hhead⟩ | ⟨hc, hhead⟩ | ⟨hc, more, hword, hhead⟩
  · obtain ⟨more, hmore⟩ := List.head?_eq_some_iff.1 hhead
    have hmore : leftBefore gs ps i = ['='] ++ more := hmore
    obtain ⟨k, y, -, -, -, htext, -⟩ := textBefore_of_word hps (by decide) hg hgb hgc hmore
    exact .inl ⟨hc, by rw [htext]; rfl⟩
  · refine .inr (.inl ⟨hc, head_textBefore hps (fun c hfiller => ?_) hg hgb hgc hhead⟩)
    simp [ne_of_isFiller hfiller (d := '=') (by decide), ne_of_isFiller hfiller (d := '!') (by decide),
      ne_of_isFiller hfiller (d := '<') (by decide), ne_of_isFiller hfiller (d := '>') (by decide)]
  · obtain ⟨k, y, hy, hyb, hyc, htext, rfl⟩ := textBefore_of_word hps (by decide) hg hgb hgc hword
    refine .inr (.inr ⟨hc, _, htext, head_textBefore hps (fun c hfiller => ?_) hy hyb hyc hhead⟩)
    simpa using isIdentifierChar_of_isFiller hfiller

end

/-! ### Kept pairs that become redundant -/

theorem land_inner (hop : ¬Touched (redundantCuts gs ps) p.opening) (hp : Stands gs p) :
    (p.land gs ps).inner (leftover gs ps) = edit (redundantCuts gs ps) (p.opening + 1) (p.inner gs) := by
  have hclosing := (List.getElem?_eq_some_iff.1 hp.closing).1
  have hlt := hp.lt
  have hsplit : gs.take p.closing = gs.take (p.opening + 1) ++ p.inner gs := by
    rw [Pair.inner, ← Nat.min_eq_left (show p.opening + 1 ≤ p.closing from hlt), ← List.take_take,
      Nat.min_eq_left (show p.opening + 1 ≤ p.closing from hlt), List.take_append_drop]
  rw [Pair.inner, Pair.land, take_leftover hclosing.le, ← landing_succ_of_untouched hop hp.opening, hsplit,
    edit_append, landing, List.drop_left, List.length_take, Nat.min_eq_left (by omega), Nat.zero_add]

section

variable (hps : pairs gs = some ps)

include hps

/-- Where an expression is expected after the pass, one was expected before it, or the parenthesis before was
left out. -/
theorem expectsExpression_of_kept (hp : p ∈ ps) (h : expectsExpression (leftBefore gs ps p.opening) = true) :
    expectsExpression (textBefore gs p.opening) = true ∨
      ∃ q ∈ ps, q.isRedundant gs = true ∧ q.opening < p.opening ∧ BlankBetween gs q.opening p.opening := by
  rcases exists_nonblank_before gs p.opening with hall | ⟨j, x, hjp, hj, hx, hblank⟩
  · rw [leftBefore, expectsExpression_all_blank] at h
    · cases h
    · simpa [Glyph.isBlank] using isBlank_of_mem_edit (redundantCuts gs ps) 0 hall
  · by_cases hju : Touched (redundantCuts gs ps) j
    · obtain ⟨q, hq, hr, rfl | rfl⟩ := paren_of_touched hps hju hj hx
      · exact .inr ⟨q, hq, hr, hjp, hblank⟩
      · -- no expression ends before an opening parenthesis
        have hends := ends_of_redundant hr
        rw [drop_eq_of_lt (stands hps hp).opening hjp, endsExpression_blanks hblank.mem rfl] at hends
        exact absurd hends (by decide)
    · refine .inl ?_
      have hlt := (List.getElem?_eq_some_iff.1 hj).1
      have hleft : leftBefore gs ps p.opening = ((edit (redundantCuts gs ps) (j + 1)
          ((gs.take p.opening).drop (j + 1))).map Glyph.char).reverse ++ x.char :: leftBefore gs ps j := by
        have hsplit : edit (redundantCuts gs ps) 0 (gs.take p.opening) =
            edit (redundantCuts gs ps) 0 (gs.take j) ++
              x :: edit (redundantCuts gs ps) (j + 1) ((gs.take p.opening).drop (j + 1)) := by
          conv_lhs => rw [take_eq_of_lt hj hjp]
          rw [edit_append, List.length_take, Nat.min_eq_left hlt.le, Nat.zero_add, edit_of_untouched hju]
        rw [leftBefore, hsplit, List.map_append, List.reverse_append, List.map_cons, List.reverse_cons,
          List.append_assoc, List.singleton_append, leftBefore]
      rw [hleft, expectsExpression_blanks] at h
      · rw [textBefore, expectsExpression_take hj hjp hblank]
        exact expectsExpression_of_left hps hj hx h
      · simpa [Glyph.isBlank] using isBlank_of_mem_edit (redundantCuts gs ps) (j + 1) hblank.mem

/-- **A kept pair becomes redundant** only because the parenthesis before it was left out. -/
theorem redundant_before_of_land (hbalanced : ∀ p ∈ ps, p.isBalanced gs = true) (hp : p ∈ ps)
    (hr : p.isRedundant gs = false) (hland : (p.land gs ps).isRedundant (leftover gs ps) = true) :
    ∃ q ∈ ps, q.isRedundant gs = true ∧ q.opening < p.opening ∧ BlankBetween gs q.opening p.opening := by
  have hstands := stands hps hp
  have hopening := (List.getElem?_eq_some_iff.1 hstands.opening).1
  have hclosing := (List.getElem?_eq_some_iff.1 hstands.closing).1
  have hop := untouched_opening hps hp hr
  have hcl := untouched_closing hps hp hr
  simp only [Pair.isRedundant, Bool.and_eq_true, Bool.not_eq_true'] at hland
  obtain ⟨⟨hexpects, hends⟩, hneeds⟩ := hland
  rw [land_inner hop hstands, Pair.land, ← landing_succ_of_untouched hop hstands.opening,
    drop_leftover (show p.opening + 1 ≤ gs.length from hopening)] at hneeds
  rw [Pair.land, ← landing_succ_of_untouched hcl hstands.closing,
    drop_leftover (show p.closing + 1 ≤ gs.length from hclosing)] at hends
  rw [Pair.land, take_leftover hopening.le] at hexpects
  have hends := endsExpression_of_left hps hp hends
  have hneeds : needsParentheses (p.inner gs) (gs.drop (p.opening + 1)) = false := by
    by_contra hneeded
    have hneeded := needsParentheses_of_kept hps hbalanced hp hr (by simpa using hneeded)
    rw [hneeds] at hneeded
    cases hneeded
  refine (expectsExpression_of_kept hps hp hexpects).resolve_left fun hbefore => ?_
  rw [textBefore] at hbefore
  rw [Pair.isRedundant, hbefore, hends, hneeds] at hr
  cases hr

end

end BulkEdit.Source
