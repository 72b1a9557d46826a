import BulkEdit.Proofs.Source.Reading
import Mathlib.Data.List.Pairwise

/-!
# Pairs of parentheses

The pairs of a source are found with a stack of open parentheses. Each of them stands on two parentheses of
code (`stands`), no parenthesis is part of two (`eq_of_opening`, `eq_of_closing`), a closing parenthesis with
only blanks between it and an opening one closes that one (`mem_of_adjacent`), and what is between the
parentheses of a pair is well nested (`nested_inner`).
-/

namespace BulkEdit.Source

def leftParen : Glyph := ⟨'(', true⟩

def rightParen : Glyph := ⟨')', true⟩

def Glyph.isBlank (g : Glyph) : Bool :=
  Text.isBlank g.char

theorem ne_of_isBlank {c d : Char} (hc : Text.isBlank c = true) (hd : Text.isBlank d = false) : c ≠ d := by
  rintro rfl
  rw [hc] at hd
  cases hd

variable {gs rest : List Glyph} {g : Glyph} {i : Nat} {waiting : List Nat} {ps : List Pair}

theorem eq_leftParen : g = leftParen ↔ g.isCode = true ∧ g.char = '(' := by
  cases g
  simp [leftParen, and_comm]

theorem eq_rightParen : g = rightParen ↔ g.isCode = true ∧ g.char = ')' := by
  cases g
  simp [rightParen, and_comm]

theorem ne_leftParen_of_blank (h : g.isBlank = true) : g ≠ leftParen := by
  rintro rfl
  revert h
  decide

theorem ne_rightParen_of_blank (h : g.isBlank = true) : g ≠ rightParen := by
  rintro rfl
  revert h
  decide

theorem drop_eq_cons {α : Type} {l : List α} {x : α} {i : Nat} (h : l[i]? = some x) :
    l.drop i = x :: l.drop (i + 1) := by
  obtain ⟨hlt, rfl⟩ := List.getElem?_eq_some_iff.1 h
  exact List.drop_eq_getElem_cons hlt

theorem eq_take_append_cons {α : Type} {l : List α} {x : α} {j : Nat} (hj : l[j]? = some x) :
    l = l.take j ++ x :: l.drop (j + 1) := by
  rw [← drop_eq_cons hj, List.take_append_drop]

theorem eq_take_append_drop {α : Type} {l : List α} {x y : α} {j k : Nat} (hj : l[j]? = some x)
    (hk : l[k]? = some y) (hjk : j < k) :
    l = l.take j ++ x :: ((l.take k).drop (j + 1) ++ y :: l.drop (k + 1)) := by
  have hfirst : (l.take k)[j]? = some x := by rwa [List.getElem?_take_of_lt hjk]
  have hbefore := eq_take_append_cons hfirst
  rw [List.take_take, Nat.min_eq_left hjk.le] at hbefore
  calc
    l = l.take k ++ y :: l.drop (k + 1) := eq_take_append_cons hk
    _ = (l.take j ++ x :: (l.take k).drop (j + 1)) ++ y :: l.drop (k + 1) := by rw [← hbefore]
    _ = l.take j ++ x :: ((l.take k).drop (j + 1) ++ y :: l.drop (k + 1)) := by simp

/-! ### One step of the search -/

theorem pairsFrom_nil_eq_some : pairsFrom i waiting [] = some ps ↔ waiting = [] ∧ ps = [] := by
  cases waiting <;> simp [pairsFrom, eq_comm]

theorem pairsFrom_leftParen :
    pairsFrom i waiting (leftParen :: rest) = pairsFrom (i + 1) (i :: waiting) rest := by
  cases waiting <;> simp [pairsFrom, leftParen]

theorem pairsFrom_rightParen {o : Nat} : pairsFrom i (o :: waiting) (rightParen :: rest) =
    (pairsFrom (i + 1) waiting rest).map (⟨o, i⟩ :: ·) := by
  simp [pairsFrom, rightParen]

theorem pairsFrom_of_ne (hl : g ≠ leftParen) (hr : g ≠ rightParen) :
    pairsFrom i waiting (g :: rest) = pairsFrom (i + 1) waiting rest := by
  rw [Ne, eq_leftParen] at hl
  rw [Ne, eq_rightParen] at hr
  cases waiting <;> rw [pairsFrom, if_neg hl, if_neg hr]

/-- What a step of the search can be. -/
theorem pairsFrom_cons (h : pairsFrom i waiting (g :: rest) = some ps) :
    g = leftParen ∧ pairsFrom (i + 1) (i :: waiting) rest = some ps ∨
      g = rightParen ∧ (∃ o outer ps', waiting = o :: outer ∧ ps = ⟨o, i⟩ :: ps' ∧
        pairsFrom (i + 1) outer rest = some ps') ∨
      (g ≠ leftParen ∧ g ≠ rightParen) ∧ pairsFrom (i + 1) waiting rest = some ps := by
  by_cases hl : g = leftParen
  · subst hl
    rw [pairsFrom_leftParen] at h
    exact .inl ⟨rfl, h⟩
  · by_cases hr : g = rightParen
    · subst hr
      cases waiting with
      | nil => simp [pairsFrom, rightParen] at h
      | cons o outer =>
        rw [pairsFrom_rightParen, Option.map_eq_some_iff] at h
        obtain ⟨ps', hps', rfl⟩ := h
        exact .inr (.inl ⟨rfl, o, outer, ps', rfl, rfl, hps'⟩)
    · rw [pairsFrom_of_ne hl hr] at h
      exact .inr (.inr ⟨⟨hl, hr⟩, h⟩)

/-! ### Where pairs stand -/

/-- A pair stands on two parentheses. -/
structure Stands (gs : List Glyph) (p : Pair) : Prop where
  opening : gs[p.opening]? = some leftParen
  closing : gs[p.closing]? = some rightParen
  lt : p.opening < p.closing

theorem stands_of_pairsFrom (h : pairsFrom i waiting rest = some ps) (hrest : gs.drop i = rest)
    (hwaiting : ∀ o ∈ waiting, o < i ∧ gs[o]? = some leftParen) : ∀ p ∈ ps, Stands gs p := by
  induction rest generalizing i waiting ps with
  | nil =>
    obtain ⟨-, rfl⟩ := pairsFrom_nil_eq_some.1 h
    simp
  | cons g rest ih =>
    obtain ⟨hg, hdrop⟩ := getElem?_of_drop hrest
    have hlater : ∀ o ∈ waiting, o < i + 1 ∧ gs[o]? = some leftParen :=
      fun o ho => ⟨Nat.lt_succ_of_lt (hwaiting o ho).1, (hwaiting o ho).2⟩
    rcases pairsFrom_cons h with ⟨rfl, hnext⟩ | ⟨rfl, o, outer, ps, rfl, rfl, hnext⟩ | ⟨-, hnext⟩
    · exact ih hnext hdrop (List.forall_mem_cons.2 ⟨⟨Nat.lt_succ_self i, hg⟩, hlater⟩)
    · obtain ⟨ho, houter⟩ := List.forall_mem_cons.1 hlater
      refine List.forall_mem_cons.2 ⟨⟨ho.2, hg, ?_⟩, ih hnext hdrop houter⟩
      exact (hwaiting o List.mem_cons_self).1
    · exact ih hnext hdrop hlater

/-- The open parentheses are found from the last one backwards, all of them before the position. -/
def Stacked (i : Nat) (waiting : List Nat) : Prop :=
  (i :: waiting).Pairwise (· > ·)

theorem Stacked.push (h : Stacked i waiting) : Stacked (i + 1) (i :: waiting) := by
  refine List.pairwise_cons.2 ⟨fun o ho => ?_, h⟩
  rcases List.mem_cons.1 ho with rfl | ho
  · exact Nat.lt_succ_self o
  · exact Nat.lt_succ_of_lt (List.rel_of_pairwise_cons h ho)

theorem Stacked.skip (h : Stacked i waiting) : Stacked (i + 1) waiting := by
  refine List.pairwise_cons.2 ⟨fun o ho => ?_, h.of_cons⟩
  exact Nat.lt_succ_of_lt (List.rel_of_pairwise_cons h ho)

theorem Stacked.pop {o : Nat} (h : Stacked i (o :: waiting)) : Stacked (i + 1) waiting := by
  have hskip := h.skip
  exact List.pairwise_cons.2
    ⟨fun x hx => List.rel_of_pairwise_cons hskip (List.mem_cons_of_mem o hx), hskip.of_cons.of_cons⟩

/-- The pairs that are still to be found open with waiting parentheses or with later ones, and close with
later ones. -/
theorem bounds_of_pairsFrom (h : pairsFrom i waiting gs = some ps) :
    ∀ p ∈ ps, (p.opening ∈ waiting ∨ i ≤ p.opening) ∧ i ≤ p.closing := by
  induction gs generalizing i waiting ps with
  | nil =>
    obtain ⟨-, rfl⟩ := pairsFrom_nil_eq_some.1 h
    simp
  | cons g rest ih =>
    rcases pairsFrom_cons h with ⟨-, hnext⟩ | ⟨-, o, outer, ps, rfl, rfl, hnext⟩ | ⟨-, hnext⟩
    · intro p hp
      obtain ⟨hopening, hclosing⟩ := ih hnext p hp
      rw [List.mem_cons] at hopening
      refine ⟨?_, by omega⟩
      rcases hopening with (hopening | hopening) | hopening
      · exact .inr hopening.ge
      · exact .inl hopening
      · exact .inr (by omega)
    · refine List.forall_mem_cons.2 ⟨⟨.inl List.mem_cons_self, le_rfl⟩, fun p hp => ?_⟩
      obtain ⟨hopening, hclosing⟩ := ih hnext p hp
      exact ⟨hopening.imp (List.mem_cons_of_mem o) (by omega), by omega⟩
    · intro p hp
      obtain ⟨hopening, hclosing⟩ := ih hnext p hp
      exact ⟨hopening.imp_right (by omega), by omega⟩

theorem pairwise_of_pairsFrom (h : pairsFrom i waiting gs = some ps) (hstack : Stacked i waiting) :
    ps.Pairwise fun p q => p.opening ≠ q.opening ∧ p.closing ≠ q.closing := by
  induction gs generalizing i waiting ps with
  | nil =>
    obtain ⟨-, rfl⟩ := pairsFrom_nil_eq_some.1 h
    exact List.Pairwise.nil
  | cons g rest ih =>
    rcases pairsFrom_cons h with ⟨-, hnext⟩ | ⟨-, o, outer, ps, rfl, rfl, hnext⟩ | ⟨-, hnext⟩
    · exact ih hnext hstack.push
    · refine List.pairwise_cons.2 ⟨fun p hp => ?_, ih hnext hstack.pop⟩
      obtain ⟨hopening, hclosing⟩ := bounds_of_pairsFrom hnext p hp
      have ho : o < i := List.rel_of_pairwise_cons hstack List.mem_cons_self
      refine ⟨?_, show i ≠ p.closing by omega⟩
      rintro rfl
      rcases hopening with hopening | hopening
      · exact absurd (List.rel_of_pairwise_cons hstack.of_cons hopening) (lt_irrefl _)
      · omega
    · exact ih hnext hstack.skip

section

variable (hps : pairs gs = some ps)

include hps

theorem stands {p : Pair} (hp : p ∈ ps) : Stands gs p :=
  stands_of_pairsFrom hps List.drop_zero (by simp) p hp

theorem apart {p q : Pair} (hp : p ∈ ps) (hq : q ∈ ps) (hne : p ≠ q) :
    p.opening ≠ q.opening ∧ p.closing ≠ q.closing := by
  have hpairwise := pairwise_of_pairsFrom hps (List.pairwise_singleton _ _)
  have hsymm : Std.Symm fun p q : Pair => p.opening ≠ q.opening ∧ p.closing ≠ q.closing :=
    ⟨fun _ _ h => ⟨h.1.symm, h.2.symm⟩⟩
  exact hpairwise.forall hp hq hne

theorem eq_of_opening {p q : Pair} (hp : p ∈ ps) (hq : q ∈ ps) (h : p.opening = q.opening) : p = q :=
  by_contra fun hne => (apart hps hp hq hne).1 h

theorem eq_of_closing {p q : Pair} (hp : p ∈ ps) (hq : q ∈ ps) (h : p.closing = q.closing) : p = q :=
  by_contra fun hne => (apart hps hp hq hne).2 h

end

/-! ### Neighbours and nesting -/

theorem pairsFrom_blanks {blanks : List Glyph} (hblanks : ∀ g ∈ blanks, g.isBlank = true) :
    pairsFrom i waiting (blanks ++ rest) = pairsFrom (i + blanks.length) waiting rest := by
  induction blanks generalizing i with
  | nil => rfl
  | cons g blanks ih =>
    obtain ⟨hg, hblanks⟩ := List.forall_mem_cons.1 hblanks
    rw [List.cons_append, pairsFrom_of_ne (ne_leftParen_of_blank hg) (ne_rightParen_of_blank hg),
      ih hblanks, List.length_cons, Nat.add_assoc, Nat.add_comm 1]

theorem mem_of_pairsFrom_adjacent {before blanks : List Glyph}
    (h : pairsFrom i waiting (before ++ leftParen :: (blanks ++ rightParen :: rest)) = some ps)
    (hblanks : ∀ g ∈ blanks, g.isBlank = true) :
    ⟨i + before.length, i + before.length + 1 + blanks.length⟩ ∈ ps := by
  induction before generalizing i waiting ps with
  | nil =>
    rw [List.nil_append, pairsFrom_leftParen, pairsFrom_blanks hblanks, pairsFrom_rightParen,
      Option.map_eq_some_iff] at h
    obtain ⟨ps', -, rfl⟩ := h
    exact List.mem_cons_self
  | cons g before ih =>
    have hshift : i + (g :: before).length = i + 1 + before.length := by
      rw [List.length_cons]
      omega
    rw [hshift]
    rcases pairsFrom_cons h with ⟨-, hnext⟩ | ⟨-, o, outer, ps, rfl, rfl, hnext⟩ | ⟨-, hnext⟩
    · exact ih hnext
    · exact List.mem_cons_of_mem _ (ih hnext)
    · exact ih hnext

/-- A closing parenthesis closes an opening one from which only blanks part it. -/
theorem mem_of_adjacent (hps : pairs gs = some ps) {j k : Nat} (hj : gs[j]? = some leftParen)
    (hk : gs[k]? = some rightParen) (hjk : j < k)
    (hblanks : ∀ m, j < m → m < k → ∀ g, gs[m]? = some g → g.isBlank = true) : ⟨j, k⟩ ∈ ps := by
  have hsplit := eq_take_append_drop hj hk hjk
  have hlt : k < gs.length := (List.getElem?_eq_some_iff.1 hk).1
  rw [pairs, hsplit] at hps
  have hmem := mem_of_pairsFrom_adjacent hps fun g hg => by
    obtain ⟨m, hm, rfl⟩ := List.mem_iff_getElem.1 hg
    rw [List.length_drop, List.length_take] at hm
    refine hblanks (j + 1 + m) (by omega) (by omega) _ ?_
    rw [List.getElem_drop, List.getElem_take, List.getElem?_eq_getElem]
  rw [List.length_take, List.length_drop, List.length_take] at hmem
  rwa [show 0 + min j gs.length = j by omega,
    show j + 1 + (min k gs.length - (j + 1)) = k by omega] at hmem

/-- A text from a position of a source on in which parentheses are well nested, with pairs of the source. -/
inductive Nested (gs : List Glyph) (ps : List Pair) : Nat → List Glyph → Prop
  | nil (i : Nat) : Nested gs ps i []
  | glyph {i : Nat} {g : Glyph} {rest : List Glyph} (hg : gs[i]? = some g) (hl : g ≠ leftParen)
      (hr : g ≠ rightParen) (hrest : Nested gs ps (i + 1) rest) : Nested gs ps i (g :: rest)
  | pair {p : Pair} {rest : List Glyph} (hp : p ∈ ps) (hinner : Nested gs ps (p.opening + 1) (p.inner gs))
      (hrest : Nested gs ps (p.closing + 1) rest) :
      Nested gs ps p.opening (leftParen :: (p.inner gs ++ rightParen :: rest))

theorem inner_eq {p : Pair} {inner later : List Glyph} (hdrop : gs.drop (p.opening + 1) = inner ++ later)
    (hclosing : p.closing = p.opening + 1 + inner.length) : p.inner gs = inner := by
  rw [Pair.inner, List.drop_take, hdrop, hclosing, Nat.add_sub_cancel_left, List.take_left]

theorem Nested.surround {inner later more : List Glyph} (hdrop : gs.drop (i + 1) = inner ++ more)
    (hmem : ⟨i, i + 1 + inner.length⟩ ∈ ps) (hinner : Nested gs ps (i + 1) inner)
    (hlater : Nested gs ps (i + 1 + inner.length + 1) later) :
    Nested gs ps i (leftParen :: (inner ++ rightParen :: later)) := by
  have heq : Pair.inner ⟨i, i + 1 + inner.length⟩ gs = inner := inner_eq hdrop rfl
  have hnested := Nested.pair hmem (heq.symm ▸ hinner) hlater
  rwa [heq] at hnested

/-- What the search reads next is well nested: all of it if no parenthesis waits, and else what comes before
the parenthesis that closes the last one. -/
theorem nested_of_pairsFrom {qs : List Pair} (h : pairsFrom i waiting rest = some qs) (hsub : qs ⊆ ps)
    (hdrop : gs.drop i = rest) :
    (waiting = [] → Nested gs ps i rest) ∧
    ∀ o outer, waiting = o :: outer → ∃ inner later qs', rest = inner ++ rightParen :: later ∧
      Nested gs ps i inner ∧ ⟨o, i + inner.length⟩ ∈ ps ∧
      pairsFrom (i + inner.length + 1) outer later = some qs' ∧ qs' ⊆ ps := by
  -- after a nested pair the search goes on with a rest that is shorter, but not the tail
  induction hn : rest.length using Nat.strong_induction_on generalizing i waiting rest qs with
  | h n ih =>
    subst hn
    cases rest with
    | nil =>
      obtain ⟨rfl, -⟩ := pairsFrom_nil_eq_some.1 h
      exact ⟨fun _ => .nil i, by simp⟩
    | cons g rest =>
      obtain ⟨hg, htail⟩ := getElem?_of_drop hdrop
      rcases pairsFrom_cons h with ⟨rfl, hnext⟩ | ⟨rfl, o, outer, qs, rfl, rfl, hnext⟩ | ⟨⟨hl, hr⟩, hnext⟩
      · obtain ⟨inner, later, qs', rfl, hinner, hmem, hlater, hsub'⟩ :=
          (ih _ (Nat.lt_succ_self _) hnext hsub htail rfl).2 i waiting rfl
        have hshort : later.length < (leftParen :: (inner ++ rightParen :: later)).length := by
          simp only [List.length_cons, List.length_append]
          omega
        have hdrop' : gs.drop (i + 1 + inner.length + 1) = later := by
          rw [Nat.add_assoc _ inner.length, ← List.drop_drop, htail, ← List.drop_drop, List.drop_left,
            List.drop_one, List.tail_cons]
        obtain ⟨hall, hclosed⟩ := ih _ hshort hlater hsub' hdrop' rfl
        refine ⟨fun hnil => .surround htail hmem hinner (hall hnil), fun o outer ho => ?_⟩
        obtain ⟨inner', later', qs'', rfl, hinner', hmem', hlater', hsub''⟩ := hclosed o outer ho
        have hlength : i + (leftParen :: (inner ++ rightParen :: inner')).length =
            i + 1 + inner.length + 1 + inner'.length := by
          simp only [List.length_cons, List.length_append]
          omega
        refine ⟨leftParen :: (inner ++ rightParen :: inner'), later', qs'', by simp,
          .surround htail hmem hinner hinner', ?_, ?_, hsub''⟩
        · rwa [hlength]
        · rwa [hlength]
      · refine ⟨by simp, fun o' outer' ho => ?_⟩
        obtain ⟨rfl, rfl⟩ := List.cons.inj ho
        obtain ⟨hmem, hsub'⟩ := List.cons_subset.1 hsub
        exact ⟨[], rest, qs, rfl, .nil i, hmem, hnext, hsub'⟩
      · obtain ⟨hall, hclosed⟩ := ih _ (Nat.lt_succ_self _) hnext hsub htail rfl
        refine ⟨fun hnil => .glyph hg hl hr (hall hnil), fun o outer ho => ?_⟩
        obtain ⟨inner, later, qs', rfl, hinner, hmem, hlater, hsub'⟩ := hclosed o outer ho
        have hlength : i + (g :: inner).length = i + 1 + inner.length := by
          rw [List.length_cons]
          omega
        refine ⟨g :: inner, later, qs', rfl, .glyph hg hl hr hinner, ?_, ?_, hsub'⟩
        · rwa [hlength]
        · rwa [hlength]

theorem pairsFrom_drop (hps : pairs gs = some ps) (i : Nat) (hi : i ≤ gs.length) :
    ∃ waiting qs, pairsFrom i waiting (gs.drop i) = some qs ∧ qs ⊆ ps := by
  induction i with
  | zero => exact ⟨[], ps, hps, List.Subset.refl ps⟩
  | succ i ih =>
    obtain ⟨waiting, qs, hqs, hsub⟩ := ih (by omega)
    rw [List.drop_eq_getElem_cons hi] at hqs
    rcases pairsFrom_cons hqs with ⟨-, hnext⟩ | ⟨-, o, outer, qs, rfl, rfl, hnext⟩ | ⟨-, hnext⟩
    · exact ⟨_, qs, hnext, hsub⟩
    · exact ⟨outer, qs, hnext, (List.cons_subset.1 hsub).2⟩
    · exact ⟨_, qs, hnext, hsub⟩

theorem nested_inner (hps : pairs gs = some ps) {p : Pair} (hp : p ∈ ps) :
    Nested gs ps (p.opening + 1) (p.inner gs) := by
  have hstands := stands hps hp
  have hlt := (List.getElem?_eq_some_iff.1 hstands.opening).1
  obtain ⟨waiting, qs, hqs, hsub⟩ := pairsFrom_drop hps p.opening hlt.le
  rw [drop_eq_cons hstands.opening, pairsFrom_leftParen] at hqs
  obtain ⟨inner, later, -, hsplit, hinner, hmem, -⟩ := (nested_of_pairsFrom hqs hsub rfl).2 _ _ rfl
  have hclosing : p.closing = p.opening + 1 + inner.length := by rw [eq_of_opening hps hp hmem rfl]
  rwa [inner_eq hsplit hclosing]

end BulkEdit.Source
