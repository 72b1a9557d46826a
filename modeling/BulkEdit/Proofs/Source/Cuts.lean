import BulkEdit.Proofs.Source.Pairs
import Mathlib.Data.Nat.Find

/-!
# What a pass leaves of a source

A pass touches only parentheses and blanks (`filler_of_touched`). What is not blank and touched is one of the
parentheses of a redundant pair (`paren_of_touched`). Such a pair stands after the end of an arrow, an
assignment or a `return` (`exists_slot`) and before something that may follow an expression, and this decides
what comes next to what when the pair is gone: after a glyph whose right neighbour is dropped comes a blank or
a closing mark (`closes_after`), and before one whose left neighbour is touched comes a blank
(`blank_before`).
-/

namespace BulkEdit.Source

/-- Parentheses and blanks. -/
def isFiller (c : Char) : Bool :=
  c = '(' || c = ')' || Text.isBlank c

theorem ne_of_isFiller {c d : Char} (hc : isFiller c = true) (hd : isFiller d = false) : c ≠ d := by
  rintro rfl
  rw [hc] at hd
  cases hd

/-- Marks that may follow an expression. -/
def isCloser (c : Char) : Bool :=
  c = ';' || c = ',' || c = ')' || c = '\x7d' || c = ']'

def redundantCuts (gs : List Glyph) (ps : List Pair) : List Cut :=
  (ps.filter (·.isRedundant gs)).map (·.cut gs)

/-- The glyphs that are left after cuts, from a position on. -/
def edit (cuts : List Cut) : Nat → List Glyph → List Glyph
  | _, [] => []
  | i, g :: rest =>
    if cuts.any (·.blanks i) then ⟨' ', true⟩ :: edit cuts (i + 1) rest
    else if cuts.any (·.drops i) then edit cuts (i + 1) rest
    else g :: edit cuts (i + 1) rest

def leftover (gs : List Glyph) (ps : List Pair) : List Glyph :=
  edit (redundantCuts gs ps) 0 gs

/-- A position that does not stay as it is. -/
def Touched (cuts : List Cut) (i : Nat) : Prop :=
  cuts.any (·.blanks i) = true ∨ cuts.any (·.drops i) = true

section

variable {cuts : List Cut} {i : Nat}

theorem applyCuts_eq (cuts : List Cut) (i : Nat) (gs : List Glyph) :
    applyCuts cuts i gs = (edit cuts i gs).map Glyph.char := by
  induction gs generalizing i with
  | nil => rfl
  | cons g rest ih =>
    rw [applyCuts, edit, ih]
    split
    · rfl
    · split <;> rfl

theorem edit_of_untouched (h : ¬Touched cuts i) (g : Glyph) (rest : List Glyph) :
    edit cuts i (g :: rest) = g :: edit cuts (i + 1) rest := by
  rw [Touched, not_or] at h
  rw [edit, if_neg h.1, if_neg h.2]

/-- What is touched is dropped, or is made a blank. -/
theorem edit_of_touched (h : Touched cuts i) (g : Glyph) (rest : List Glyph) :
    edit cuts i (g :: rest) = edit cuts (i + 1) rest ∨
      edit cuts i (g :: rest) = ⟨' ', true⟩ :: edit cuts (i + 1) rest := by
  rw [edit]
  by_cases hblanks : cuts.any (·.blanks i) = true
  · exact .inr (if_pos hblanks)
  · exact .inl (by rw [if_neg hblanks, if_pos (h.resolve_left hblanks)])

theorem edit_append (cuts : List Cut) (i : Nat) (xs ys : List Glyph) :
    edit cuts i (xs ++ ys) = edit cuts i xs ++ edit cuts (i + xs.length) ys := by
  induction xs generalizing i with
  | nil => rfl
  | cons g xs ih =>
    rw [List.cons_append, edit, edit, ih, List.length_cons, Nat.add_assoc, Nat.add_comm 1]
    split
    · rfl
    · split <;> rfl

theorem isBlank_of_mem_edit (cuts : List Cut) (i : Nat) {xs : List Glyph}
    (hxs : ∀ g ∈ xs, g.isBlank = true) : ∀ g ∈ edit cuts i xs, g.isBlank = true := by
  induction xs generalizing i with
  | nil => simp [edit]
  | cons x xs ih =>
    obtain ⟨hx, hxs⟩ := List.forall_mem_cons.1 hxs
    by_cases htouched : Touched cuts i
    · rcases edit_of_touched htouched x xs with h | h
      · rw [h]
        exact ih (i + 1) hxs
      · rw [h]
        exact List.forall_mem_cons.2 ⟨rfl, ih (i + 1) hxs⟩
    · rw [edit_of_untouched htouched]
      exact List.forall_mem_cons.2 ⟨hx, ih (i + 1) hxs⟩

end

/-! ### Blanks around a position -/

variable {gs : List Glyph} {ps : List Pair} {p q : Pair} {i j k : Nat} {g x y : Glyph}

/-- Only blanks stand between two positions. -/
def BlankBetween (gs : List Glyph) (j k : Nat) : Prop :=
  ∀ m g, j < m → m < k → gs[m]? = some g → g.isBlank = true

theorem BlankBetween.mem (h : BlankBetween gs j k) : ∀ g ∈ (gs.take k).drop (j + 1), g.isBlank = true := by
  intro g hg
  obtain ⟨m, hm, rfl⟩ := List.mem_iff_getElem.1 hg
  rw [List.length_drop, List.length_take] at hm
  refine h (j + 1 + m) _ (by omega) (by omega) ?_
  rw [List.getElem_drop, List.getElem_take, List.getElem?_eq_getElem]

theorem take_eq_of_lt (hj : gs[j]? = some x) (hjk : j < k) :
    gs.take k = gs.take j ++ x :: (gs.take k).drop (j + 1) := by
  have hx : (gs.take k)[j]? = some x := by rwa [List.getElem?_take_of_lt hjk]
  have hsplit := eq_take_append_cons hx
  rwa [List.take_take, Nat.min_eq_left hjk.le] at hsplit

theorem expectsExpression_blanks (before : List Char) {blanks : List Char}
    (hblanks : ∀ c ∈ blanks, Text.isBlank c = true) :
    expectsExpression (blanks ++ before) = expectsExpression before := by
  unfold expectsExpression
  rw [List.dropWhile_append_of_pos hblanks]

/-- Blanks before a position do not count for what is expected there. -/
theorem expectsExpression_take (hj : gs[j]? = some x) (hjk : j < k) (hblank : BlankBetween gs j k) :
    expectsExpression ((gs.take k).map Glyph.char).reverse =
      expectsExpression (x.char :: ((gs.take j).map Glyph.char).reverse) := by
  rw [take_eq_of_lt hj hjk, List.map_append, List.map_cons, List.reverse_append, List.reverse_cons,
    List.append_assoc, List.singleton_append]
  refine expectsExpression_blanks _ fun c hc => ?_
  obtain ⟨g, hg, rfl⟩ := List.mem_map.1 (List.mem_reverse.1 hc)
  exact hblank.mem g hg

theorem expectsExpression_slot {c : Char} {before : List Char} (hc : Text.isBlank c = false)
    (h : expectsExpression (c :: before) = true) : c = '>' ∨ c = '=' ∨ c = 'n' := by
  unfold expectsExpression at h
  rw [List.dropWhile_cons_of_neg (by simpa using hc)] at h
  split at h <;> simp_all

theorem exists_nonblank_before (gs : List Glyph) (k : Nat) :
    (∀ g ∈ gs.take k, g.isBlank = true) ∨
      ∃ j x, j < k ∧ gs[j]? = some x ∧ x.isBlank = false ∧ BlankBetween gs j k := by
  induction k with
  | zero => simp
  | succ k ih =>
    cases hk : gs[k]? with
    | none =>
      have hlen := List.getElem?_eq_none_iff.1 hk
      rw [List.take_of_length_le (by omega)]
      rw [List.take_of_length_le hlen] at ih
      refine ih.imp_right ?_
      rintro ⟨j, x, hjk, hj, hx, hblank⟩
      refine ⟨j, x, by omega, hj, hx, fun m g hjm hmk hm => ?_⟩
      have hmlen := (List.getElem?_eq_some_iff.1 hm).1
      exact hblank m g hjm (by omega) hm
    | some y =>
      cases hy : y.isBlank with
      | false =>
        refine .inr ⟨k, y, Nat.lt_succ_self k, hk, hy, fun m g hkm hmk => ?_⟩
        omega
      | true =>
        rcases ih with hall | ⟨j, x, hjk, hj, hx, hblank⟩
        · refine .inl ?_
          rw [List.take_add_one, hk, List.forall_mem_append]
          exact ⟨hall, by simpa using hy⟩
        · refine .inr ⟨j, x, by omega, hj, hx, fun m g hjm hmk hm => ?_⟩
          rcases Nat.lt_succ_iff_lt_or_eq.1 hmk with hmk | rfl
          · exact hblank m g hjm hmk hm
          · obtain rfl := Option.some.inj (hk.symm.trans hm)
            exact hy

theorem exists_nonblank_after (gs : List Glyph) (j : Nat) :
    (∀ g ∈ gs.drop (j + 1), g.isBlank = true) ∨
      ∃ k x, j < k ∧ gs[k]? = some x ∧ x.isBlank = false ∧ BlankBetween gs j k := by
  by_cases hsome : ∃ k, j < k ∧ ∃ x, gs[k]? = some x ∧ x.isBlank = false
  · classical
    obtain ⟨hjk, x, hk, hx⟩ := Nat.find_spec hsome
    refine .inr ⟨_, x, hjk, hk, hx, fun m g hjm hmk hm => ?_⟩
    by_contra hg
    exact Nat.find_min hsome hmk ⟨hjm, g, hm, by simpa using hg⟩
  · refine .inl fun g hg => ?_
    obtain ⟨m, hm⟩ := List.mem_iff_getElem?.1 hg
    rw [List.getElem?_drop] at hm
    by_contra hblank
    exact hsome ⟨j + 1 + m, by omega, g, hm, by simpa using hblank⟩

theorem expectsExpression_all_blank {before : List Char} (h : ∀ c ∈ before, Text.isBlank c = true) :
    expectsExpression before = false := by
  have hblanks := expectsExpression_blanks [] h
  rw [List.append_nil] at hblanks
  rw [hblanks]
  rfl

/-- Where an expression is expected, the last thing that is not blank is the end of an arrow, of an
assignment or of a word. -/
theorem exists_slot (h : expectsExpression ((gs.take k).map Glyph.char).reverse = true) :
    ∃ j x, j < k ∧ gs[j]? = some x ∧ (x.char = '>' ∨ x.char = '=' ∨ x.char = 'n') ∧ BlankBetween gs j k := by
  rcases exists_nonblank_before gs k with hall | ⟨j, x, hjk, hj, hx, hblank⟩
  · rw [expectsExpression_all_blank] at h
    · cases h
    · intro c hc
      obtain ⟨g, hg, rfl⟩ := List.mem_map.1 (List.mem_reverse.1 hc)
      exact hall g hg
  · rw [expectsExpression_take hj hjk hblank] at h
    exact ⟨j, x, hjk, hj, expectsExpression_slot hx h, hblank⟩

theorem endsExpression_of_blank {rest : List Char} {c : Char} (hc : Text.isBlank c = true) :
    endsExpression (c :: rest) = endsExpression rest := by
  unfold endsExpression
  rw [List.dropWhile_cons_of_pos hc]

theorem endsExpression_of_nonblank {rest : List Char} {c : Char} (hc : Text.isBlank c = false) :
    endsExpression (c :: rest) = isCloser c := by
  unfold endsExpression
  rw [List.dropWhile_cons_of_neg (by simpa using hc)]
  rfl

/-! ### Redundant pairs -/

theorem getElem?_inner (p : Pair) (gs : List Glyph) (m : Nat) :
    (p.inner gs)[m]? = if p.opening + 1 + m < p.closing then gs[p.opening + 1 + m]? else none := by
  rw [Pair.inner, List.getElem?_drop, List.getElem?_take]

theorem getElem?_of_lt_length_takeWhile {α : Type} {l : List α} {f : α → Bool} {m : Nat}
    (h : m < (l.takeWhile f).length) : ∃ x, l[m]? = some x ∧ f x = true := by
  refine ⟨_, ?_, List.mem_takeWhile_imp (List.getElem_mem h)⟩
  obtain ⟨more, hmore⟩ := List.takeWhile_prefix (l := l) f
  calc
    l[m]? = (l.takeWhile f ++ more)[m]? := by rw [hmore]
    _ = (l.takeWhile f)[m]? := List.getElem?_append_left h
    _ = some _ := List.getElem?_eq_getElem h

theorem blank_of_lead (h : i ≤ p.opening + (p.cut gs).lead) (hi : p.opening < i) :
    i < p.closing ∧ ∃ g, gs[i]? = some g ∧ g.isBlank = true := by
  have hlt : i - p.opening - 1 < (((p.inner gs).map Glyph.char).takeWhile Text.isBlank).length := by
    simp only [Pair.cut] at h
    omega
  obtain ⟨c, hc, hblank⟩ := getElem?_of_lt_length_takeWhile hlt
  rw [List.getElem?_map, getElem?_inner, show p.opening + 1 + (i - p.opening - 1) = i by omega] at hc
  split at hc
  · rename_i hclosing
    obtain ⟨g, hg, rfl⟩ := Option.map_eq_some_iff.1 hc
    exact ⟨hclosing, g, hg, hblank⟩
  · cases hc

theorem length_inner (hp : Stands gs p) : (p.inner gs).length = p.closing - (p.opening + 1) := by
  have hclosing := (List.getElem?_eq_some_iff.1 hp.closing).1
  rw [Pair.inner, List.length_drop, List.length_take, Nat.min_eq_left hclosing.le]

theorem trail_lt (hp : Stands gs p) : p.opening + (p.cut gs).trail < p.closing := by
  have hle : (p.cut gs).trail ≤ ((p.inner gs).map Glyph.char).reverse.length :=
    (List.takeWhile_prefix Text.isBlank).length_le
  have hlt := hp.lt
  rw [List.length_reverse, List.length_map, length_inner hp] at hle
  omega

theorem blank_of_trail (hp : Stands gs p) (h : p.closing ≤ i + (p.cut gs).trail) (hi : i < p.closing) :
    p.opening < i ∧ ∃ g, gs[i]? = some g ∧ g.isBlank = true := by
  have hlen := length_inner hp
  have hle := trail_lt hp
  have hlt : p.closing - 1 - i < (((p.inner gs).map Glyph.char).reverse.takeWhile Text.isBlank).length := by
    simp only [Pair.cut] at h
    omega
  obtain ⟨c, hc, hblank⟩ := getElem?_of_lt_length_takeWhile hlt
  rw [List.getElem?_reverse (by rw [List.length_map]; omega), List.length_map, hlen, List.getElem?_map,
    getElem?_inner] at hc
  rw [show p.opening + 1 + (p.closing - (p.opening + 1) - 1 - (p.closing - 1 - i)) = i by omega, if_pos hi,
    Option.map_eq_some_iff] at hc
  obtain ⟨g, hg, rfl⟩ := hc
  exact ⟨by omega, g, hg, hblank⟩

section

variable (hps : pairs gs = some ps)

theorem mem_redundantCuts {c : Cut} :
    c ∈ redundantCuts gs ps ↔ ∃ p ∈ ps, p.isRedundant gs = true ∧ p.cut gs = c := by
  simp [redundantCuts, and_assoc]

theorem touched_opening (hp : p ∈ ps) (hr : p.isRedundant gs = true) :
    Touched (redundantCuts gs ps) p.opening := by
  have hmem : p.cut gs ∈ redundantCuts gs ps := mem_redundantCuts.2 ⟨p, hp, hr, rfl⟩
  have hself : (p.cut gs).pair = p := rfl
  cases hblank : (p.cut gs).leavesBlank with
  | true => exact .inl (List.any_eq_true.2 ⟨_, hmem, by simp [Cut.blanks, hself, hblank]⟩)
  | false => exact .inr (List.any_eq_true.2 ⟨_, hmem, by simp [Cut.drops, hself, hblank]⟩)

theorem touched_closing (hp : p ∈ ps) (hr : p.isRedundant gs = true) :
    Touched (redundantCuts gs ps) p.closing := by
  have hmem : p.cut gs ∈ redundantCuts gs ps := mem_redundantCuts.2 ⟨p, hp, hr, rfl⟩
  have hself : (p.cut gs).pair = p := rfl
  exact .inr (List.any_eq_true.2 ⟨_, hmem, by simp [Cut.drops, hself]⟩)

/-- Why a position is touched: as one of the parentheses of a redundant pair, or as one of the blanks inside
of them. -/
theorem touched_cases (h : Touched (redundantCuts gs ps) i) : ∃ p ∈ ps, p.isRedundant gs = true ∧
    (i = p.opening ∨ i = p.closing ∨ (p.opening < i ∧ i ≤ p.opening + (p.cut gs).lead) ∨
      p.closing ≤ i + (p.cut gs).trail ∧ i < p.closing) := by
  rcases h with h | h
  · obtain ⟨c, hc, hblanks⟩ := List.any_eq_true.1 h
    obtain ⟨p, hp, hr, rfl⟩ := mem_redundantCuts.1 hc
    have hself : (p.cut gs).pair = p := rfl
    simp only [Cut.blanks, hself, Bool.and_eq_true, decide_eq_true_eq] at hblanks
    exact ⟨p, hp, hr, .inl hblanks.1⟩
  · obtain ⟨c, hc, hdrops⟩ := List.any_eq_true.1 h
    obtain ⟨p, hp, hr, rfl⟩ := mem_redundantCuts.1 hc
    have hself : (p.cut gs).pair = p := rfl
    simp only [Cut.drops, hself, Bool.or_eq_true, Bool.and_eq_true, decide_eq_true_eq] at hdrops
    refine ⟨p, hp, hr, ?_⟩
    rcases hdrops with ((hopening | hclosing) | hlead) | htrail
    · exact .inl hopening.1
    · exact .inr (.inl hclosing)
    · exact .inr (.inr (.inl hlead))
    · exact .inr (.inr (.inr htrail))

include hps

theorem filler_of_touched (h : Touched (redundantCuts gs ps) i) (hg : gs[i]? = some g) :
    isFiller g.char = true := by
  obtain ⟨p, hp, -, rfl | rfl | ⟨hi, hlead⟩ | ⟨htrail, hi⟩⟩ := touched_cases h
  · obtain rfl := Option.some.inj (hg.symm.trans (stands hps hp).opening)
    rfl
  · obtain rfl := Option.some.inj (hg.symm.trans (stands hps hp).closing)
    rfl
  · obtain ⟨-, x, hx, hblank⟩ := blank_of_lead hlead hi
    obtain rfl := Option.some.inj (hg.symm.trans hx)
    exact Bool.or_eq_true_iff.2 (.inr hblank)
  · obtain ⟨-, x, hx, hblank⟩ := blank_of_trail (stands hps hp) htrail hi
    obtain rfl := Option.some.inj (hg.symm.trans hx)
    exact Bool.or_eq_true_iff.2 (.inr hblank)

theorem paren_of_touched (h : Touched (redundantCuts gs ps) i) (hg : gs[i]? = some g)
    (hblank : g.isBlank = false) :
    ∃ p ∈ ps, p.isRedundant gs = true ∧ (i = p.opening ∨ i = p.closing) := by
  obtain ⟨p, hp, hr, hi | hi | ⟨hi, hlead⟩ | ⟨htrail, hi⟩⟩ := touched_cases h
  · exact ⟨p, hp, hr, .inl hi⟩
  · exact ⟨p, hp, hr, .inr hi⟩
  · obtain ⟨-, x, hx, hx'⟩ := blank_of_lead hlead hi
    obtain rfl := Option.some.inj (hg.symm.trans hx)
    rw [hblank] at hx'
    cases hx'
  · obtain ⟨-, x, hx, hx'⟩ := blank_of_trail (stands hps hp) htrail hi
    obtain rfl := Option.some.inj (hg.symm.trans hx)
    rw [hblank] at hx'
    cases hx'

theorem touched_opening_iff (hp : p ∈ ps) :
    Touched (redundantCuts gs ps) p.opening ↔ p.isRedundant gs = true := by
  refine ⟨fun h => ?_, touched_opening hp⟩
  obtain ⟨q, hq, hr, heq | heq⟩ := paren_of_touched hps h (stands hps hp).opening rfl
  · rwa [eq_of_opening hps hp hq heq]
  · have hclosing := (stands hps hq).closing
    rw [← heq, (stands hps hp).opening] at hclosing
    exact absurd hclosing (by decide)

theorem touched_closing_iff (hp : p ∈ ps) :
    Touched (redundantCuts gs ps) p.closing ↔ p.isRedundant gs = true := by
  refine ⟨fun h => ?_, touched_closing hp⟩
  obtain ⟨q, hq, hr, heq | heq⟩ := paren_of_touched hps h (stands hps hp).closing rfl
  · have hopening := (stands hps hq).opening
    rw [← heq, (stands hps hp).closing] at hopening
    exact absurd hopening (by decide)
  · rwa [eq_of_closing hps hp hq heq]

theorem untouched_opening (hp : p ∈ ps) (hr : p.isRedundant gs = false) :
    ¬Touched (redundantCuts gs ps) p.opening := by
  rw [touched_opening_iff hps hp, hr]
  exact Bool.false_ne_true

theorem untouched_closing (hp : p ∈ ps) (hr : p.isRedundant gs = false) :
    ¬Touched (redundantCuts gs ps) p.closing := by
  rw [touched_closing_iff hps hp, hr]
  exact Bool.false_ne_true

theorem blank_of_touched (h : Touched (redundantCuts gs ps) i) (hg : gs[i]? = some g) (hl : g ≠ leftParen)
    (hr : g ≠ rightParen) : g.isBlank = true := by
  by_contra hblank
  obtain ⟨p, hp, -, rfl | rfl⟩ := paren_of_touched hps h hg (by simpa using hblank)
  · exact hl (Option.some.inj (hg.symm.trans (stands hps hp).opening))
  · exact hr (Option.some.inj (hg.symm.trans (stands hps hp).closing))

omit hps in
theorem expects_of_redundant (hr : p.isRedundant gs = true) :
    expectsExpression ((gs.take p.opening).map Glyph.char).reverse = true := by
  simp only [Pair.isRedundant, Bool.and_eq_true] at hr
  exact hr.1.1

omit hps in
theorem ends_of_redundant (hr : p.isRedundant gs = true) :
    endsExpression ((gs.drop (p.closing + 1)).map Glyph.char) = true := by
  simp only [Pair.isRedundant, Bool.and_eq_true] at hr
  exact hr.1.2

omit hps in
/-- The last glyph before a redundant pair that is not blank ends what asks for an expression. -/
theorem slot_of_redundant (hr : p.isRedundant gs = true) (hj : j < p.opening) (hx : gs[j]? = some x)
    (hxb : x.isBlank = false) (hblank : BlankBetween gs j p.opening) :
    x.char = '>' ∨ x.char = '=' ∨ x.char = 'n' := by
  have hexpects := expects_of_redundant hr
  rw [expectsExpression_take hx hj hblank] at hexpects
  exact expectsExpression_slot hxb hexpects

omit hps in
/-- The opening parenthesis leaves a blank exactly if none stands before it. -/
theorem leavesBlank_eq (hi : i + 1 = p.opening) (hg : gs[i]? = some g) :
    (p.cut gs).leavesBlank = !g.isBlank := by
  have hlast : (gs.take p.opening).getLast? = some g := by
    rw [← hi, List.take_add_one, hg, Option.toList_some, List.getLast?_concat]
  simp only [Pair.cut, hlast]
  rfl

omit hps in
theorem edit_opening (hp : p ∈ ps) (hr : p.isRedundant gs = true) (hleaves : (p.cut gs).leavesBlank = true)
    (g : Glyph) (rest : List Glyph) : edit (redundantCuts gs ps) p.opening (g :: rest) =
      ⟨' ', true⟩ :: edit (redundantCuts gs ps) (p.opening + 1) rest := by
  have hblanks : (redundantCuts gs ps).any (·.blanks p.opening) = true := by
    refine List.any_eq_true.2 ⟨_, mem_redundantCuts.2 ⟨p, hp, hr, rfl⟩, ?_⟩
    have hself : (p.cut gs).pair = p := rfl
    simp [Cut.blanks, hself, hleaves]
  rw [edit, if_pos hblanks]

/-! ### What comes next to what -/

/-- After the end of an expression, what is left begins with a blank or with a closing mark. -/
theorem closes_from (j : Nat) (h : endsExpression ((gs.drop j).map Glyph.char) = true) :
    ∀ x, (edit (redundantCuts gs ps) j (gs.drop j)).head? = some x →
      x.isBlank = true ∨ isCloser x.char = true := by
  generalize hrest : gs.drop j = rest at h
  induction rest generalizing j with
  | nil => simp [edit]
  | cons g rest ih =>
    obtain ⟨hg, hdrop⟩ := getElem?_of_drop hrest
    rw [List.map_cons] at h
    intro x hx
    by_cases htouched : Touched (redundantCuts gs ps) j
    · rcases edit_of_touched htouched g rest with hedit | hedit
      · rw [hedit] at hx
        refine ih (j + 1) hdrop ?_ x hx
        cases hblank : g.isBlank with
        | true => rwa [endsExpression_of_blank hblank] at h
        | false =>
          rw [endsExpression_of_nonblank hblank] at h
          obtain ⟨q, hq, hr, rfl | rfl⟩ := paren_of_touched hps htouched hg hblank
          · obtain rfl := Option.some.inj (hg.symm.trans (stands hps hq).opening)
            exact absurd h (by decide)
          · have hends := ends_of_redundant hr
            rwa [hdrop] at hends
      · rw [hedit] at hx
        obtain rfl := Option.some.inj hx
        exact .inl rfl
    · rw [edit_of_untouched htouched] at hx
      obtain rfl := Option.some.inj hx
      cases hblank : g.isBlank with
      | true => exact .inl rfl
      | false => exact .inr (by rwa [endsExpression_of_nonblank hblank] at h)

/-- From the blanks before the closing parenthesis of a redundant pair on, what is left begins with a blank or
with a closing mark. -/
theorem closes_from_trail (hq : q ∈ ps) (hr : q.isRedundant gs = true) (j : Nat)
    (hj : q.closing ≤ j + (q.cut gs).trail) (hjq : j ≤ q.closing) :
    ∀ x, (edit (redundantCuts gs ps) j (gs.drop j)).head? = some x →
      x.isBlank = true ∨ isCloser x.char = true := by
  -- along the blanks up to the parenthesis
  induction hd : q.closing - j generalizing j with
  | zero =>
    obtain rfl : j = q.closing := by omega
    intro x hx
    rw [drop_eq_cons (stands hps hq).closing] at hx
    rcases edit_of_touched (touched_closing hq hr) rightParen (gs.drop (q.closing + 1)) with hedit | hedit
    · rw [hedit] at hx
      exact closes_from hps _ (ends_of_redundant hr) x hx
    · rw [hedit] at hx
      obtain rfl := Option.some.inj hx
      exact .inl rfl
  | succ d ih =>
    have hlt : j < q.closing := by omega
    obtain ⟨-, g, hg, hblank⟩ := blank_of_trail (stands hps hq) hj hlt
    intro x hx
    rw [drop_eq_cons hg] at hx
    by_cases htouched : Touched (redundantCuts gs ps) j
    · rcases edit_of_touched htouched g (gs.drop (j + 1)) with hedit | hedit
      · rw [hedit] at hx
        exact ih (j + 1) (by omega) (by omega) (by omega) x hx
      · rw [hedit] at hx
        obtain rfl := Option.some.inj hx
        exact .inl rfl
    · rw [edit_of_untouched htouched] at hx
      obtain rfl := Option.some.inj hx
      exact .inl hblank

/-- What is left after a glyph whose right neighbour is touched begins with a blank or a closing mark. -/
theorem closes_after (hi : ¬Touched (redundantCuts gs ps) i) (hg : gs[i]? = some g)
    (hblank : g.isBlank = false) (hnext : Touched (redundantCuts gs ps) (i + 1)) :
    ∀ x, (edit (redundantCuts gs ps) (i + 1) (gs.drop (i + 1))).head? = some x →
      x.isBlank = true ∨ isCloser x.char = true := by
  obtain ⟨q, hq, hr, hopening | hclosing | ⟨hlt, hlead⟩ | ⟨htrail, hlt⟩⟩ := touched_cases hnext
  · -- an opening parenthesis after something that is not blank becomes a blank
    have hleaves : (q.cut gs).leavesBlank = true := by rw [leavesBlank_eq hopening hg, hblank]; rfl
    intro x hx
    cases hrest : gs.drop (i + 1) with
    | nil => simp [hrest, edit] at hx
    | cons y rest =>
      rw [hrest, hopening, edit_opening hq hr hleaves] at hx
      obtain rfl := Option.some.inj hx
      exact .inl rfl
  · exact closes_from_trail hps hq hr (i + 1) (by omega) hclosing.le
  · exfalso
    rcases Nat.lt_succ_iff_lt_or_eq.1 hlt with hlt | rfl
    · have hlead : i ≤ q.opening + (q.cut gs).lead := by omega
      obtain ⟨-, x, hx, hxb⟩ := blank_of_lead hlead hlt
      obtain rfl := Option.some.inj (hg.symm.trans hx)
      rw [hblank] at hxb
      cases hxb
    · exact hi (touched_opening hq hr)
  · exact closes_from_trail hps hq hr (i + 1) htrail hlt.le

/-- The blank before the opening parenthesis of a redundant pair stays. -/
theorem untouched_before (hq : q ∈ ps) (hr : q.isRedundant gs = true) (hi : i + 1 = q.opening)
    (hg : gs[i]? = some g) (hblank : g.isBlank = true) : ¬Touched (redundantCuts gs ps) i := by
  intro htouched
  have hopening := (stands hps hq).opening
  obtain ⟨p, hp, -, rfl | rfl | ⟨hlt, hlead⟩ | ⟨htrail, hlt⟩⟩ := touched_cases htouched
  · obtain rfl := Option.some.inj (hg.symm.trans (stands hps hp).opening)
    exact absurd hblank (by decide)
  · obtain rfl := Option.some.inj (hg.symm.trans (stands hps hp).closing)
    exact absurd hblank (by decide)
  · -- all that is between the opening parenthesis of `p` and that of `q` is blank
    have hbetween : BlankBetween gs p.opening q.opening := by
      intro m x hpm hmq hm
      have hlead : m ≤ p.opening + (p.cut gs).lead := by omega
      obtain ⟨-, y, hy, hyb⟩ := blank_of_lead hlead hpm
      obtain rfl := Option.some.inj (hm.symm.trans hy)
      exact hyb
    have hslot := slot_of_redundant hr (by omega) (stands hps hp).opening rfl hbetween
    exact absurd hslot (by decide)
  · rcases Nat.lt_or_ge q.opening p.closing with hlt' | hge
    · obtain ⟨-, y, hy, hyb⟩ := blank_of_trail (i := q.opening) (stands hps hp) (by omega) hlt'
      obtain rfl := Option.some.inj (hopening.symm.trans hy)
      exact absurd hyb (by decide)
    · have hclosing := (stands hps hp).closing
      rw [show p.closing = q.opening by omega, hopening] at hclosing
      exact absurd hclosing (by decide)

/-- Up to the blanks after the opening parenthesis of a redundant pair, what is left ends with a blank. -/
theorem blank_up_to_lead (hq : q ∈ ps) (hr : q.isRedundant gs = true) {m : Nat} (hm : m ≤ (q.cut gs).lead) :
    ∃ x, (edit (redundantCuts gs ps) 0 (gs.take (q.opening + 1 + m))).getLast? = some x ∧
      x.isBlank = true := by
  have hlast : ∀ {k g}, gs[k]? = some g → edit (redundantCuts gs ps) 0 (gs.take (k + 1)) =
      edit (redundantCuts gs ps) 0 (gs.take k) ++ edit (redundantCuts gs ps) k [g] := by
    intro k g hk
    have hlt := (List.getElem?_eq_some_iff.1 hk).1
    rw [List.take_add_one, hk, Option.toList_some, edit_append, List.length_take,
      Nat.min_eq_left hlt.le, Nat.zero_add]
  induction m with
  | zero =>
    rw [Nat.add_zero, hlast (stands hps hq).opening]
    cases hleaves : (q.cut gs).leavesBlank with
    | true =>
      rw [edit_opening hq hr hleaves]
      exact ⟨⟨' ', true⟩, by simp [edit], rfl⟩
    | false =>
      -- a blank stands before it, and stays
      obtain ⟨j, -, hj, -⟩ := exists_slot (expects_of_redundant hr)
      obtain ⟨i, hi⟩ : ∃ i, i + 1 = q.opening := ⟨q.opening - 1, by omega⟩
      have hlt := (List.getElem?_eq_some_iff.1 (stands hps hq).opening).1
      obtain ⟨g, hg⟩ : ∃ g, gs[i]? = some g := ⟨_, List.getElem?_eq_getElem (by omega)⟩
      have hblank : g.isBlank = true := by simpa [leavesBlank_eq hi hg] using hleaves
      have hstays := untouched_before hps hq hr hi hg hblank
      rcases edit_of_touched (touched_opening hq hr) leftParen [] with hedit | hedit
      · refine ⟨g, ?_, hblank⟩
        rw [hedit, ← hi, hlast hg, edit_of_untouched hstays]
        simp [edit]
      · rw [hedit]
        exact ⟨⟨' ', true⟩, by simp [edit], rfl⟩
  | succ m ih =>
    obtain ⟨x, hx, hxb⟩ := ih (by omega)
    have hlead : q.opening + 1 + m ≤ q.opening + (q.cut gs).lead := by omega
    obtain ⟨-, g, hg, hblank⟩ := blank_of_lead hlead (by omega)
    rw [← Nat.add_assoc, hlast hg]
    by_cases htouched : Touched (redundantCuts gs ps) (q.opening + 1 + m)
    · rcases edit_of_touched htouched g [] with hedit | hedit
      · exact ⟨x, by rw [hedit]; simpa [edit] using hx, hxb⟩
      · exact ⟨⟨' ', true⟩, by rw [hedit]; simp [edit], rfl⟩
    · exact ⟨g, by rw [edit_of_untouched htouched]; simp [edit], hblank⟩

/-- What is left before a glyph whose left neighbour is touched ends with a blank, unless the glyph is itself
blank or a closing mark. -/
theorem blank_before (hg : gs[i + 1]? = some g) (hblank : g.isBlank = false)
    (hcloser : isCloser g.char = false) (hi : Touched (redundantCuts gs ps) i) :
    ∃ x, (edit (redundantCuts gs ps) 0 (gs.take (i + 1))).getLast? = some x ∧ x.isBlank = true := by
  obtain ⟨q, hq, hr, rfl | rfl | ⟨hlt, hlead⟩ | ⟨htrail, hlt⟩⟩ := touched_cases hi
  · exact blank_up_to_lead hps hq hr (Nat.zero_le _)
  · exfalso
    have hends := ends_of_redundant hr
    rw [drop_eq_cons hg, List.map_cons, endsExpression_of_nonblank hblank, hcloser] at hends
    cases hends
  · have hup := blank_up_to_lead hps hq hr (m := i - q.opening) (by omega)
    rwa [show q.opening + 1 + (i - q.opening) = i + 1 by omega] at hup
  · exfalso
    rcases Nat.lt_or_ge (i + 1) q.closing with hlt' | hge
    · obtain ⟨-, x, hx, hxb⟩ := blank_of_trail (i := i + 1) (stands hps hq) (by omega) hlt'
      obtain rfl := Option.some.inj (hg.symm.trans hx)
      rw [hblank] at hxb
      cases hxb
    · have hclosing := (stands hps hq).closing
      rw [show q.closing = i + 1 by omega, hg] at hclosing
      obtain rfl := Option.some.inj hclosing
      exact absurd hcloser (by decide)

end

end BulkEdit.Source
