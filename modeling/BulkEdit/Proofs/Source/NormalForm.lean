import BulkEdit.Proofs.Source.CodeText
import BulkEdit.Proofs.Source.Kept

/-!
# When a canonical form is final

A pass over a source that has redundant pairs makes it shorter, so a source is its own canonical form exactly
if no pair of it is redundant (`stripTimes?_eq_self_iff`). Each pass takes the first parenthesis of every row
of opening parentheses that begins with a redundant pair, and only what comes next in the row becomes
redundant (`Shallow.step`). So the passes come to an end if no such row is longer than there are passes
(`normalForm_canonical`).
-/

namespace BulkEdit.Source

/-- How many opening parentheses stand in a row, with only blanks between them. -/
def openingRow : List Glyph → Nat
  | [] => 0
  | g :: rest => if g = leftParen then openingRow rest + 1 else if g.isBlank then openingRow rest else 0

/-- How long the row is that a pair begins. -/
def Pair.row (p : Pair) (gs : List Glyph) : Nat :=
  openingRow (gs.drop p.opening)

/-- A source of which nothing can be left out. -/
def Settled (cs : List Char) : Prop :=
  ∃ ps, pairs (glyphs cs) = some ps ∧ ∀ p ∈ ps, p.isRedundant (glyphs cs) = false

/-- Pairs with balanced brackets inside, in which the redundant ones begin rows up to a length. -/
structure Shallow (n : Nat) (gs : List Glyph) (ps : List Pair) : Prop where
  pairs : pairs gs = some ps
  balanced : ∀ p ∈ ps, p.isBalanced gs = true
  rows : ∀ p ∈ ps, p.isRedundant gs = true → p.row gs ≤ n

variable {gs : List Glyph} {ps : List Pair} {p q : Pair} {j k n : Nat} {x : Glyph} {cs next : List Char}

/-! ### Rows -/

theorem openingRow_blanks {blanks : List Glyph} (hblanks : ∀ g ∈ blanks, g.isBlank = true)
    (rest : List Glyph) : openingRow (blanks ++ rest) = openingRow rest := by
  induction blanks with
  | nil => rfl
  | cons g blanks ih =>
    obtain ⟨hg, hblanks⟩ := List.forall_mem_cons.1 hblanks
    rw [List.cons_append, openingRow, if_neg (ne_leftParen_of_blank hg), if_pos hg, ih hblanks]

theorem openingRow_leftParen (rest : List Glyph) : openingRow (leftParen :: rest) = openingRow rest + 1 := by
  rw [openingRow, if_pos rfl]

theorem row_eq (hp : Stands gs p) : p.row gs = openingRow (gs.drop (p.opening + 1)) + 1 := by
  rw [Pair.row, drop_eq_cons hp.opening, openingRow_leftParen]

/-- A pair that stands right before another one begins a row that is longer by one. -/
theorem row_of_blankBetween (hq : Stands gs q) (hp : Stands gs p) (hqp : q.opening < p.opening)
    (hblank : BlankBetween gs q.opening p.opening) : q.row gs = p.row gs + 1 := by
  rw [row_eq hq, drop_eq_of_lt hp.opening hqp, openingRow_blanks hblank.mem, openingRow_leftParen, row_eq hp]

/-- From a kept parenthesis on, a row stays as long as it is. -/
theorem openingRow_edit (hps : pairs gs = some ps) (hj : gs[j]? = some leftParen)
    (hju : ¬Touched (redundantCuts gs ps) j) :
    openingRow (edit (redundantCuts gs ps) j (gs.drop j)) = openingRow (gs.drop j) := by
  -- along the row, of which every parenthesis is kept
  induction hn : gs.length - j using Nat.strong_induction_on generalizing j with
  | h n ih =>
    subst hn
    rw [drop_eq_cons hj, edit_of_untouched hju, openingRow_leftParen, openingRow_leftParen]
    rcases exists_nonblank_after gs j with hall | ⟨k, x, hjk, hk, hx, hblank⟩
    · have hleft := isBlank_of_mem_edit (redundantCuts gs ps) (j + 1) hall
      have hrow := openingRow_blanks hall []
      have hrow' := openingRow_blanks hleft []
      rw [List.append_nil] at hrow hrow'
      rw [hrow, hrow']
    · have hku := untouched_of_blankBetween hps hj hju hjk hblank hk hx
      obtain ⟨blanks, hblanks, hedit⟩ := edit_blanks hk hku hjk hblank (gs.drop (k + 1))
      rw [drop_eq_of_lt hk hjk, hedit, openingRow_blanks hblank.mem, openingRow_blanks hblanks]
      by_cases hparen : x = leftParen
      · have hlt := (List.getElem?_eq_some_iff.1 hk).1
        have hrest := ih (gs.length - k) (by omega) (hparen ▸ hk) hku rfl
        rw [drop_eq_cons hk, edit_of_untouched hku] at hrest
        rw [hrest]
      · have hrow : ∀ rest, openingRow (x :: rest) = 0 := by
          intro rest
          rw [openingRow, if_neg hparen, if_neg (by simp [hx])]
        rw [hrow, hrow]

/-! ### One pass -/

namespace Shallow

/-- **A pass shortens the rows** that redundant pairs begin. -/
theorem step (h : Shallow (n + 1) gs ps) :
    Shallow n (leftover gs ps) ((ps.filter fun p => !p.isRedundant gs).map (·.land gs ps)) := by
  refine ⟨pairs_leftover h.pairs, fun p' hp' => ?_, fun p' hp' hr' => ?_⟩
  · obtain ⟨p, hp, hr, rfl⟩ := mem_kept.1 hp'
    have hnested := nested_inner h.pairs hp
    have hbalanced := h.balanced p hp
    rw [Pair.isBalanced] at hbalanced
    rwa [Pair.isBalanced, land_inner (untouched_opening h.pairs hp hr) (stands h.pairs hp),
      depthAfter?_edit h.pairs h.balanced hnested]
  · obtain ⟨p, hp, hr, rfl⟩ := mem_kept.1 hp'
    have hstands := stands h.pairs hp
    obtain ⟨q, hq, hqr, hqp, hblank⟩ := redundant_before_of_land h.pairs h.balanced hp hr hr'
    have hrow := row_of_blankBetween (stands h.pairs hq) hstands hqp hblank
    have hbound := h.rows q hq hqr
    have hsame : (p.land gs ps).row (leftover gs ps) = p.row gs := by
      rw [Pair.row, Pair.land, drop_leftover (List.getElem?_eq_some_iff.1 hstands.opening).1.le,
        openingRow_edit h.pairs hstands.opening (untouched_opening h.pairs hp hr), Pair.row]
    omega

theorem settled (h : Shallow 0 (glyphs cs) ps) : Settled cs := by
  refine ⟨ps, h.pairs, fun p hp => ?_⟩
  by_contra hr
  have hrow := h.rows p hp (by simpa using hr)
  rw [row_eq (stands h.pairs hp)] at hrow
  omega

end Shallow

/-! ### Shorter and shorter -/

theorem length_edit_le (cuts : List Cut) (i : Nat) (xs : List Glyph) :
    (edit cuts i xs).length ≤ xs.length := by
  induction xs generalizing i with
  | nil => exact le_rfl
  | cons g xs ih =>
    have hrest := ih (i + 1)
    rw [edit]
    split
    · simpa using hrest
    · split
      · exact hrest.trans (Nat.le_succ _)
      · simpa using hrest

/-- The closing parenthesis of a redundant pair is dropped, and leaves no blank. -/
theorem edit_closing (hps : pairs gs = some ps) (hp : p ∈ ps) (hr : p.isRedundant gs = true)
    (rest : List Glyph) : edit (redundantCuts gs ps) p.closing (rightParen :: rest) =
      edit (redundantCuts gs ps) (p.closing + 1) rest := by
  have hblanks : ¬(redundantCuts gs ps).any (·.blanks p.closing) = true := by
    intro hany
    obtain ⟨c, hc, hblanks⟩ := List.any_eq_true.1 hany
    obtain ⟨q, hq, -, rfl⟩ := mem_redundantCuts.1 hc
    have hself : (q.cut gs).pair = q := rfl
    simp only [Cut.blanks, hself, Bool.and_eq_true, decide_eq_true_eq] at hblanks
    have hopening := (stands hps hq).opening
    rw [← hblanks.1, (stands hps hp).closing] at hopening
    exact absurd hopening (by decide)
  rw [edit, if_neg hblanks, if_pos ((touched_closing hp hr).resolve_left hblanks)]

theorem length_leftover_lt (hps : pairs gs = some ps) (hp : p ∈ ps) (hr : p.isRedundant gs = true) :
    (leftover gs ps).length < gs.length := by
  have hclosing := (stands hps hp).closing
  have hlt := (List.getElem?_eq_some_iff.1 hclosing).1
  have hbefore := length_edit_le (redundantCuts gs ps) 0 (gs.take p.closing)
  have hafter := length_edit_le (redundantCuts gs ps) (p.closing + 1) (gs.drop (p.closing + 1))
  rw [List.length_take] at hbefore
  rw [List.length_drop] at hafter
  rw [leftover_eq hlt.le, drop_eq_cons hclosing, edit_closing hps hp hr, List.length_append]
  omega

theorem edit_nil (i : Nat) (xs : List Glyph) : edit [] i xs = xs := by
  induction xs generalizing i with
  | nil => rfl
  | cons g xs ih => exact congrArg (g :: ·) (ih (i + 1))

theorem strip?_of_settled (h : Settled cs) : strip? cs = some cs := by
  obtain ⟨ps, hps, hall⟩ := h
  have hnone : redundantCuts (glyphs cs) ps = [] := by
    rw [redundantCuts, List.map_eq_nil_iff, List.filter_eq_nil_iff]
    simpa using hall
  exact strip?_eq_some.2 ⟨ps, hps, by rw [leftover, hnone, edit_nil, map_char_glyphs]⟩

theorem strip?_cases (h : strip? cs = some next) : Settled cs ∧ next = cs ∨ next.length < cs.length := by
  obtain ⟨ps, hps, hnext⟩ := strip?_eq_some.1 h
  by_cases hall : ∀ p ∈ ps, p.isRedundant (glyphs cs) = false
  · have hsettled : Settled cs := ⟨ps, hps, hall⟩
    have hsame := strip?_of_settled hsettled
    exact .inl ⟨hsettled, Option.some.inj (h.symm.trans hsame)⟩
  · push Not at hall
    obtain ⟨p, hp, hr⟩ := hall
    have hlt := length_leftover_lt hps hp (by simpa using hr)
    rw [length_glyphs] at hlt
    refine .inr ?_
    rwa [← hnext, List.length_map]

theorem length_stripTimes?_le {result : List Char} (h : stripTimes? n cs = some result) :
    result.length ≤ cs.length := by
  induction n generalizing cs with
  | zero =>
    obtain rfl := Option.some.inj h
    exact le_rfl
  | succ n ih =>
    rcases stripTimes?_succ h with ⟨-, rfl⟩ | ⟨next, hnext, hresult, -⟩
    · exact le_rfl
    · have hshort := ih hresult
      rcases strip?_cases hnext with ⟨-, rfl⟩ | hlt
      · exact hshort
      · omega

theorem stripTimes?_eq_self_iff : stripTimes? (n + 1) cs = some cs ↔ Settled cs := by
  constructor
  · intro h
    rcases stripTimes?_succ h with ⟨hsame, -⟩ | ⟨next, hnext, hresult, -⟩
    · exact (strip?_cases hsame).elim And.left fun hlt => absurd hlt (lt_irrefl _)
    · have hlength := length_stripTimes?_le hresult
      exact (strip?_cases hnext).elim And.left fun hlt => absurd hlength (not_le.2 hlt)
  · intro h
    rw [stripTimes?, strip?_of_settled h]
    exact if_pos rfl

/-! ### All passes -/

/-- Passes that take away no end of a line comment, as many as the longest row is long, leave nothing to leave
out. -/
theorem settled_of_stripTimes? {result : List Char} (h : stripTimes? n cs = some result)
    (hshallow : Shallow n (glyphs cs) ps) (hcomments : ∀ source ∈ passes n cs, joinsComment source = false) :
    Settled result := by
  induction n generalizing cs ps with
  | zero =>
    obtain rfl := Option.some.inj h
    exact hshallow.settled
  | succ n ih =>
    rcases stripTimes?_succ h with ⟨hsame, rfl⟩ | ⟨next, hnext, hresult, hpasses⟩
    · exact (strip?_cases hsame).elim And.left fun hlt => absurd hlt (lt_irrefl _)
    · rw [hpasses] at hcomments
      obtain ⟨hfirst, hlater⟩ := List.forall_mem_cons.1 hcomments
      obtain ⟨ps', hps', hleft⟩ := strip?_eq_some.1 hnext
      obtain rfl : ps' = ps := Option.some.inj (hps'.symm.trans hshallow.pairs)
      have hglyphs : glyphs next = leftover (glyphs cs) ps' := by
        rw [← hleft, (careful_of_pairs hps' hfirst).glyphs_leftover]
      exact ih hresult (hglyphs ▸ hshallow.step) hlater

theorem normalize?_eq_some {source form : String} :
    normalize? source = some form ↔ stripTimes? maxPasses source.toList = some form.toList := by
  rw [normalize?, Option.map_eq_some_iff]
  constructor
  · rintro ⟨result, hresult, rfl⟩
    rw [hresult, String.toList_ofList]
  · intro h
    exact ⟨form.toList, h, String.ofList_toList⟩

/-- **When the canonical form is final.** A canonical form is its own canonical form exactly if its
parentheses are balanced and none of its pairs is redundant. This is so for every source whose redundant pairs
begin rows of at most as many opening parentheses as there are passes, if the brackets inside of each pair are
balanced and no pass takes away the end of a line comment. -/
theorem normalForm_canonical {source form : String} (h : normalize? source = some form) :
    (normalize? form = some form ↔ Settled form.toList) ∧
    ∀ ps, Shallow maxPasses (glyphs source.toList) ps →
      (∀ pass ∈ passes maxPasses source.toList, joinsComment pass = false) →
      Settled form.toList ∧ normalize? form = some form := by
  have hself : normalize? form = some form ↔ Settled form.toList :=
    normalize?_eq_some.trans stripTimes?_eq_self_iff
  refine ⟨hself, fun ps hshallow hcomments => ?_⟩
  have hsettled := settled_of_stripTimes? (normalize?_eq_some.1 h) hshallow hcomments
  exact ⟨hsettled, hself.2 hsettled⟩

/-- Eight parentheses around a list, with blanks and comments between them. -/
theorem normalForm_canonical_eight :
    let source := "f = ( ((((((\n  ([g(a, ')'), (b)])))))) ) ); // (all)"
    let form := "f = [g(a, ')'), (b)]; // (all)"
    normalize? source = some form ∧
      (∃ ps, Shallow maxPasses (glyphs source.toList) ps) ∧
      (∀ pass ∈ passes maxPasses source.toList, joinsComment pass = false) ∧
      Settled form.toList ∧ normalize? form = some form := by
  have hform : normalize? "f = ( ((((((\n  ([g(a, ')'), (b)])))))) ) ); // (all)" =
      some "f = [g(a, ')'), (b)]; // (all)" := by decide +kernel
  have hshallow : Shallow maxPasses (glyphs "f = ( ((((((\n  ([g(a, ')'), (b)])))))) ) ); // (all)".toList)
      ((pairs (glyphs "f = ( ((((((\n  ([g(a, ')'), (b)])))))) ) ); // (all)".toList)).getD []) :=
    ⟨by decide +kernel, by decide +kernel, by decide +kernel⟩
  have hcomments : ∀ pass ∈ passes maxPasses "f = ( ((((((\n  ([g(a, ')'), (b)])))))) ) ); // (all)".toList,
      joinsComment pass = false := by decide +kernel
  exact ⟨hform, ⟨_, hshallow⟩, hcomments, (normalForm_canonical hform).2 _ hshallow hcomments⟩

/-- Of nine parentheses one is left, which a second run takes away. -/
theorem normalForm_not_final :
    normalize? "x = (((((((((a)))))))));" = some "x = (a);" ∧ normalize? "x = (a);" = some "x = a;" := by
  decide +kernel

end BulkEdit.Source
