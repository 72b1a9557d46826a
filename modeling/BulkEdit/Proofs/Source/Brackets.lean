import BulkEdit.Proofs.Source.Cuts

/-!
# Brackets and commas inside of pairs

The search for a comma outside of all brackets counts brackets of all kinds alike, and takes a bracket that
closes nothing for none. Where the brackets inside of every pair are balanced, leaving out redundant pairs
changes neither that (`depthAfter?_edit`) nor loses a comma (`hasOuterComma_edit`).
-/

namespace BulkEdit.Source

/-- How many brackets are open at the end of a text, if none closes that was not open. -/
def depthAfter? : Nat → List Glyph → Option Nat
  | depth, [] => some depth
  | depth, g :: rest =>
    if !g.isCode then depthAfter? depth rest
    else if g.char = '(' ∨ g.char = '[' ∨ g.char = '\x7b' then depthAfter? (depth + 1) rest
    else if g.char = ')' ∨ g.char = ']' ∨ g.char = '\x7d' then
      if depth = 0 then none else depthAfter? (depth - 1) rest
    else depthAfter? depth rest

def Pair.isBalanced (p : Pair) (gs : List Glyph) : Bool :=
  depthAfter? 0 (p.inner gs) = some 0

variable {gs xs ys rest : List Glyph} {ps : List Pair} {g : Glyph} {i depth outer n : Nat}

theorem depthAfter?_append (depth : Nat) (xs ys : List Glyph) :
    depthAfter? depth (xs ++ ys) = (depthAfter? depth xs).bind (depthAfter? · ys) := by
  fun_induction depthAfter? depth xs with
  | case1 depth => rfl
  | case2 depth g rest hcode ih => rw [List.cons_append, depthAfter?, if_pos hcode, ih]
  | case3 depth g rest hcode hopen ih => rw [List.cons_append, depthAfter?, if_neg hcode, if_pos hopen, ih]
  | case4 g rest hcode hopen hclose =>
    rw [List.cons_append, depthAfter?, if_neg hcode, if_neg hopen, if_pos hclose, if_pos rfl]
    rfl
  | case5 depth g rest hcode hopen hclose hdepth ih =>
    rw [List.cons_append, depthAfter?, if_neg hcode, if_neg hopen, if_pos hclose, if_neg hdepth, ih]
  | case6 depth g rest hcode hopen hclose ih =>
    rw [List.cons_append, depthAfter?, if_neg hcode, if_neg hopen, if_neg hclose, ih]

theorem depthAfter?_add (h : depthAfter? depth xs = some outer) (n : Nat) :
    depthAfter? (depth + n) xs = some (outer + n) := by
  fun_induction depthAfter? depth xs with
  | case1 depth =>
    obtain rfl := Option.some.inj h
    rfl
  | case2 depth g rest hcode ih =>
    rw [depthAfter?, if_pos hcode, ih h]
  | case3 depth g rest hcode hopen ih =>
    rw [depthAfter?, if_neg hcode, if_pos hopen, Nat.add_right_comm, ih h]
  | case4 g rest hcode hopen hclose => cases h
  | case5 depth g rest hcode hopen hclose hdepth ih =>
    rw [depthAfter?, if_neg hcode, if_neg hopen, if_pos hclose, if_neg (by omega),
      show depth + n - 1 = depth - 1 + n by omega, ih h]
  | case6 depth g rest hcode hopen hclose ih =>
    rw [depthAfter?, if_neg hcode, if_neg hopen, if_neg hclose, ih h]

/-- Inside of one more bracket no comma is outside of all. -/
theorem hasOuterComma_inside (h : depthAfter? depth xs = some outer) :
    hasOuterComma (depth + 1) xs = false := by
  fun_induction depthAfter? depth xs with
  | case1 depth => rfl
  | case2 depth g rest hcode ih => rw [hasOuterComma, if_pos hcode, ih h]
  | case3 depth g rest hcode hopen ih => rw [hasOuterComma, if_neg hcode, if_pos hopen, ih h]
  | case4 g rest hcode hopen hclose => cases h
  | case5 depth g rest hcode hopen hclose hdepth ih =>
    rw [hasOuterComma, if_neg hcode, if_neg hopen, if_pos hclose, Nat.add_sub_cancel,
      ← Nat.succ_pred_eq_of_ne_zero hdepth]
    exact ih h
  | case6 depth g rest hcode hopen hclose ih =>
    rw [hasOuterComma, if_neg hcode, if_neg hopen, if_neg hclose, if_neg (by omega), ih h]

theorem hasOuterComma_append (h : depthAfter? depth xs = some outer) (ys : List Glyph) :
    hasOuterComma depth (xs ++ ys) = (hasOuterComma depth xs || hasOuterComma outer ys) := by
  fun_induction depthAfter? depth xs with
  | case1 depth =>
    obtain rfl := Option.some.inj h
    rfl
  | case2 depth g rest hcode ih =>
    rw [List.cons_append, hasOuterComma, hasOuterComma, if_pos hcode, if_pos hcode, ih h]
  | case3 depth g rest hcode hopen ih =>
    rw [List.cons_append, hasOuterComma, hasOuterComma, if_neg hcode, if_neg hcode, if_pos hopen,
      if_pos hopen, ih h]
  | case4 g rest hcode hopen hclose => cases h
  | case5 depth g rest hcode hopen hclose hdepth ih =>
    rw [List.cons_append, hasOuterComma, hasOuterComma, if_neg hcode, if_neg hcode, if_neg hopen,
      if_neg hopen, if_pos hclose, if_pos hclose, ih h]
  | case6 depth g rest hcode hopen hclose ih =>
    rw [List.cons_append, hasOuterComma, hasOuterComma, if_neg hcode, if_neg hcode, if_neg hopen,
      if_neg hopen, if_neg hclose, if_neg hclose, ih h]
    split <;> rfl

/-! ### Blanks and pairs -/

theorem depthAfter?_blank (hg : g.isBlank = true) (depth : Nat) (rest : List Glyph) :
    depthAfter? depth (g :: rest) = depthAfter? depth rest := by
  have hne := fun {c : Char} => ne_of_isBlank (c := g.char) (d := c) hg
  have hopen : ¬(g.char = '(' ∨ g.char = '[' ∨ g.char = '\x7b') := by
    simp [hne (c := '(') (by decide), hne (c := '[') (by decide), hne (c := '\x7b') (by decide)]
  have hclose : ¬(g.char = ')' ∨ g.char = ']' ∨ g.char = '\x7d') := by
    simp [hne (c := ')') (by decide), hne (c := ']') (by decide), hne (c := '\x7d') (by decide)]
  rw [depthAfter?, if_neg hopen, if_neg hclose, ite_self]

theorem hasOuterComma_blank (hg : g.isBlank = true) (depth : Nat) (rest : List Glyph) :
    hasOuterComma depth (g :: rest) = hasOuterComma depth rest := by
  have hne := fun {c : Char} => ne_of_isBlank (c := g.char) (d := c) hg
  have hopen : ¬(g.char = '(' ∨ g.char = '[' ∨ g.char = '\x7b') := by
    simp [hne (c := '(') (by decide), hne (c := '[') (by decide), hne (c := '\x7b') (by decide)]
  have hclose : ¬(g.char = ')' ∨ g.char = ']' ∨ g.char = '\x7d') := by
    simp [hne (c := ')') (by decide), hne (c := ']') (by decide), hne (c := '\x7d') (by decide)]
  have hcomma : ¬(g.char = ',' ∧ depth = 0) := fun h => hne (by decide) h.1
  rw [hasOuterComma, if_neg hopen, if_neg hclose, if_neg hcomma, ite_self]

theorem depthAfter?_blanks (hxs : ∀ g ∈ xs, g.isBlank = true) (depth : Nat) (rest : List Glyph) :
    depthAfter? depth (xs ++ rest) = depthAfter? depth rest := by
  induction xs with
  | nil => rfl
  | cons g xs ih =>
    obtain ⟨hg, hxs⟩ := List.forall_mem_cons.1 hxs
    rw [List.cons_append, depthAfter?_blank hg, ih hxs]

theorem hasOuterComma_blanks (hxs : ∀ g ∈ xs, g.isBlank = true) (depth : Nat) (rest : List Glyph) :
    hasOuterComma depth (xs ++ rest) = hasOuterComma depth rest := by
  induction xs with
  | nil => rfl
  | cons g xs ih =>
    obtain ⟨hg, hxs⟩ := List.forall_mem_cons.1 hxs
    rw [List.cons_append, hasOuterComma_blank hg, ih hxs]

theorem depthAfter?_leftParen (depth : Nat) (rest : List Glyph) :
    depthAfter? depth (leftParen :: rest) = depthAfter? (depth + 1) rest := rfl

theorem depthAfter?_rightParen (depth : Nat) (rest : List Glyph) :
    depthAfter? (depth + 1) (rightParen :: rest) = depthAfter? depth rest := rfl

theorem depthAfter?_pair (h : depthAfter? 0 xs = some 0) (depth : Nat) (rest : List Glyph) :
    depthAfter? depth (leftParen :: (xs ++ rightParen :: rest)) = depthAfter? depth rest := by
  have hxs := depthAfter?_add h (depth + 1)
  rw [Nat.zero_add] at hxs
  rw [depthAfter?_leftParen, depthAfter?_append, hxs, Option.bind_some, depthAfter?_rightParen]

theorem hasOuterComma_pair (h : depthAfter? 0 xs = some 0) (depth : Nat) (rest : List Glyph) :
    hasOuterComma depth (leftParen :: (xs ++ rightParen :: rest)) = hasOuterComma depth rest := by
  have hxs := depthAfter?_add h depth
  have hdeeper := depthAfter?_add h (depth + 1)
  rw [Nat.zero_add] at hxs hdeeper
  calc
    hasOuterComma depth (leftParen :: (xs ++ rightParen :: rest))
    _ = hasOuterComma (depth + 1) (xs ++ rightParen :: rest) := rfl
    _ = (hasOuterComma (depth + 1) xs || hasOuterComma (depth + 1) (rightParen :: rest)) :=
      hasOuterComma_append hdeeper _
    _ = hasOuterComma (depth + 1) (rightParen :: rest) := by rw [hasOuterComma_inside hxs, Bool.false_or]
    _ = hasOuterComma depth rest := rfl

/-! ### What a pass does to them -/

section

variable (hps : pairs gs = some ps)

include hps

/-- A kept pair keeps its parentheses. -/
theorem edit_kept {p : Pair} (hp : p ∈ ps) (hr : p.isRedundant gs = false) (rest : List Glyph) :
    edit (redundantCuts gs ps) p.opening (leftParen :: (p.inner gs ++ rightParen :: rest)) =
      leftParen :: (edit (redundantCuts gs ps) (p.opening + 1) (p.inner gs) ++
        rightParen :: edit (redundantCuts gs ps) (p.closing + 1) rest) := by
  have hlt := (stands hps hp).lt
  rw [edit_of_untouched (untouched_opening hps hp hr), edit_append, length_inner (stands hps hp),
    show p.opening + 1 + (p.closing - (p.opening + 1)) = p.closing by omega,
    edit_of_untouched (untouched_closing hps hp hr)]

/-- Of a redundant pair at most blanks are left for its parentheses. -/
theorem edit_redundant {p : Pair} (hp : p ∈ ps) (hr : p.isRedundant gs = true) (rest : List Glyph) :
    ∃ before after, (∀ g ∈ before, g.isBlank = true) ∧ (∀ g ∈ after, g.isBlank = true) ∧
      edit (redundantCuts gs ps) p.opening (leftParen :: (p.inner gs ++ rightParen :: rest)) =
        before ++ (edit (redundantCuts gs ps) (p.opening + 1) (p.inner gs) ++
          (after ++ edit (redundantCuts gs ps) (p.closing + 1) rest)) := by
  have hparen : ∀ {j}, Touched (redundantCuts gs ps) j → ∀ g more, ∃ blanks,
      (∀ x ∈ blanks, x.isBlank = true) ∧
      edit (redundantCuts gs ps) j (g :: more) = blanks ++ edit (redundantCuts gs ps) (j + 1) more := by
    intro j hj g more
    rcases edit_of_touched hj g more with hedit | hedit
    · exact ⟨[], by simp, hedit⟩
    · exact ⟨[⟨' ', true⟩], by decide, hedit⟩
  obtain ⟨before, hbefore, hopening⟩ :=
    hparen (touched_opening hp hr) leftParen (p.inner gs ++ rightParen :: rest)
  obtain ⟨after, hafter, hclosing⟩ := hparen (touched_closing hp hr) rightParen rest
  have hlt := (stands hps hp).lt
  refine ⟨before, after, hbefore, hafter, ?_⟩
  rw [hopening, edit_append, length_inner (stands hps hp),
    show p.opening + 1 + (p.closing - (p.opening + 1)) = p.closing by omega, hclosing]

variable (hbalanced : ∀ p ∈ ps, p.isBalanced gs = true)

include hbalanced

/-- A pass over a well nested text changes nothing in how many brackets are open at its end. -/
theorem depthAfter?_edit (h : Nested gs ps i xs) (depth : Nat) :
    depthAfter? depth (edit (redundantCuts gs ps) i xs) = depthAfter? depth xs := by
  induction h generalizing depth with
  | nil i => rfl
  | @glyph i g rest hg hl hr hrest ih =>
    by_cases hi : Touched (redundantCuts gs ps) i
    · have hblank := blank_of_touched hps hi hg hl hr
      rcases edit_of_touched hi g rest with hedit | hedit
      · rw [hedit, ih, depthAfter?_blank hblank]
      · rw [hedit, depthAfter?_blank rfl, ih, depthAfter?_blank hblank]
    · rw [edit_of_untouched hi, ← List.singleton_append, depthAfter?_append]
      simp only [ih]
      rw [← depthAfter?_append, List.singleton_append]
  | @pair p rest hp hinner hrest ihinner ihrest =>
    have hin : depthAfter? 0 (p.inner gs) = some 0 := by simpa [Pair.isBalanced] using hbalanced p hp
    have hout : depthAfter? 0 (edit (redundantCuts gs ps) (p.opening + 1) (p.inner gs)) = some 0 := by
      rw [ihinner, hin]
    rw [depthAfter?_pair hin]
    cases hr : p.isRedundant gs with
    | false => rw [edit_kept hps hp hr, depthAfter?_pair hout, ihrest]
    | true =>
      obtain ⟨before, after, hbefore, hafter, hedit⟩ := edit_redundant hps hp hr rest
      have hsame := depthAfter?_add hout depth
      rw [Nat.zero_add] at hsame
      rw [hedit, depthAfter?_blanks hbefore, depthAfter?_append, hsame, Option.bind_some,
        depthAfter?_blanks hafter, ihrest]

/-- A pass over a well nested text loses no comma outside of all brackets. -/
theorem hasOuterComma_edit (h : Nested gs ps i xs) (hcomma : hasOuterComma depth xs = true) :
    hasOuterComma depth (edit (redundantCuts gs ps) i xs) = true := by
  induction h generalizing depth with
  | nil i => exact hcomma
  | @glyph i g rest hg hl hr hrest ih =>
    by_cases hi : Touched (redundantCuts gs ps) i
    · rw [hasOuterComma_blank (blank_of_touched hps hi hg hl hr)] at hcomma
      rcases edit_of_touched hi g rest with hedit | hedit
      · rw [hedit, ih hcomma]
      · rw [hedit, hasOuterComma_blank rfl, ih hcomma]
    · rw [edit_of_untouched hi]
      rw [hasOuterComma] at hcomma ⊢
      split_ifs at hcomma ⊢ with hcode hopen hclose hfound
      · exact ih hcomma
      · exact ih hcomma
      · exact ih hcomma
      · rfl
      · exact ih hcomma
  | @pair p rest hp hinner hrest ihinner ihrest =>
    have hin : depthAfter? 0 (p.inner gs) = some 0 := by simpa [Pair.isBalanced] using hbalanced p hp
    have hout : depthAfter? 0 (edit (redundantCuts gs ps) (p.opening + 1) (p.inner gs)) = some 0 := by
      rw [depthAfter?_edit hps hbalanced hinner, hin]
    rw [hasOuterComma_pair hin] at hcomma
    cases hr : p.isRedundant gs with
    | false => rw [edit_kept hps hp hr, hasOuterComma_pair hout, ihrest hcomma]
    | true =>
      obtain ⟨before, after, hbefore, hafter, hedit⟩ := edit_redundant hps hp hr rest
      have hsame := depthAfter?_add hout depth
      rw [Nat.zero_add] at hsame
      rw [hedit, hasOuterComma_blanks hbefore, hasOuterComma_append hsame, hasOuterComma_blanks hafter,
        ihrest hcomma, Bool.or_true]

end

end BulkEdit.Source
