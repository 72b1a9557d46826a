import BulkEdit.Proofs.Source.Cuts

/-!
# Where a pass moves things

What stands at a position comes to stand after all that is left before it (`landing`). The pairs of what a
pass leaves are the pairs that are not redundant, moved to where their parentheses come to stand
(`pairs_leftover`).
-/

namespace BulkEdit.Source

variable {gs : List Glyph} {ps : List Pair} {p q : Pair} {i j k : Nat} {g x : Glyph}

instance (cuts : List Cut) (i : Nat) : Decidable (Touched cuts i) :=
  inferInstanceAs (Decidable (_ ∨ _))

/-! ### Where positions come to stand -/

/-- How many glyphs are left before a position. -/
def landing (gs : List Glyph) (ps : List Pair) (i : Nat) : Nat :=
  (edit (redundantCuts gs ps) 0 (gs.take i)).length

/-- Where the parentheses of a pair come to stand. -/
def Pair.land (p : Pair) (gs : List Glyph) (ps : List Pair) : Pair :=
  ⟨landing gs ps p.opening, landing gs ps p.closing⟩

theorem leftover_eq (hi : i ≤ gs.length) : leftover gs ps =
    edit (redundantCuts gs ps) 0 (gs.take i) ++ edit (redundantCuts gs ps) i (gs.drop i) := by
  have hsplit := edit_append (redundantCuts gs ps) 0 (gs.take i) (gs.drop i)
  rwa [List.take_append_drop, List.length_take, Nat.min_eq_left hi, Nat.zero_add] at hsplit

theorem take_leftover (hi : i ≤ gs.length) :
    (leftover gs ps).take (landing gs ps i) = edit (redundantCuts gs ps) 0 (gs.take i) := by
  rw [leftover_eq hi]
  exact List.take_left

theorem drop_leftover (hi : i ≤ gs.length) :
    (leftover gs ps).drop (landing gs ps i) = edit (redundantCuts gs ps) i (gs.drop i) := by
  rw [leftover_eq hi]
  exact List.drop_left

theorem landing_succ (hg : gs[i]? = some g) :
    landing gs ps (i + 1) = landing gs ps i + (edit (redundantCuts gs ps) i [g]).length := by
  have hlt := (List.getElem?_eq_some_iff.1 hg).1
  rw [landing, List.take_add_one, hg, Option.toList_some, edit_append, List.length_append, List.length_take,
    Nat.min_eq_left hlt.le, Nat.zero_add, landing]

theorem landing_succ_of_untouched (hi : ¬Touched (redundantCuts gs ps) i) (hg : gs[i]? = some g) :
    landing gs ps (i + 1) = landing gs ps i + 1 := by
  rw [landing_succ hg, edit_of_untouched hi]
  rfl

/-! ### Kept pairs -/

/-- The search takes no notice of what is touched. -/
theorem pairsFrom_of_touched {waiting : List Nat} (hi : Touched (redundantCuts gs ps) i)
    (hg : gs[i]? = some g) (rest : List Glyph) :
    pairsFrom (landing gs ps i) waiting (edit (redundantCuts gs ps) i (g :: rest)) =
      pairsFrom (landing gs ps (i + 1)) waiting (edit (redundantCuts gs ps) (i + 1) rest) := by
  have hsingle := edit_append (redundantCuts gs ps) i [g] rest
  rw [List.singleton_append, List.length_singleton] at hsingle
  rw [landing_succ hg, hsingle]
  rcases edit_of_touched hi g [] with hedit | hedit
  · rw [hedit]
    rfl
  · rw [hedit]
    exact pairsFrom_of_ne (by decide) (by decide)

theorem pairsFrom_leftover {waiting : List Nat} {rest : List Glyph} {qs : List Pair}
    (h : pairsFrom i waiting rest = some qs) (hdrop : gs.drop i = rest)
    (hqs : ∀ q ∈ qs, Touched (redundantCuts gs ps) q.opening ↔ Touched (redundantCuts gs ps) q.closing) :
    pairsFrom (landing gs ps i)
        ((waiting.filter fun o => ¬Touched (redundantCuts gs ps) o).map (landing gs ps))
        (edit (redundantCuts gs ps) i rest) =
      some ((qs.filter fun q => ¬Touched (redundantCuts gs ps) q.opening).map (·.land gs ps)) := by
  induction rest generalizing i waiting qs with
  | nil =>
    obtain ⟨rfl, rfl⟩ := pairsFrom_nil_eq_some.1 h
    exact pairsFrom_nil_eq_some.2 ⟨rfl, rfl⟩
  | cons g rest ih =>
    obtain ⟨hg, htail⟩ := getElem?_of_drop hdrop
    rcases pairsFrom_cons h with ⟨rfl, hnext⟩ | ⟨rfl, o, outer, qs, rfl, rfl, hnext⟩ | ⟨⟨hl, hr⟩, hnext⟩
    · have hrest := ih hnext htail hqs
      by_cases hi : Touched (redundantCuts gs ps) i
      · rw [List.filter_cons_of_neg (by simpa using hi)] at hrest
        rw [pairsFrom_of_touched hi hg, hrest]
      · rw [List.filter_cons_of_pos (by simpa using hi), List.map_cons,
          landing_succ_of_untouched hi hg] at hrest
        rw [edit_of_untouched hi, pairsFrom_leftParen, hrest]
    · obtain ⟨hboth, hqs⟩ := List.forall_mem_cons.1 hqs
      have hrest := ih hnext htail hqs
      by_cases hi : Touched (redundantCuts gs ps) i
      · have ho : Touched (redundantCuts gs ps) o := hboth.2 hi
        rw [List.filter_cons_of_neg (by simpa using ho), List.filter_cons_of_neg (by simpa using ho),
          pairsFrom_of_touched hi hg, hrest]
      · have ho : ¬Touched (redundantCuts gs ps) o := fun ho => hi (hboth.1 ho)
        rw [List.filter_cons_of_pos (by simpa using ho), List.filter_cons_of_pos (by simpa using ho),
          List.map_cons, List.map_cons, edit_of_untouched hi, pairsFrom_rightParen,
          ← landing_succ_of_untouched hi hg, hrest]
        rfl
    · have hrest := ih hnext htail hqs
      by_cases hi : Touched (redundantCuts gs ps) i
      · rw [pairsFrom_of_touched hi hg, hrest]
      · rw [edit_of_untouched hi, pairsFrom_of_ne hl hr, ← landing_succ_of_untouched hi hg, hrest]

section

variable (hps : pairs gs = some ps)

include hps

omit hps in
theorem mem_kept {p' : Pair} : p' ∈ (ps.filter fun p => !p.isRedundant gs).map (·.land gs ps) ↔
    ∃ p ∈ ps, p.isRedundant gs = false ∧ p.land gs ps = p' := by
  simp [and_assoc]

/-- **The pairs of what a pass leaves** are the pairs that are not redundant. -/
theorem pairs_leftover :
    pairs (leftover gs ps) = some ((ps.filter fun p => !p.isRedundant gs).map (·.land gs ps)) := by
  have hqs : ∀ q ∈ ps, Touched (redundantCuts gs ps) q.opening ↔ Touched (redundantCuts gs ps) q.closing :=
    fun q hq => (touched_opening_iff hps hq).trans (touched_closing_iff hps hq).symm
  have hkept : (ps.filter fun p => !p.isRedundant gs) =
      ps.filter fun p => ¬Touched (redundantCuts gs ps) p.opening :=
    List.filter_congr fun p hp => by simp [touched_opening_iff hps hp]
  rw [hkept]
  exact pairsFrom_leftover hps List.drop_zero hqs

end

end BulkEdit.Source
