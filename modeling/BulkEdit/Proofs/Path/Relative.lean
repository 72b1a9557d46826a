import BulkEdit.Proofs.Path.Place

/-!
# Places as seen from a path

A path is taken off the front of another component by component, as it is written. From a path that spells
a place (`IsDirect`) what stands below the place is seen by the rest of its own route
(`relativeTo?_toPath`), and its text is the text of the rest behind a separator
(`IsPlace.toList_text_append`). From a path with a detour nothing is seen at all
(`relativeTo?_eq_none`).
-/

namespace BulkEdit

theorem Text.joined_append (mark : Char) {a b : List (List Char)} (ha : a ≠ []) (hb : b ≠ []) :
    joined mark (a ++ b) = joined mark a ++ mark :: joined mark b := by
  induction a with
  | nil => exact absurd rfl ha
  | cons part more ih =>
    cases more with
    | nil =>
      obtain ⟨next, others, rfl⟩ := List.exists_cons_of_ne_nil hb
      rfl
    | cons next others =>
      have hmore := ih (by simp)
      rw [List.cons_append, List.cons_append, joined_cons_cons, joined_cons_cons, ← List.cons_append, hmore]
      simp

namespace Path

/-- A path without detours: it spells the place that it names, except for the separators. -/
def IsDirect (p : Path) : Prop :=
  p.components = p.route

instance (p : Path) : Decidable p.IsDirect :=
  inferInstanceAs (Decidable (_ = _))

/-! ### Segments that can be seen -/

section

variable {segments : List (List Char)} (h : ∀ s ∈ segments, isVisible s = true)

include h

theorem trimLeft_of_visible : trimLeft segments = segments := by
  cases segments with
  | nil => rfl
  | cons s rest => simp [trimLeft, h s (List.mem_cons_self ..)]

theorem trimRight_of_visible : trimRight segments = segments := by
  have hreverse : ∀ s ∈ segments.reverse, isVisible s = true := fun s hs => h s (List.mem_reverse.1 hs)
  have hkept := trimLeft_of_visible hreverse
  unfold trimLeft at hkept
  rw [trimRight, hkept, List.reverse_reverse]

theorem dropVisible_append (more : List (List Char)) :
    dropVisible segments.length (segments ++ more) = more := by
  induction segments with
  | nil => rw [List.length_nil, List.nil_append, dropVisible]
  | cons s rest ih =>
    rw [List.length_cons, List.cons_append, dropVisible, if_pos (h s (List.mem_cons_self ..))]
    exact ih fun t ht => h t (List.mem_cons_of_mem _ ht)

/-- Segments are all that is left of themselves, and nothing is left of a blank one in their place. -/
theorem trimRight_or_blank : trimRight (if segments = [] then [[]] else segments) = segments := by
  split
  · rename_i hnil
    rw [hnil]
    rfl
  · exact trimRight_of_visible h

end

end Path

namespace Route

variable {base more : Route}

theorem isVisible_segments {r : Route} (h : ∀ c ∈ r, c = .up ∨ c.IsName) :
    ∀ s ∈ r.segments, Path.isVisible s = true := by
  intro s hs
  obtain ⟨c, hc, rfl⟩ := List.mem_map.1 hs
  rcases h c hc with rfl | ⟨text, rfl, hne, hdot, -, -⟩
  · decide
  · simp [Path.isVisible, Component.text, hne, hdot]

theorem segments_append (a b : Route) : segments (a ++ b) = a.segments ++ b.segments :=
  List.map_append

/-- Behind a place come steps only. -/
theorem IsPlace.exists_steps (h : IsPlace (base ++ more)) (hbase : base ≠ []) :
    ∃ (lead : Path.Lead) (steps : Route), (lead = .nothing ∨ lead = .root) ∧
      base = lead.components ++ steps ∧ (∀ c ∈ steps ++ more, c = .up ∨ c.IsName) ∧
      Path.Fits lead (segments (steps ++ more)) ∧
      toPath (base ++ more) = Path.ofParts lead (segments (steps ++ more)) ∧
      more.toPath = Path.ofParts .nothing more.segments := by
  obtain ⟨lead, steps, hlead, hroute, hsteps, hfit, htext⟩ := h.exists_parts
  obtain ⟨front, rfl, rfl⟩ : ∃ front, base = lead.components ++ front ∧ steps = front ++ more := by
    obtain ⟨c, rest, rfl⟩ := List.exists_cons_of_ne_nil hbase
    rcases hlead with rfl | rfl
    · exact ⟨c :: rest, rfl, hroute.symm⟩
    · obtain ⟨rfl, rfl⟩ := List.cons.inj hroute
      exact ⟨rest, rfl, rfl⟩
  refine ⟨lead, front, hlead, rfl, hsteps, hfit, htext, toPath_relative fun hroot => ?_⟩
  have hmem := List.mem_append_right front (List.mem_of_mem_head? hroot)
  rcases hsteps _ hmem with h | ⟨text, h, -⟩ <;> cases h

/-- **What stands below a place** is seen from it by the rest of the route. -/
theorem IsPlace.relativeTo?_toPath (h : IsPlace (base ++ more)) {q : Path} (hq : q.components = base) :
    (toPath (base ++ more)).relativeTo? q = some more.toPath := by
  have hbelow : (toPath (base ++ more)).isBelow q = true := by
    rw [Path.isBelow, h.components_toPath, hq, List.isPrefixOf_iff_prefix]
    exact List.prefix_append ..
  unfold Path.relativeTo?
  rw [if_pos hbelow, hq]
  by_cases hbase : base = []
  · obtain ⟨lead, steps, -, -, hsteps, hfit, htext⟩ := h.exists_parts
    obtain ⟨hlead, hsegments⟩ := Path.parts_ofParts hfit (plain_segments hsteps)
    subst hbase
    rw [List.nil_append] at htext ⊢
    simp only [List.length_nil]
    rw [htext, hlead, hsegments, Path.trimRight_or_blank (isVisible_segments hsteps)]
  · obtain ⟨lead, steps, -, hroute, hsteps, hfit, htext, hmore⟩ := h.exists_steps hbase
    obtain ⟨hsame, hsegments⟩ := Path.parts_ofParts hfit (plain_segments hsteps)
    have hcount : base.length - lead.components.length = steps.length := by
      rw [hroute, List.length_append]
      omega
    have hvisible := isVisible_segments hsteps
    rw [segments_append] at hvisible
    have hfront : ∀ s ∈ steps.segments, Path.isVisible s = true :=
      fun s hs => hvisible s (List.mem_append_left _ hs)
    have hback : ∀ s ∈ more.segments, Path.isVisible s = true :=
      fun s hs => hvisible s (List.mem_append_right _ hs)
    obtain ⟨count, hlength⟩ := Nat.exists_eq_succ_of_ne_zero (List.length_pos_iff.2 hbase).ne'
    rw [hlength]
    dsimp only
    rw [← Nat.succ_eq_add_one, ← hlength, htext, hsame, hsegments, hcount, hmore, segments_append]
    refine congrArg (fun segments => some (Path.ofParts .nothing segments)) ?_
    split
    · -- the path is the root itself
      rename_i hnil
      obtain ⟨hsteps, hmore⟩ := List.append_eq_nil_iff.1 hnil
      obtain rfl := List.map_eq_nil_iff.1 hsteps
      rw [hmore]
      rfl
    · have hlen : steps.length = steps.segments.length := by simp [segments]
      rw [hlen, Path.dropVisible_append hfront, Path.trimLeft_of_visible hback,
        Path.trimRight_of_visible hback]

/-- Nothing is seen from a path that does not spell a place. -/
theorem IsPlace.relativeTo?_eq_none {r : Route} (h : IsPlace r) {q : Path} (hq : ¬q.IsDirect) :
    r.toPath.relativeTo? q = none := by
  unfold Path.relativeTo?
  refine if_neg fun hbelow => hq ?_
  rw [Path.isBelow, h.components_toPath, List.isPrefixOf_iff_prefix] at hbelow
  exact (h.of_initial hbelow).foldl_step.symm

theorem IsPlace.toList_text_append (h : IsPlace (base ++ more)) (hbase : base ≠ []) (hmore : more ≠ []) :
    ∃ above, (toPath (base ++ more)).text.toList = above ++ '/' :: more.toPath.text.toList := by
  obtain ⟨lead, steps, hlead, rfl, -, -, htext, hrest⟩ := h.exists_steps hbase
  have hne : more.segments ≠ [] := by simpa [segments] using hmore
  rw [htext, hrest]
  simp only [Path.ofParts, String.toList_ofList]
  by_cases hsteps : steps = []
  · subst hsteps
    rcases hlead with rfl | rfl
    · exact absurd rfl hbase
    · exact ⟨[], rfl⟩
  · have hfront : steps.segments ≠ [] := by simpa [segments] using hsteps
    rw [segments_append, Text.joined_append '/' hfront hne]
    exact ⟨lead.chars ++ Text.joined '/' steps.segments, by simp [Path.Lead.chars]⟩

end Route

end BulkEdit
