import BulkEdit.Path.Route
import Mathlib.Data.List.TakeWhile
import Mathlib.Tactic.Common

/-!
# Spellings of paths

How the text of a path and its segments determine each other:

* `pieces_joined`: segments without a slash are found again in the text that joins them;
* `components_ofParts`: the components of a text that is put together from a lead and segments, as
  long as the first segment cannot be mistaken for a lead (`Fits`);
* `folder?_components`: the folder of a path has the path's components but the last.
-/

namespace BulkEdit

/-! ### Cutting and joining -/

namespace Text

theorem pieces_ne_nil (mark : Char) (cs : List Char) : pieces mark cs ≠ [] := by
  cases cs with
  | nil => simp [pieces]
  | cons c rest =>
    unfold pieces
    split
    · simp
    · split <;> simp

theorem not_mem_of_mem_pieces {mark : Char} {cs piece : List Char} (h : piece ∈ pieces mark cs) :
    mark ∉ piece := by
  induction cs generalizing piece with
  | nil =>
    simp only [pieces, List.mem_singleton] at h
    simp [h]
  | cons c rest ih =>
    unfold pieces at h
    split at h
    · rcases List.mem_cons.1 h with rfl | h
      · simp
      · exact ih h
    · rename_i hc
      split at h
      · rename_i hp
        exact absurd hp (pieces_ne_nil mark rest)
      · rename_i first more hp
        rcases List.mem_cons.1 h with rfl | h
        · intro hm
          rcases List.mem_cons.1 hm with e | hm
          · exact hc e.symm
          · exact ih (hp ▸ List.mem_cons_self ..) hm
        · exact ih (hp ▸ List.mem_cons_of_mem _ h)

theorem pieces_of_not_mem {mark : Char} {cs : List Char} (h : mark ∉ cs) :
    pieces mark cs = [cs] := by
  induction cs with
  | nil => rfl
  | cons c rest ih =>
    rw [List.mem_cons, not_or] at h
    unfold pieces
    rw [if_neg (Ne.symm h.1), ih h.2]

theorem pieces_append_mark {mark : Char} {piece : List Char} (h : mark ∉ piece) (cs : List Char) :
    pieces mark (piece ++ mark :: cs) = piece :: pieces mark cs := by
  induction piece with
  | nil => simp [pieces]
  | cons c rest ih =>
    rw [List.mem_cons, not_or] at h
    rw [List.cons_append, pieces, if_neg (Ne.symm h.1), ih h.2]

theorem joined_cons_cons (mark : Char) (part next : List Char) (more : List (List Char)) :
    joined mark (part :: next :: more) = part ++ mark :: joined mark (next :: more) := rfl

theorem pieces_joined {mark : Char} {parts : List (List Char)} (hne : parts ≠ [])
    (h : ∀ part ∈ parts, mark ∉ part) : pieces mark (joined mark parts) = parts := by
  induction parts with
  | nil => exact absurd rfl hne
  | cons part more ih =>
    have hpart : mark ∉ part := h part (List.mem_cons_self ..)
    cases more with
    | nil => exact pieces_of_not_mem hpart
    | cons next others =>
      have hmore := ih (by simp) fun p hp => h p (List.mem_cons_of_mem _ hp)
      rw [joined_cons_cons, pieces_append_mark hpart, hmore]

theorem intercalate_eq_joined (mark : Char) (parts : List (List Char)) :
    [mark].intercalate parts = joined mark parts := by
  induction parts with
  | nil => rfl
  | cons part more ih =>
    cases more with
    | nil => simp [joined, List.intercalate]
    | cons next others =>
      rw [joined_cons_cons, ← ih]
      simp [List.intercalate, List.intersperse]

end Text

namespace Path

/-! ### Leads and segments -/

/-- The components that some segments stand for. -/
def visible (segments : List (List Char)) : List Component :=
  (segments.filter isVisible).map componentOf

theorem components_eq (p : Path) : p.components = p.lead.components ++ visible p.segments := rfl

/-- Segments that may stand behind a lead: the first of them must not be taken for a lead, and behind
a full stop comes a separator. -/
def Fits : Lead → List (List Char) → Prop
  | .root, _ => True
  | .nothing, segments => ∀ s ∈ segments.head?, s ≠ [] ∧ s ≠ ['.']
  | .current, segments => ∀ s ∈ segments.head?, s = [] ∧ segments ≠ [[]]

theorem cutLead_ofParts {lead : Lead} {segments : List (List Char)} (hfit : Fits lead segments)
    (hplain : ∀ s ∈ segments, '/' ∉ s) :
    cutLead (lead.chars ++ Text.joined '/' segments) = (lead, Text.joined '/' segments) := by
  cases lead with
  | root => rfl
  | current =>
    cases segments with
    | nil => rfl
    | cons s more =>
      obtain ⟨rfl, hne⟩ := hfit s rfl
      cases more with
      | nil => exact absurd rfl hne
      | cons t others => rfl
  | nothing =>
    cases segments with
    | nil => rfl
    | cons s more =>
      obtain ⟨hs, hdot⟩ := hfit s rfl
      have hslash : '/' ∉ s := hplain s (List.mem_cons_self ..)
      obtain ⟨c, rest, rfl⟩ := List.exists_cons_of_ne_nil hs
      have hc : c ≠ '/' := fun e => hslash (e ▸ List.mem_cons_self ..)
      -- the text goes on with the first segment, so neither a root nor a lone full stop is seen
      obtain ⟨tail, ht⟩ : ∃ tail, Text.joined '/' ((c :: rest) :: more) = c :: (rest ++ tail) := by
        cases more with
        | nil => exact ⟨[], by simp [Text.joined]⟩
        | cons t others => exact ⟨'/' :: Text.joined '/' (t :: others), rfl⟩
      have hrest : c = '.' → ∃ d more', rest = d :: more' ∧ d ≠ '/' := by
        rintro rfl
        cases rest with
        | nil => exact absurd rfl hdot
        | cons d more' =>
          refine ⟨d, more', rfl, ?_⟩
          rintro rfl
          exact hslash (by simp)
      rw [ht]
      simp only [Lead.chars, List.nil_append]
      unfold cutLead
      split
      · rename_i heq
        exact absurd (List.cons.inj heq).1 hc
      · rename_i heq
        obtain ⟨d, more', hd, -⟩ := hrest (List.cons.inj heq).1
        simp [hd] at heq
      · rename_i heq
        obtain ⟨d, more', hd, hslash'⟩ := hrest (List.cons.inj heq).1
        simp only [hd, List.cons_append, List.cons.injEq] at heq
        exact absurd heq.2.1 hslash'
      · rfl

theorem parts_ofParts {lead : Lead} {segments : List (List Char)} (hfit : Fits lead segments)
    (hplain : ∀ s ∈ segments, '/' ∉ s) :
    (ofParts lead segments).lead = lead ∧
      (ofParts lead segments).segments = if segments = [] then [[]] else segments := by
  have hcut : cutLead (ofParts lead segments).text.toList = (lead, Text.joined '/' segments) := by
    rw [ofParts, String.toList_ofList, cutLead_ofParts hfit hplain]
  rw [Path.lead, Path.segments, hcut]
  refine ⟨rfl, ?_⟩
  split
  · rename_i hnil
    rw [hnil]
    rfl
  · rename_i hne
    exact Text.pieces_joined hne hplain

theorem components_ofParts {lead : Lead} {segments : List (List Char)} (hfit : Fits lead segments)
    (hplain : ∀ s ∈ segments, '/' ∉ s) :
    (ofParts lead segments).components = lead.components ++ visible segments := by
  obtain ⟨hlead, hsegments⟩ := parts_ofParts hfit hplain
  rw [components_eq, hlead, hsegments]
  split
  · rename_i hnil
    rw [hnil]
    rfl
  · rfl

theorem segments_plain {p : Path} {s : List Char} (h : s ∈ p.segments) : '/' ∉ s :=
  Text.not_mem_of_mem_pieces h

theorem visible_append (a b : List (List Char)) : visible (a ++ b) = visible a ++ visible b := by
  simp [visible]

theorem visible_singleton {s : List Char} (h : isVisible s = true) : visible [s] = [componentOf s] := by
  simp [visible, h]

/-- A beginning of the segments of a path fits behind its lead, unless nothing of it can be seen. -/
theorem fits_of_initial {p : Path} {segments : List (List Char)} (hpre : segments <+: p.segments)
    (hvis : segments = [] ∨ visible segments ≠ []) : Fits p.lead segments := by
  rcases hvis with rfl | hvis
  · cases p.lead <;> simp [Fits]
  obtain ⟨s, more, rfl⟩ := List.exists_cons_of_ne_nil (l := segments) (by rintro rfl; exact hvis rfl)
  obtain ⟨tail, htail⟩ := hpre
  unfold Path.segments at htail
  unfold Path.lead
  generalize p.text.toList = cs at htail ⊢
  -- the text begins with the first segment, which the lead has not taken
  have hcs := Text.joined_pieces '/' (cutLead cs).2
  rw [← htail, List.cons_append] at hcs
  have hnil : visible [[]] = [] := rfl
  unfold cutLead at hcs htail ⊢
  split at hcs
  · exact trivial
  · simp [Text.pieces] at htail
    obtain ⟨rfl, rfl, -⟩ := htail
    exact absurd rfl hvis
  · intro s' hs'
    obtain rfl := Option.some.inj hs'
    simp only [Text.pieces, if_true, List.cons_append, List.cons.injEq] at htail
    refine ⟨htail.1, fun he => hvis ?_⟩
    rw [he, hnil]
  · rename_i hroot hdot hcur
    intro s' hs'
    obtain rfl := Option.some.inj hs'
    constructor
    · rintro rfl
      cases htm : more ++ tail with
      | nil =>
        obtain ⟨rfl, -⟩ := List.append_eq_nil_iff.1 htm
        exact hvis rfl
      | cons t others =>
        rw [htm, Text.joined_cons_cons] at hcs
        exact hroot _ hcs.symm
    · rintro rfl
      cases htm : more ++ tail with
      | nil =>
        rw [htm] at hcs
        exact hdot hcs.symm
      | cons t others =>
        rw [htm, Text.joined_cons_cons] at hcs
        exact hcur _ hcs.symm

/-! ### Folders -/

theorem trimRight_eq (segments : List (List Char)) :
    ∃ blank, segments = trimRight segments ++ blank ∧ ∀ s ∈ blank, isVisible s = false := by
  refine ⟨(segments.reverse.takeWhile fun s => !isVisible s).reverse, ?_, ?_⟩
  · unfold trimRight
    rw [← List.reverse_append, List.takeWhile_append_dropWhile, List.reverse_reverse]
  · intro s hs
    simpa using List.mem_takeWhile_imp (List.mem_reverse.1 hs)

theorem visible_trimRight (segments : List (List Char)) :
    visible (trimRight segments) = visible segments := by
  obtain ⟨blank, hsplit, hblank⟩ := trimRight_eq segments
  have hnone : visible blank = [] := by
    simp only [visible, List.map_eq_nil_iff, List.filter_eq_nil_iff]
    intro s hs
    simp [hblank s hs]
  conv_rhs => rw [hsplit, visible_append, hnone, List.append_nil]

theorem trimRight_last {segments : List (List Char)} {s : List Char} {before : List (List Char)}
    (h : (trimRight segments).reverse = s :: before) : isVisible s = true := by
  unfold trimRight at h
  rw [List.reverse_reverse] at h
  have hhead := List.head?_dropWhile_not (fun s => !isVisible s) segments.reverse
  rw [h] at hhead
  simpa using hhead

theorem trimRight_blank_or (segments : List (List Char)) :
    trimRight segments = [] ∨ visible (trimRight segments) ≠ [] := by
  cases h : (trimRight segments).reverse with
  | nil => exact Or.inl (List.reverse_eq_nil_iff.1 h)
  | cons s before =>
    right
    rw [List.reverse_eq_cons_iff.1 h, visible_append, visible_singleton (trimRight_last h)]
    simp

theorem componentOf_eq (s : List Char) : componentOf s = .up ∨ ∃ name, componentOf s = .name name := by
  unfold componentOf
  split
  · exact Or.inl rfl
  · exact Or.inr ⟨_, rfl⟩

/-- A path with a component that can be seen: the parent has the components before it. -/
theorem components_of_trimRight {p : Path} {s : List Char} {before : List (List Char)}
    (hrev : (trimRight p.segments).reverse = s :: before) :
    let parent := ofParts p.lead (trimRight before.reverse)
    p.components = parent.components ++ [componentOf s] ∧
      (parent.components = [] → parent.text = "") := by
  have hs := trimRight_last hrev
  have hsegs : trimRight p.segments = before.reverse ++ [s] := List.reverse_eq_cons_iff.1 hrev
  obtain ⟨blank, hsplit, -⟩ := trimRight_eq p.segments
  obtain ⟨rest, hrest, -⟩ := trimRight_eq before.reverse
  have hpre : trimRight before.reverse <+: p.segments := by
    refine ⟨rest ++ [s] ++ blank, ?_⟩
    rw [hsplit, hsegs]
    conv_rhs => rw [hrest]
    simp
  have hplain : ∀ t ∈ trimRight before.reverse, '/' ∉ t := fun t ht =>
    segments_plain (hpre.subset ht)
  have hcomp := components_ofParts (fits_of_initial hpre (trimRight_blank_or _)) hplain
  refine ⟨?_, fun hnil => ?_⟩
  · rw [components_eq p, ← visible_trimRight, hsegs, visible_append, visible_singleton hs, hcomp,
      visible_trimRight, List.append_assoc]
  · rw [hcomp, List.append_eq_nil_iff] at hnil
    have hblank := (trimRight_blank_or before.reverse).resolve_right (not_not_intro hnil.2)
    have hlead : p.lead = .nothing := by
      cases hl : p.lead <;> simp [hl, Lead.components] at hnil ⊢
    rw [hblank, hlead]
    rfl

theorem components_of_blank {p : Path} (hrev : (trimRight p.segments).reverse = []) :
    p.components = p.lead.components := by
  have hvis : visible p.segments = [] := by
    rw [← visible_trimRight, List.reverse_eq_nil_iff.1 hrev]
    rfl
  rw [components_eq, hvis, List.append_nil]

/-- **The folder of a path** has the path's components but the last, which names an entry of the folder
or leads up from it. -/
theorem folder?_components {p folder : Path} (h : p.folder? = some folder) :
    folder.components ≠ [] ∧
      ∃ c, (c = .up ∨ ∃ name, c = .name name) ∧ p.components = folder.components ++ [c] := by
  unfold Path.folder? at h
  obtain ⟨hparent, htext⟩ := Option.filter_eq_some_iff.1 h
  have htext : folder.text ≠ "" := by simpa using htext
  unfold Path.parent? at hparent
  split at hparent
  · rename_i s before hrev
    obtain ⟨hcomp, hempty⟩ := components_of_trimRight hrev
    obtain rfl := Option.some.inj hparent
    exact ⟨fun hnil => htext (hempty hnil), componentOf s, componentOf_eq s, hcomp⟩
  · split at hparent
    · obtain rfl := Option.some.inj hparent
      exact absurd rfl htext
    · cases hparent

theorem length_components_of_folder?_eq_none {p : Path} (h : p.folder? = none) :
    p.components.length ≤ 1 := by
  unfold Path.folder? Path.parent? at h
  split at h
  · rename_i s before hrev
    obtain ⟨hcomp, -⟩ := components_of_trimRight hrev
    have htext : (ofParts p.lead (trimRight before.reverse)).text = "" := by
      simpa [Option.filter] using h
    have hnil : (ofParts p.lead (trimRight before.reverse)).components = [] := by
      rw [components_eq, Path.lead, Path.segments, htext]
      rfl
    simp [hcomp, hnil]
  · rename_i hrev
    rw [components_of_blank hrev]
    cases p.lead <;> simp [Lead.components]

end Path

end BulkEdit
