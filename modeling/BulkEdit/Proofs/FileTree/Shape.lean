import BulkEdit.Proofs.FileTree.Walk
import Mathlib.Logic.Relation

/-!
# The shape of a tree

In a proper tree no place is both a file and a folder, and nothing stands below a file (`Proper`). A folder
is made together with all folders above it, and only its own place is searched for a file; so a folder that
is made below a file makes a folder of that file as well. This and a file at the empty place are the only
ways to spoil a tree: one operation that succeeds on a proper tree leaves a proper tree exactly if it
misplaces nothing (`Proper.step_iff`).
-/

namespace BulkEdit

/-! ### Above -/

namespace Route

/-- A place is above another if it is the parent of the other, or the parent of its parent, and so on. -/
def Above : Route → Route → Prop :=
  Relation.TransGen fun a r => r.parent? = some a

theorem Above.trans {a b r : Route} (hab : Above a b) (hbr : Above b r) : Above a r :=
  Relation.TransGen.trans hab hbr

/-- Above a place are its ancestors and, if it is not below the root, the empty place. -/
theorem above_iff {a r : Route} (hr : r.IsPlace) :
    Above a r ↔ a ∈ r.ancestors ∨ a = [] ∧ r ≠ [] ∧ r.head? ≠ some .root := by
  constructor
  · intro h
    clear hr
    induction h with
    | single hparent =>
      obtain ⟨c, hc, rfl⟩ := parent?_eq_some hparent
      by_cases ha : a = []
      · subst ha
        exact Or.inr ⟨rfl, by simp, by simpa using hc⟩
      · exact Or.inl (mem_ancestors_of_folder? (folder?_append ha hc))
    | @tail parent _ _ hparent ih =>
      obtain ⟨c, hc, rfl⟩ := parent?_eq_some hparent
      rcases ih with ha | ⟨rfl, hne, hhead⟩
      · have hne : parent ≠ [] := by
          rintro rfl
          cases ha
        exact Or.inl (mem_ancestors_trans ha (mem_ancestors_of_folder? (folder?_append hne hc)))
      · refine Or.inr ⟨rfl, by simp, ?_⟩
        rwa [List.head?_append_of_ne_nil _ hne]
  · induction r using List.reverseRecOn with
    | nil => simp [ancestors]
    | append_singleton parent c ih =>
      intro h
      by_cases hc : c = .root
      · -- the root stands at the beginning only, and has no parent
        subst hc
        cases parent with
        | nil => simp [ancestors] at h
        | cons d rest => exact absurd (by simp) hr.root_not_mem_tail
      · have hparent : parent? (parent ++ [c]) = some parent := parent?_append hc
        by_cases he : a = parent
        · exact .single (he ▸ hparent)
        · refine .tail (ih (hr.of_initial (List.prefix_append ..)) ?_) hparent
          rcases h with h | ⟨rfl, -, hhead⟩
          · obtain ⟨hne, hinitial, hself⟩ := mem_ancestors.1 h
            exact Or.inl (mem_ancestors.2
              ⟨hne, (List.prefix_concat_iff.1 hinitial).resolve_left hself, he⟩)
          · have hne : parent ≠ [] := Ne.symm he
            rw [List.head?_append_of_ne_nil _ hne] at hhead
            exact Or.inr ⟨rfl, hne, hhead⟩

theorem above_of_mem_ancestors {a r : Route} (hr : r.IsPlace) (ha : a ∈ r.ancestors) : Above a r :=
  (above_iff hr).2 (Or.inl ha)

theorem Above.mem_ancestors {a r : Route} (h : Above a r) (hr : r.IsPlace) (ha : a ≠ []) :
    a ∈ r.ancestors :=
  ((above_iff hr).1 h).resolve_right fun he => ha he.1

theorem not_above_self {r : Route} (hr : r.IsPlace) : ¬ Above r r := fun h =>
  ((above_iff hr).1 h).elim (not_mem_ancestors_self r) fun he => he.2.1 he.1

end Route

namespace FileTree

open Route (Above)

variable {t t' : FileTree}

/-! ### Proper trees -/

/-- **The entries form a tree.** -/
structure Proper (t : FileTree) : Prop where
  /-- No place is both a file and a folder. -/
  unhidden : t.Unhidden
  /-- No file stands above another entry. -/
  leaf : ∀ f ∈ t.files, ∀ r, t.Holds r → ¬ Above f r

theorem proper_empty : FileTree.empty.Proper :=
  ⟨fun r hr => by simp [FileTree.empty] at hr, fun f hf => by simp [FileTree.empty] at hf⟩

theorem Built.isPlace_of_holds (h : t.Built) {r : Route} (hr : t.Holds r) : r.IsPlace :=
  hr.elim (h.placed.files r) (h.placed.folders r)

theorem Built.mem_folders_of_holds (h : t.Built) {a r : Route} (hr : t.Holds r) (ha : a ∈ r.ancestors) :
    a ∈ t.folders :=
  hr.elim (fun hfile => h.mem_folders_of_ancestor hfile ha) fun hfolder => h.closed r hfolder a ha

theorem Built.eq_nil_of_above (h : t.Built) {a r : Route} (hr : t.Holds r) (ha : a ∉ t.folders)
    (habove : Above a r) : a = [] := by
  by_contra hnil
  exact ha (h.mem_folders_of_holds hr (habove.mem_ancestors (h.isPlace_of_holds hr) hnil))

/-- Above a place in a folder are folders, and the empty place. -/
theorem Built.mem_folders_of_above_housed (h : t.Built) {a r : Route} (hr : r.IsPlace)
    (hhoused : ∀ folder, r.folder? = some folder → folder ∈ t.folders) (habove : Above a r) :
    a = [] ∨ a ∈ t.folders := by
  rcases (Route.above_iff hr).1 habove with hin | ⟨rfl, -⟩
  · cases hparent : r.folder? with
    | none =>
      rw [hr.ancestors_of_folder?_none hparent] at hin
      cases hin
    | some folder =>
      rw [Route.ancestors_of_folder? hparent] at hin
      rcases List.mem_cons.1 hin with rfl | hin
      · exact Or.inr (hhoused _ hparent)
      · exact Or.inr (h.closed folder (hhoused folder hparent) a hin)
  · exact Or.inl rfl

/-! ### Operations -/

/-- The operations that change a tree. -/
inductive Op where
  | write (p : Path) (data : String)
  | makeFolders (p : Path)
  | remove (p : Path)
  | copy (source destination : Path)
deriving DecidableEq, Repr

namespace Op

def step (op : Op) (t : FileTree) : Except TreeError FileTree :=
  match op with
  | write p data => t.write p data
  | makeFolders p => t.makeFolders p
  | remove p => t.remove p
  | copy source destination => t.copy source destination

/-- A file at the empty place gets an entry below it, or comes to stand above an entry. -/
def TopsUp (t : FileTree) (r : Route) : Prop :=
  [] ∈ t.files ∧ Above [] r ∨ r = [] ∧ ∃ q, t.Holds q ∧ Above [] q

/-- An operation, if it succeeds, puts an entry below a file or a file above an entry: a folder can be made
below any file, but a file can be written so only if one of the two is at the empty place. -/
def Misplaces (t : FileTree) : Op → Prop
  | write p _ => TopsUp t p.route
  | makeFolders p => ∃ f ∈ t.files, Above f p.route
  | remove _ => False
  | copy _ destination => TopsUp t destination.route

end Op

theorem Built.step {op : Op} (h : t.Built) (hop : op.step t = .ok t') : t'.Built := by
  cases op with
  | write p data => exact h.write hop
  | makeFolders p => exact h.makeFolders hop
  | remove p => exact h.remove hop
  | copy p q => exact h.copy hop

theorem Proper.write_iff (h : t.Proper) (hbuilt : t.Built) {p : Path} {data : String}
    (hw : t.write p data = .ok t') : t'.Proper ↔ ¬ Op.TopsUp t p.route := by
  obtain ⟨hfolder, hfree, rfl⟩ := write_eq_ok.1 hw
  have hfile : ∀ r, r ∈ t.files.insert p.route data ↔ r = p.route ∨ r ∈ t.files := fun r => by
    rw [Std.ExtTreeMap.mem_insert, Std.compare_eq_iff_eq, eq_comm]
  have hplace := p.route_isPlace
  constructor
  · rintro h' (⟨hnil, habove⟩ | ⟨hnil, q, hq, habove⟩)
    · exact h'.leaf [] ((hfile _).2 (Or.inr hnil)) p.route (Or.inl ((hfile _).2 (Or.inl rfl))) habove
    · refine h'.leaf [] ((hfile _).2 (Or.inl hnil.symm)) q ?_ habove
      exact hq.imp (fun hq => (hfile q).2 (Or.inr hq)) id
  · intro hnot
    refine ⟨fun r hr => ?_, fun f hf r hr habove => ?_⟩
    · rcases (hfile r).1 hr with rfl | hr
      · exact hfree
      · exact h.unhidden r hr
    · have hr : r = p.route ∨ t.Holds r := by
        rcases hr with hr | hr
        · exact ((hfile r).1 hr).imp id Or.inl
        · exact Or.inr (Or.inr hr)
      rcases (hfile f).1 hf with rfl | hf
      · rcases hr with rfl | hr
        · exact Route.not_above_self hplace habove
        · have hnil := hbuilt.eq_nil_of_above hr hfree habove
          exact hnot (Or.inr ⟨hnil, r, hr, hnil ▸ habove⟩)
      · rcases hr with rfl | hr
        · rcases hbuilt.mem_folders_of_above_housed hplace hfolder habove with rfl | hin
          · exact hnot (Or.inl ⟨hf, habove⟩)
          · exact h.unhidden f hf hin
        · exact h.leaf f hf r hr habove

theorem Proper.makeFolders_iff (h : t.Proper) (hbuilt : t.Built) {p : Path}
    (hm : t.makeFolders p = .ok t') : t'.Proper ↔ ¬ ∃ f ∈ t.files, Above f p.route := by
  have hmem := mem_makeFolders hbuilt.closed hm
  obtain ⟨hfree, he⟩ := makeFolders_eq_ok.1 hm
  have hfiles : t'.files = t.files := by rw [he]
  have hplace := p.route_isPlace
  constructor
  · rintro h' ⟨f, hf, habove⟩
    exact h'.leaf f (hfiles ▸ hf) p.route (Or.inr ((hmem _).2 (Or.inr (Or.inl rfl)))) habove
  · intro hnot
    have hbelow : ∀ f ∈ t.files, ¬ Above f p.route := fun f hf habove => hnot ⟨f, hf, habove⟩
    refine ⟨fun r hr hin => ?_, fun f hf r hr habove => ?_⟩
    · rw [hfiles] at hr
      rcases (hmem r).1 hin with hin | rfl | hin
      · exact h.unhidden r hr hin
      · exact hfree hr
      · exact hbelow r hr (Route.above_of_mem_ancestors hplace hin)
    · rw [hfiles] at hf
      rcases hr with hr | hr
      · exact h.leaf f hf r (Or.inl (hfiles ▸ hr)) habove
      · rcases (hmem r).1 hr with hr | rfl | hr
        · exact h.leaf f hf r (Or.inr hr) habove
        · exact hbelow f hf habove
        · exact hbelow f hf (habove.trans (Route.above_of_mem_ancestors hplace hr))

theorem Proper.remove (h : t.Proper) {p : Path} (hr : t.remove p = .ok t') : t'.Proper := by
  obtain ⟨-, rfl⟩ := remove_eq_ok.1 hr
  have hsub : ∀ r, r ∈ t.files.erase p.route → r ∈ t.files := fun r hr =>
    Std.ExtTreeMap.mem_of_mem_erase hr
  exact ⟨fun r hr => h.unhidden r (hsub r hr), fun f hf r hr =>
    h.leaf f (hsub f hf) r (hr.imp (hsub r) id)⟩

/-- **One operation** that succeeds on a proper tree leaves a proper tree exactly if it misplaces nothing. -/
theorem Proper.step_iff (h : t.Proper) (hbuilt : t.Built) {op : Op} (hop : op.step t = .ok t') :
    t'.Proper ↔ ¬ op.Misplaces t := by
  cases op with
  | write p data => exact h.write_iff hbuilt hop
  | makeFolders p => exact h.makeFolders_iff hbuilt hop
  | remove p => exact iff_of_true (h.remove hop) id
  | copy p q =>
    obtain ⟨data, -, hw⟩ := copy_eq_ok.1 hop
    exact h.write_iff hbuilt hw

end FileTree

end BulkEdit
