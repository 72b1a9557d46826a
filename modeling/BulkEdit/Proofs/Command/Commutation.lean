import BulkEdit.Proofs.Command.Effect
import Mathlib.Data.List.Perm.Basic

/-!
# Commands that commute

A command that creates or updates a file makes the folders above it and then writes, which fails where a
file is in the way of a folder or a folder in the way of the file (`applyWet_eq_ok`). Of two such commands
whose places stand apart, neither is in the way of the other, unless each is: so they can be carried out in
either order (`applyWet_comm`), and so can any number of batches of them (`carryOut_perm`).
-/

namespace BulkEdit

/-- Two places stand apart: they differ, and neither is above the other. -/
def Route.Apart (a b : Route) : Prop :=
  a ≠ b ∧ a ∉ b.ancestors ∧ b ∉ a.ancestors

instance (a b : Route) : Decidable (Route.Apart a b) := by
  unfold Route.Apart
  infer_instance

theorem Route.Apart.symm {a b : Route} (h : Route.Apart a b) : Route.Apart b a :=
  ⟨h.1.symm, h.2.2, h.2.1⟩

namespace FileTree

variable {t t' : FileTree} {made made' : List Route} {r r' : Route} {data data' : String}

/-! ### Trees with more folders and one more file -/

/-- The tree with some more folders and a file. -/
def grow (t : FileTree) (made : List Route) (r : Route) (data : String) : FileTree where
  files := t.files.insert r data
  folders := t.folders.insertMany made

theorem mem_folders_grow {a : Route} :
    a ∈ (t.grow made r data).folders ↔ a ∈ t.folders ∨ a ∈ made := by
  unfold grow
  rw [Std.ExtTreeSet.mem_insertMany_list, List.contains_iff_mem]

theorem mem_files_grow {a : Route} :
    a ∈ (t.grow made r data).files ↔ r = a ∨ a ∈ t.files := by
  unfold grow
  rw [Std.ExtTreeMap.mem_insert, Std.compare_eq_iff_eq]

theorem grow_comm (h : r ≠ r') :
    (t.grow made r data).grow made' r' data' = (t.grow made' r' data').grow made r data := by
  have hfiles : (t.files.insert r data).insert r' data' = (t.files.insert r' data').insert r data := by
    refine Std.ExtTreeMap.ext_getElem? fun q => ?_
    simp only [Std.ExtTreeMap.getElem?_insert, Std.compare_eq_iff_eq]
    by_cases hq : r = q
    · simp [hq, (hq ▸ h).symm]
    · simp [hq]
  have hfolders : (t.folders.insertMany made).insertMany made' =
      (t.folders.insertMany made').insertMany made := by
    refine Std.ExtTreeSet.ext_mem fun a => ?_
    simp only [Std.ExtTreeSet.mem_insertMany_list]
    tauto
  unfold grow
  rw [hfiles, hfolders]

theorem Closed.grow (hclosed : t.Closed) (hmade : ∀ a ∈ made, ∀ b ∈ a.ancestors, b ∈ made) :
    (t.grow made r data).Closed := by
  intro folder hfolder a ha
  rw [mem_folders_grow] at hfolder ⊢
  exact hfolder.imp (fun h => hclosed folder h a ha) fun h => hmade folder h a ha

theorem makeFolders_eq_ok_of_closed (hclosed : t.Closed) {p : Path} : t.makeFolders p = .ok t' ↔
    p.route ∉ t.files ∧
      t' = { t with folders := t.folders.insertMany (p.route :: p.route.ancestors) } := by
  rw [makeFolders_eq_ok]
  have hfolders : (t.addAncestors p.route).folders.insert p.route =
      t.folders.insertMany (p.route :: p.route.ancestors) := by
    refine Std.ExtTreeSet.ext_mem fun a => ?_
    rw [Std.ExtTreeSet.mem_insert, mem_addAncestors hclosed, Std.compare_eq_iff_eq,
      Std.ExtTreeSet.mem_insertMany_list, List.contains_iff_mem, List.mem_cons, eq_comm]
    tauto
  rw [hfolders]

end FileTree

namespace FileCommand

open FileTree

variable {t t₁ t' : FileTree} {c d : FileCommand}

/-! ### Single commands -/

/-- A command that writes one file, into a folder that it makes or that is there. -/
def Writes (t : FileTree) : FileCommand → Prop
  | create _ _ _ => True
  | update p _ _ _ => ∀ folder, p.route.folder? = some folder → folder ∈ t.folders
  | _ => False

/-- The folder that a command makes. -/
def base? : FileCommand → Option Route
  | create p _ _ => p.folder?.map Path.route
  | _ => none

/-- All folders that come with the folder that a command makes. -/
def makes (c : FileCommand) : List Route :=
  match c.base? with
  | some folder => folder :: folder.ancestors
  | none => []

def content (c : FileCommand) : String :=
  (c.preview?.map Prod.snd).getD ""

abbrev place (c : FileCommand) : Route :=
  c.primaryPath.route

theorem makes_closed (c : FileCommand) : ∀ a ∈ c.makes, ∀ b ∈ a.ancestors, b ∈ c.makes := by
  unfold makes
  split
  · rename_i folder _
    intro a ha b hb
    rcases List.mem_cons.1 ha with rfl | ha
    · exact List.mem_cons_of_mem _ hb
    · exact List.mem_cons_of_mem _ (Route.mem_ancestors_trans hb ha)
  · simp

/-- **When a file can be written, and what is left.** No file may be in the way of the folder, and no
folder in the way of the file, be it there or made by the command itself. -/
theorem applyWet_eq_ok (hclosed : t.Closed) (hc : c.Writes t) : c.applyWet t = (.ok (), t') ↔
    (∀ folder, c.base? = some folder → folder ∉ t.files) ∧ c.place ∉ t.folders ∧ c.place ∉ c.makes ∧
      t' = t.grow c.makes c.place c.content := by
  cases c with
  | create p data format =>
    rw [applyWet_create]
    simp only [ensureFolder_eq_ok, makes, base?, content, preview?, place, primaryPath]
    cases hp : p.folder? with
    | none =>
      obtain ⟨hnone, -⟩ := Path.route_of_folder?_none hp
      simp [write_eq_ok, hnone, grow]
    | some folder =>
      simp only [makeFolders_eq_ok_of_closed hclosed, write_eq_ok]
      constructor
      · rintro ⟨_, ⟨hfree, rfl⟩, -, hplace, rfl⟩
        rw [Std.ExtTreeSet.mem_insertMany_list, List.contains_iff_mem, not_or] at hplace
        refine ⟨?_, hplace.1, hplace.2, rfl⟩
        rintro _ ⟨⟩
        exact hfree
      · rintro ⟨hfree, hplace, hself, rfl⟩
        refine ⟨_, ⟨hfree _ rfl, rfl⟩, fun f hf => ?_, ?_, rfl⟩
        · rw [Std.ExtTreeSet.mem_insertMany_list, List.contains_iff_mem]
          rcases Path.folder?_route hp hf with rfl | hup
          · exact Or.inr (List.mem_cons_self ..)
          · exact absurd (List.mem_cons_of_mem _ hup) hself
        · rw [Std.ExtTreeSet.mem_insertMany_list, List.contains_iff_mem]
          exact fun h => h.elim hplace hself
  | update p old data format =>
    rw [applyWet_update, write_eq_ok]
    simp only [makes, base?, content, preview?, place, primaryPath]
    constructor
    · rintro ⟨-, hplace, rfl⟩
      exact ⟨nofun, hplace, by simp, by simp [grow]⟩
    · rintro ⟨-, hplace, -, rfl⟩
      exact ⟨hc, hplace, by simp [grow]⟩
  | delete p => exact absurd hc id
  | move p q => exact absurd hc id
  | copy p q => exact absurd hc id

/-- A command that writes somewhere else makes no folder at a place, but for its own folder. -/
theorem mem_makes_of_apart {r : Route} (h : Route.Apart c.place r) :
    r ∈ c.makes ↔ c.base? = some r := by
  unfold makes
  cases hbase : c.base? with
  | none => simp
  | some folder =>
    rw [List.mem_cons, Option.some.injEq]
    refine ⟨fun hr => hr.elim Eq.symm fun hr => ?_, fun he => Or.inl he.symm⟩
    cases c with
    | create p data format =>
      obtain ⟨f, hf, rfl⟩ := Option.map_eq_some_iff.1 hbase
      rcases Path.eq_or_mem_ancestors hf hr with rfl | hin
      · exact absurd rfl h.1
      · exact absurd hin h.2.2
    | _ => cases hbase

/-! ### Commands in either order -/

theorem Writes.grow {made : List Route} {r : Route} {data : String} (hc : c.Writes t) :
    c.Writes (t.grow made r data) := by
  cases c with
  | create p data format => exact trivial
  | update p old data format =>
    exact fun folder hfolder => mem_folders_grow.2 (Or.inl (hc folder hfolder))
  | delete p => exact absurd hc id
  | move p q => exact absurd hc id
  | copy p q => exact absurd hc id

/-- The second of two commands that stand apart can be carried out first. -/
theorem applyWet_swap (hclosed : t.Closed) (hc : c.Writes t) (hd : d.Writes t)
    (hapart : Route.Apart c.place d.place) (h : c.applyWet t = (.ok (), t₁))
    (h' : d.applyWet t₁ = (.ok (), t')) :
    ∃ t₂, d.applyWet t = (.ok (), t₂) ∧ c.applyWet t₂ = (.ok (), t') := by
  obtain ⟨hbase, hplace, hself, rfl⟩ := (applyWet_eq_ok hclosed hc).1 h
  obtain ⟨hbase', hplace', hself', rfl⟩ :=
    (applyWet_eq_ok (hclosed.grow c.makes_closed) hd.grow).1 h'
  rw [mem_folders_grow, not_or, mem_makes_of_apart hapart] at hplace'
  simp only [mem_files_grow, not_or] at hbase'
  refine ⟨_, (applyWet_eq_ok hclosed hd).2 ⟨fun f hf => (hbase' f hf).2, hplace'.1, hself', rfl⟩,
    (applyWet_eq_ok (hclosed.grow d.makes_closed) hc.grow).2 ⟨fun f hf => ?_, ?_, hself, ?_⟩⟩
  · rw [mem_files_grow, not_or]
    refine ⟨?_, hbase f hf⟩
    rintro rfl
    exact hplace'.2 hf
  · rw [mem_folders_grow, not_or, mem_makes_of_apart hapart.symm]
    exact ⟨hplace, fun hf => (hbase' _ hf).1 rfl⟩
  · exact grow_comm hapart.1

/-- **Two commands that stand apart** can be carried out in either order. -/
theorem applyWet_comm (hclosed : t.Closed) (hc : c.Writes t) (hd : d.Writes t)
    (hapart : Route.Apart c.place d.place) :
    (∃ t₁, c.applyWet t = (.ok (), t₁) ∧ d.applyWet t₁ = (.ok (), t')) ↔
      ∃ t₁, d.applyWet t = (.ok (), t₁) ∧ c.applyWet t₁ = (.ok (), t') := by
  constructor
  · rintro ⟨t₁, h, h'⟩
    exact applyWet_swap hclosed hc hd hapart h h'
  · rintro ⟨t₁, h, h'⟩
    exact applyWet_swap hclosed hd hc hapart.symm h h'

/-- A tree on which commands write. -/
structure Ready (t : FileTree) (commands : List FileCommand) : Prop where
  closed : t.Closed
  writes : ∀ c ∈ commands, c.Writes t

variable {first second commands : List FileCommand}

theorem Ready.mono (h : Ready t commands) (hsub : ∀ c ∈ first, c ∈ commands) : Ready t first :=
  ⟨h.closed, fun c hc => h.writes c (hsub c hc)⟩

theorem Ready.applyWet (h : Ready t commands) (hc : c ∈ commands) (h' : c.applyWet t = (.ok (), t')) :
    Ready t' commands := by
  obtain ⟨-, -, -, rfl⟩ := (applyWet_eq_ok h.closed (h.writes c hc)).1 h'
  exact ⟨h.closed.grow c.makes_closed, fun d hd => (h.writes d hd).grow⟩

/-- So do any number of them. -/
theorem Ready.carryOut (h : Ready t commands) (hsub : ∀ c ∈ first, c ∈ commands)
    (h' : FileCommand.carryOut t first = .ok t') : Ready t' commands := by
  induction first generalizing t with
  | nil => exact Except.ok.inj h' ▸ h
  | cons c rest ih =>
    obtain ⟨t₁, hc, hrest⟩ := carryOut_cons_eq_ok.1 h'
    exact ih (h.applyWet (hsub c (List.mem_cons_self ..)) hc)
      (fun d hd => hsub d (List.mem_cons_of_mem _ hd)) hrest

theorem carryOut_cons_comm (hready : Ready t (c :: commands))
    (hapart : ∀ d ∈ commands, Route.Apart c.place d.place) :
    carryOut t (c :: commands) = .ok t' ↔ carryOut t (commands ++ [c]) = .ok t' := by
  induction commands generalizing t with
  | nil => rfl
  | cons d rest ih =>
    have hcd : (∃ t₁, c.applyWet t = (.ok (), t₁) ∧ carryOut t₁ (d :: rest) = .ok t') ↔
        ∃ t₁, d.applyWet t = (.ok (), t₁) ∧ carryOut t₁ (c :: rest) = .ok t' := by
      have hswap : ∀ t₂, (∃ t₁, c.applyWet t = (.ok (), t₁) ∧ d.applyWet t₁ = (.ok (), t₂)) ↔
          ∃ t₁, d.applyWet t = (.ok (), t₁) ∧ c.applyWet t₁ = (.ok (), t₂) := fun t₂ =>
        applyWet_comm hready.closed (hready.writes c (by simp)) (hready.writes d (by simp))
          (hapart d (by simp))
      simp only [carryOut_cons_eq_ok]
      constructor
      · rintro ⟨t₁, hc, t₂, hd, hrest⟩
        obtain ⟨t₃, hd, hc⟩ := (hswap t₂).1 ⟨t₁, hc, hd⟩
        exact ⟨t₃, hd, t₂, hc, hrest⟩
      · rintro ⟨t₁, hd, t₂, hc, hrest⟩
        obtain ⟨t₃, hc, hd⟩ := (hswap t₂).2 ⟨t₁, hd, hc⟩
        exact ⟨t₃, hc, t₂, hd, hrest⟩
    rw [carryOut_cons_eq_ok, hcd, List.cons_append, carryOut_cons_eq_ok]
    refine exists_congr fun t₁ => and_congr_right fun hd => ?_
    refine ih ((hready.applyWet (by simp) hd).mono ?_) fun e he => hapart e (List.mem_cons_of_mem _ he)
    grind

/-- **Two batches that stand apart** can be carried out in either order. -/
theorem carryOut_append_comm (hready : Ready t (first ++ second))
    (hapart : ∀ c ∈ first, ∀ d ∈ second, Route.Apart c.place d.place) :
    carryOut t (first ++ second) = .ok t' ↔ carryOut t (second ++ first) = .ok t' := by
  induction first generalizing t with
  | nil => rw [List.nil_append, List.append_nil]
  | cons c rest ih =>
    have hpast : ∀ t', carryOut t (c :: second) = .ok t' ↔ carryOut t (second ++ [c]) = .ok t' := fun t' =>
      carryOut_cons_comm (hready.mono (by grind)) (hapart c (by simp))
    have hrest : ∀ t₁, c.applyWet t = (.ok (), t₁) →
        (carryOut t₁ (rest ++ second) = .ok t' ↔ carryOut t₁ (second ++ rest) = .ok t') := fun t₁ hc =>
      ih ((hready.applyWet (by simp) hc).mono (by grind)) fun d hd =>
        hapart d (List.mem_cons_of_mem _ hd)
    calc carryOut t (c :: rest ++ second) = .ok t'
        ↔ ∃ t₁, c.applyWet t = (.ok (), t₁) ∧ carryOut t₁ (second ++ rest) = .ok t' := by
          rw [List.cons_append, carryOut_cons_eq_ok]
          exact exists_congr fun t₁ => and_congr_right (hrest t₁)
      _ ↔ carryOut t ((c :: second) ++ rest) = .ok t' := by
          rw [List.cons_append, carryOut_cons_eq_ok]
      _ ↔ carryOut t ((second ++ [c]) ++ rest) = .ok t' := by
          simp only [carryOut_append_eq_ok, hpast]
      _ ↔ carryOut t (second ++ c :: rest) = .ok t' := by
          rw [List.append_assoc, List.singleton_append]

/-- **Batches in any order.** If the batches of different files stand apart, they come to the same tree
in any order, or fail in any order. -/
theorem carryOut_perm {α : Type} {batch : α → List FileCommand} {order order' : List α}
    (hperm : order.Perm order') (hready : Ready t (order.flatMap batch))
    (hapart : ∀ p ∈ order, ∀ q ∈ order, p ≠ q → ∀ c ∈ batch p, ∀ d ∈ batch q,
      Route.Apart c.place d.place) :
    carryOut t (order.flatMap batch) = .ok t' ↔ carryOut t (order'.flatMap batch) = .ok t' := by
  induction hperm generalizing t with
  | nil => rfl
  | @cons p order order' _ ih =>
    simp only [List.flatMap_cons, carryOut_append_eq_ok]
    refine exists_congr fun t₁ => and_congr_right fun hp => ih ?_ fun q hq q' hq' =>
      hapart q (List.mem_cons_of_mem _ hq) q' (List.mem_cons_of_mem _ hq')
    rw [List.flatMap_cons] at hready
    exact (hready.carryOut (by grind) hp).mono (by grind)
  | swap p q order =>
    by_cases hsame : p = q
    · rw [hsame]
    · have hboth : ∀ t₁, carryOut t (batch q ++ batch p) = .ok t₁ ↔
          carryOut t (batch p ++ batch q) = .ok t₁ := fun t₁ =>
        carryOut_append_comm (hready.mono (by grind))
          (hapart q (by simp) p (by simp) (Ne.symm hsame))
      simp only [List.flatMap_cons]
      rw [← List.append_assoc, ← List.append_assoc, carryOut_append_eq_ok, carryOut_append_eq_ok]
      simp only [hboth]
  | @trans order middle order' hfirst _ ih ih' =>
    have hmem : ∀ p, p ∈ middle → p ∈ order := fun p hp => hfirst.mem_iff.2 hp
    rw [ih hready hapart]
    refine ih' (hready.mono fun c hc => ?_) fun p hp q hq => hapart p (hmem p hp) q (hmem q hq)
    obtain ⟨p, hp, hc⟩ := List.mem_flatMap.1 hc
    exact List.mem_flatMap.2 ⟨p, hmem p hp, hc⟩

end FileCommand

end BulkEdit
