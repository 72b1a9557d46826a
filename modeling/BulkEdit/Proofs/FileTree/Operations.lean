import BulkEdit.FileTree.Basic
import BulkEdit.Proofs.Path.Place

/-!
# What the operations on a tree do

For each operation that may fail, when it succeeds and what it leaves (`write_eq_ok`,
`makeFolders_eq_ok`, `remove_eq_ok`). The entries of every tree that the operations build (`Built`)
stand at places (`Placed`) and in folders (`Closed`, `Housed`); the folders of a tree that is made of files
are those above the files (`Exact`).
-/

namespace BulkEdit

namespace FileTree

variable {t t' : FileTree} {p q : Path} {data : String}

/-! ### Adding folders -/

/-- The folders above a folder are folders. -/
def Closed (t : FileTree) : Prop :=
  ∀ folder ∈ t.folders, ∀ a ∈ folder.ancestors, a ∈ t.folders

theorem subset_addMissing (folders : Std.ExtTreeSet Route) (routes : List Route) :
    ∀ r ∈ folders, r ∈ addMissing folders routes := by
  induction routes generalizing folders with
  | nil => exact fun r hr => hr
  | cons a rest ih =>
    intro r hr
    unfold addMissing
    split
    · exact hr
    · exact ih _ r (Std.ExtTreeSet.mem_insert.2 (Or.inr hr))

theorem mem_addMissing_imp {folders : Std.ExtTreeSet Route} {routes : List Route} {r : Route}
    (h : r ∈ addMissing folders routes) : r ∈ folders ∨ r ∈ routes := by
  induction routes generalizing folders with
  | nil => exact Or.inl h
  | cons a rest ih =>
    unfold addMissing at h
    split at h
    · exact Or.inl h
    · rcases ih h with h | h
      · rcases Std.ExtTreeSet.mem_insert.1 h with he | h
        · exact Or.inr (by simp [Std.LawfulEqOrd.eq_of_compare he])
        · exact Or.inl h
      · exact Or.inr (List.mem_cons_of_mem _ h)

/-- Stopping at the first folder that is there loses nothing, as the folders above it are there
too. -/
theorem mem_addMissing {folders : Std.ExtTreeSet Route} {routes : List Route}
    (hroutes : routes.Pairwise fun a b => b ∈ a.ancestors)
    (hclosed : ∀ a ∈ folders, a ∈ routes → ∀ b ∈ a.ancestors, b ∈ folders) :
    ∀ r ∈ routes, r ∈ addMissing folders routes := by
  induction routes generalizing folders with
  | nil => simp
  | cons a rest ih =>
    obtain ⟨hlater, hrest⟩ := List.pairwise_cons.1 hroutes
    intro r hr
    unfold addMissing
    split
    · rename_i ha
      rcases List.mem_cons.1 hr with rfl | hr
      · exact ha
      · exact hclosed a ha (List.mem_cons_self ..) r (hlater r hr)
    · have hinsert : ∀ b ∈ folders.insert a, b ∈ rest → ∀ c ∈ b.ancestors, c ∈ folders.insert a := by
        intro b hb hbrest c hc
        rcases Std.ExtTreeSet.mem_insert.1 hb with he | hb
        · obtain rfl := Std.LawfulEqOrd.eq_of_compare he
          exact absurd (hlater a hbrest) (Route.not_mem_ancestors_self a)
        · exact Std.ExtTreeSet.mem_insert.2
            (Or.inr (hclosed b hb (List.mem_cons_of_mem _ hbrest) c hc))
      rcases List.mem_cons.1 hr with rfl | hr
      · exact subset_addMissing _ _ _ Std.ExtTreeSet.mem_insert_self
      · exact ih hrest hinsert r hr

theorem mem_addAncestors (hclosed : t.Closed) (r a : Route) :
    a ∈ (t.addAncestors r).folders ↔ a ∈ t.folders ∨ a ∈ r.ancestors := by
  constructor
  · exact mem_addMissing_imp
  · rintro (ha | ha)
    · exact subset_addMissing _ _ _ ha
    · exact mem_addMissing (Route.pairwise_ancestors r) (fun b hb _ => hclosed b hb) a ha

theorem addAncestors_files (t : FileTree) (r : Route) : (t.addAncestors r).files = t.files := rfl

/-! ### When an operation succeeds, and what it leaves -/

/-- Something stands at a place. -/
def Holds (t : FileTree) (r : Route) : Prop :=
  r ∈ t.files ∨ r ∈ t.folders

theorem kindAt?_isSome {r : Route} : (t.kindAt? r).isSome ↔ t.Holds r := by
  unfold kindAt? Holds
  by_cases hf : r ∈ t.files <;> by_cases hd : r ∈ t.folders <;> simp [hf, hd]

theorem contains_iff_holds (p : Path) : t.contains p = true ↔ t.Holds p.route :=
  kindAt?_isSome

theorem write_eq_ok : t.write p data = .ok t' ↔
    (∀ folder, p.route.folder? = some folder → folder ∈ t.folders) ∧ p.route ∉ t.folders ∧
      t' = { t with files := t.files.insert p.route data } := by
  unfold write
  cases hf : p.route.folder? with
  | none =>
    by_cases hp : p.route ∈ t.folders <;> simp [hp, eq_comm]
  | some folder =>
    by_cases hfolder : folder ∈ t.folders <;> by_cases hp : p.route ∈ t.folders <;>
      simp [hfolder, hp, eq_comm]

theorem makeFolders_eq_ok : t.makeFolders p = .ok t' ↔ p.route ∉ t.files ∧
    t' = { t with folders := (t.addAncestors p.route).folders.insert p.route } := by
  unfold makeFolders
  by_cases hp : p.route ∈ t.files <;> simp [hp, eq_comm, addAncestors]

theorem remove_eq_ok : t.remove p = .ok t' ↔
    p.route ∈ t.files ∧ t' = { t with files := t.files.erase p.route } := by
  unfold remove
  by_cases hp : p.route ∈ t.files <;> simp [hp, eq_comm]

theorem read_eq_ok : t.read p = .ok data ↔ t.files[p.route]? = some data := by
  unfold read
  split <;> simp_all

theorem mem_files_of_getElem? {r : Route} (h : t.files[r]? = some data) : r ∈ t.files :=
  Std.ExtTreeMap.mem_iff_isSome_getElem?.2 (by simp [h])

theorem mem_files_of_read (h : t.read p = .ok data) : p.route ∈ t.files :=
  mem_files_of_getElem? (read_eq_ok.1 h)

theorem copy_eq_ok : t.copy p q = .ok t' ↔
    ∃ data, t.files[p.route]? = some data ∧ t.write q data = .ok t' := by
  unfold copy
  cases hr : t.read p with
  | error e =>
    have hnone : ∀ data, t.files[p.route]? ≠ some data := fun data hd => by
      rw [← read_eq_ok, hr] at hd
      cases hd
    simp [bind, Except.bind, hnone]
  | ok data =>
    have hsome := read_eq_ok.1 hr
    simp [bind, Except.bind, hsome]

theorem mem_makeFolders (hclosed : t.Closed) (h : t.makeFolders p = .ok t') (a : Route) :
    a ∈ t'.folders ↔ a ∈ t.folders ∨ a = p.route ∨ a ∈ p.route.ancestors := by
  obtain ⟨-, rfl⟩ := makeFolders_eq_ok.1 h
  rw [Std.ExtTreeSet.mem_insert, mem_addAncestors hclosed, Std.compare_eq_iff_eq, eq_comm]
  tauto

theorem Closed.makeFolders (hclosed : t.Closed) (h : t.makeFolders p = .ok t') : t'.Closed := by
  intro folder hfolder a ha
  rw [mem_makeFolders hclosed h] at hfolder ⊢
  rcases hfolder with hfolder | rfl | hfolder
  · exact Or.inl (hclosed folder hfolder a ha)
  · exact Or.inr (Or.inr ha)
  · exact Or.inr (Or.inr (Route.mem_ancestors_trans ha hfolder))

theorem Closed.addAncestors (hclosed : t.Closed) (r : Route) : (t.addAncestors r).Closed := by
  intro folder hfolder a ha
  rw [mem_addAncestors hclosed] at hfolder ⊢
  rcases hfolder with hfolder | hfolder
  · exact Or.inl (hclosed folder hfolder a ha)
  · exact Or.inr (Route.mem_ancestors_trans ha hfolder)

theorem Closed.write (hclosed : t.Closed) (h : t.write p data = .ok t') : t'.Closed := by
  obtain ⟨-, -, rfl⟩ := write_eq_ok.1 h
  exact hclosed

/-! ### Trees that the operations build -/

/-- Every entry stands at a place. -/
structure Placed (t : FileTree) : Prop where
  files : ∀ r ∈ t.files, r.IsPlace
  folders : ∀ r ∈ t.folders, r.IsPlace

/-- The trees that the operations build, each of them on what the earlier ones left. -/
inductive Built : FileTree → Prop
  | empty : Built .empty
  | seed {t : FileTree} (p : Path) (data : String) : Built t → Built (t.seed p data)
  | write {t t' : FileTree} {p : Path} {data : String} :
      Built t → t.write p data = .ok t' → Built t'
  | makeFolders {t t' : FileTree} {p : Path} : Built t → t.makeFolders p = .ok t' → Built t'
  | remove {t t' : FileTree} {p : Path} : Built t → t.remove p = .ok t' → Built t'
  | copy {t t' : FileTree} {p q : Path} : Built t → t.copy p q = .ok t' → Built t'

theorem Placed.addAncestors (h : t.Placed) (p : Path) : (t.addAncestors p.route).Placed := by
  refine ⟨h.files, fun r hr => ?_⟩
  rcases mem_addMissing_imp hr with hr | hr
  · exact h.folders r hr
  · exact p.route_isPlace.of_mem_ancestors hr

theorem Placed.insert_file (h : t.Placed) (p : Path) (data : String) :
    Placed { t with files := t.files.insert p.route data } := by
  refine ⟨fun r hr => ?_, h.folders⟩
  rcases Std.ExtTreeMap.mem_insert.1 hr with he | hr
  · exact Std.LawfulEqOrd.eq_of_compare he ▸ p.route_isPlace
  · exact h.files r hr

theorem Placed.write (h : t.Placed) (hw : t.write p data = .ok t') : t'.Placed := by
  obtain ⟨-, -, rfl⟩ := write_eq_ok.1 hw
  exact h.insert_file p data

theorem Placed.makeFolders (h : t.Placed) (hm : t.makeFolders p = .ok t') : t'.Placed := by
  obtain ⟨-, rfl⟩ := makeFolders_eq_ok.1 hm
  refine ⟨h.files, fun r hr => ?_⟩
  rcases Std.ExtTreeSet.mem_insert.1 hr with he | hr
  · exact Std.LawfulEqOrd.eq_of_compare he ▸ p.route_isPlace
  · exact (h.addAncestors p).folders r hr

theorem Placed.remove (h : t.Placed) (hr : t.remove p = .ok t') : t'.Placed := by
  obtain ⟨-, rfl⟩ := remove_eq_ok.1 hr
  exact ⟨fun r hr => h.files r (Std.ExtTreeMap.mem_of_mem_erase hr), h.folders⟩

theorem Built.placed (h : t.Built) : t.Placed := by
  induction h with
  | empty => exact ⟨by simp [FileTree.empty], by simp [FileTree.empty]⟩
  | seed p data _ ih => exact (ih.addAncestors p).insert_file p data
  | write _ hw ih => exact ih.write hw
  | makeFolders _ hm ih => exact ih.makeFolders hm
  | remove _ hr ih => exact ih.remove hr
  | copy _ hc ih =>
    obtain ⟨data, -, hw⟩ := copy_eq_ok.1 hc
    exact ih.write hw

theorem Built.closed (h : t.Built) : t.Closed := by
  induction h with
  | empty => exact fun folder hfolder => by simp [FileTree.empty] at hfolder
  | seed p data _ ih => exact ih.addAncestors p.route
  | write _ hw ih => exact ih.write hw
  | makeFolders _ hm ih => exact ih.makeFolders hm
  | remove _ hr ih =>
    obtain ⟨-, rfl⟩ := remove_eq_ok.1 hr
    exact ih
  | copy _ hc ih =>
    obtain ⟨data, -, hw⟩ := copy_eq_ok.1 hc
    exact ih.write hw

/-- Every file stands in a folder that is there, or at the top. -/
def Housed (t : FileTree) : Prop :=
  ∀ r ∈ t.files, ∀ folder, r.folder? = some folder → folder ∈ t.folders

theorem Housed.write (h : t.Housed) (hw : t.write p data = .ok t') : t'.Housed := by
  obtain ⟨hfolder, -, rfl⟩ := write_eq_ok.1 hw
  intro r hr
  rcases Std.ExtTreeMap.mem_insert.1 hr with he | hr
  · obtain rfl := Std.LawfulEqOrd.eq_of_compare he
    exact hfolder
  · exact h r hr

theorem Built.housed (h : t.Built) : t.Housed := by
  induction h with
  | empty => exact fun r hr => by simp [FileTree.empty] at hr
  | seed p data hb ih =>
    intro r hr folder hfolder
    refine (mem_addAncestors hb.closed p.route folder).2 ?_
    rcases Std.ExtTreeMap.mem_insert.1 hr with he | hr
    · obtain rfl := Std.LawfulEqOrd.eq_of_compare he
      exact Or.inr (Route.mem_ancestors_of_folder? hfolder)
    · exact Or.inl (ih r hr folder hfolder)
  | write _ hw ih => exact ih.write hw
  | makeFolders hb hm ih =>
    intro r hr folder hfolder
    refine (mem_makeFolders hb.closed hm folder).2 (Or.inl ?_)
    obtain ⟨-, rfl⟩ := makeFolders_eq_ok.1 hm
    exact ih r hr folder hfolder
  | remove _ hr ih =>
    obtain ⟨-, rfl⟩ := remove_eq_ok.1 hr
    exact fun r hr => ih r (Std.ExtTreeMap.mem_of_mem_erase hr)
  | copy _ hc ih =>
    obtain ⟨data, -, hw⟩ := copy_eq_ok.1 hc
    exact ih.write hw

theorem ofFiles_induction {P : FileTree → Prop} (hempty : P .empty)
    (hseed : ∀ t p data, P t → P (t.seed p data)) (files : List (Path × String)) :
    P (ofFiles files) := by
  unfold FileTree.ofFiles
  generalize FileTree.empty = t at hempty ⊢
  induction files generalizing t with
  | nil => exact hempty
  | cons file rest ih => exact ih _ (hseed t file.1 file.2 hempty)

theorem Built.ofFiles (files : List (Path × String)) : (ofFiles files).Built :=
  ofFiles_induction .empty (fun _ p data ht => ht.seed p data) files

/-! ### Trees made of files -/

/-- The folders are those above the files. -/
def Exact (t : FileTree) : Prop :=
  ∀ a, a ∈ t.folders ↔ ∃ r ∈ t.files, a ∈ r.ancestors

theorem Exact.closed (h : t.Exact) : t.Closed := by
  intro folder hfolder a ha
  obtain ⟨r, hr, hfolder⟩ := (h folder).1 hfolder
  exact (h a).2 ⟨r, hr, Route.mem_ancestors_trans ha hfolder⟩

theorem exact_empty : FileTree.empty.Exact := by
  intro a
  simp [FileTree.empty]

theorem Exact.seed (h : t.Exact) (p : Path) (data : String) : (t.seed p data).Exact := by
  intro a
  have hfolders : a ∈ (t.seed p data).folders ↔ a ∈ t.folders ∨ a ∈ p.route.ancestors :=
    mem_addAncestors h.closed p.route a
  have hfiles : ∀ r, r ∈ (t.seed p data).files ↔ p.route = r ∨ r ∈ t.files := by
    intro r
    unfold FileTree.seed
    rw [Std.ExtTreeMap.mem_insert, Std.compare_eq_iff_eq, addAncestors_files]
  rw [hfolders, h a]
  constructor
  · rintro (⟨r, hr, ha⟩ | ha)
    · exact ⟨r, (hfiles r).2 (Or.inr hr), ha⟩
    · exact ⟨p.route, (hfiles _).2 (Or.inl rfl), ha⟩
  · rintro ⟨r, hr, ha⟩
    rcases (hfiles r).1 hr with rfl | hr
    · exact Or.inr ha
    · exact Or.inl ⟨r, hr, ha⟩

theorem exact_ofFiles (files : List (Path × String)) : (ofFiles files).Exact :=
  ofFiles_induction exact_empty (fun _ p data ht => ht.seed p data) files

/-- A tree made of files holds the places above them, the empty place apart. -/
theorem Exact.holds_of_isBelow (h : t.Exact) {r a : Route} (hr : r ∈ t.files)
    (hbelow : r.isBelow a = true) (ha : a ≠ []) : t.Holds a := by
  have hinitial : a <+: r := List.isPrefixOf_iff_prefix.1 hbelow
  by_cases hsame : a = r
  · exact Or.inl (hsame ▸ hr)
  · exact Or.inr ((h a).2 ⟨r, hr, Route.mem_ancestors.2 ⟨ha, hinitial, hsame⟩⟩)

theorem Exact.ext {t t' : FileTree} (h : t.Exact) (h' : t'.Exact)
    (hfiles : ∀ r : Route, t.files[r]? = t'.files[r]?) : t = t' := by
  have heq : t.files = t'.files := Std.ExtTreeMap.ext_getElem? hfiles
  have hfolders : t.folders = t'.folders := by
    refine Std.ExtTreeSet.ext_mem fun a => ?_
    rw [h a, h' a, heq]
  cases t
  cases t'
  simp_all

end FileTree

end BulkEdit
