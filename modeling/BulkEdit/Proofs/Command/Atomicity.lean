import BulkEdit.Proofs.Command.Effect

/-!
# Commands take effect as a whole

A command is carried out in several steps, and any of them may fail. Whatever fails, the files are left as
they were, and no more than folders were made on the way (`widened_of_applyWet_error`): the steps before the
one that changes a file only make folders, and the removal at the end of a move cannot fail once the copy was
made. A command that succeeds changes no file at places other than its own (`applyWet_atomic`).
-/

namespace BulkEdit

variable {t t₁ t' : FileTree} {p q : Path} {e : TreeError} {r : Route}

/-- The folders that come with the folder of a path. -/
def Path.foldersAbove (p : Path) : List Route :=
  match p.folder? with
  | some folder => folder.route :: folder.route.ancestors
  | none => []

namespace FileTree

/-! ### Attempts that fail -/

theorem attempt_cons_eq_error {step : TreeStep} {rest : List TreeStep} :
    t.attempt (step :: rest) = (.error e, t') ↔ step t = .error e ∧ t = t' ∨
      ∃ t₁, step t = .ok t₁ ∧ t₁.attempt rest = (.error e, t') := by
  rw [attempt]
  cases step t <;> simp

theorem attempt_nil_ne_error : t.attempt [] ≠ (.error e, t') := by
  simp [attempt]

theorem attempt_singleton_eq_error {step : TreeStep} :
    t.attempt [step] = (.error e, t') ↔ step t = .error e ∧ t = t' := by
  rw [attempt_cons_eq_error]
  simp [attempt_nil_ne_error]

/-! ### More folders -/

/-- The folders of a tree are all there, and besides them no others than the given ones. -/
structure MoreFolders (made : List Route) (t t' : FileTree) : Prop where
  kept : ∀ a ∈ t.folders, a ∈ t'.folders
  made : ∀ a ∈ t'.folders, a ∈ t.folders ∨ a ∈ made

/-- One tree differs from another by more folders at most, and those are among the given ones. -/
structure Widened (made : List Route) (t t' : FileTree) : Prop extends MoreFolders made t t' where
  files_eq : t'.files = t.files

theorem MoreFolders.of_folders_eq {made : List Route} (h : t'.folders = t.folders) :
    MoreFolders made t t' :=
  ⟨fun _ ha => h ▸ ha, fun _ ha => Or.inl (h ▸ ha)⟩

theorem widened_refl (made : List Route) (t : FileTree) : Widened made t t :=
  ⟨.of_folders_eq rfl, rfl⟩

theorem ensureFolder_cases (h : t.ensureFolder p = .ok t') : p.foldersAbove = [] ∧ t' = t ∨
    ∃ folder, p.foldersAbove = folder.route :: folder.route.ancestors ∧ t.makeFolders folder = .ok t' := by
  unfold Path.foldersAbove
  unfold ensureFolder at h
  cases hp : p.folder? with
  | none =>
    simp only [hp, Except.ok.injEq] at h
    exact Or.inl ⟨rfl, h.symm⟩
  | some folder =>
    simp only [hp] at h
    exact Or.inr ⟨folder, rfl, h⟩

theorem widened_ensureFolder (h : t.ensureFolder p = .ok t') : Widened p.foldersAbove t t' := by
  refine ⟨⟨folders_of_ensureFolder h, fun a ha => ?_⟩, files_of_ensureFolder h⟩
  rcases ensureFolder_cases h with ⟨-, rfl⟩ | ⟨folder, habove, hm⟩
  · exact Or.inl ha
  · obtain ⟨-, rfl⟩ := makeFolders_eq_ok.1 hm
    rw [Std.ExtTreeSet.mem_insert, Std.compare_eq_iff_eq] at ha
    rw [habove, List.mem_cons]
    rcases ha with rfl | ha
    · exact Or.inr (Or.inl rfl)
    · exact (mem_addMissing_imp ha).imp id Or.inr

theorem folders_of_write {data : String} (h : t.write p data = .ok t') : t'.folders = t.folders := by
  obtain ⟨-, -, rfl⟩ := write_eq_ok.1 h
  rfl

theorem folders_of_remove (h : t.remove p = .ok t') : t'.folders = t.folders := by
  obtain ⟨-, rfl⟩ := remove_eq_ok.1 h
  rfl

theorem folders_of_copy (h : t.copy p q = .ok t') : t'.folders = t.folders := by
  obtain ⟨data, -, hw⟩ := copy_eq_ok.1 h
  exact folders_of_write hw

theorem remove_ne_error_of_copy (h : t.copy p q = .ok t') : t'.remove p ≠ .error e := by
  obtain ⟨data, hdata, hw⟩ := copy_eq_ok.1 h
  obtain ⟨-, -, rfl⟩ := write_eq_ok.1 hw
  have hin : p.route ∈ t.files.insert q.route data :=
    Std.ExtTreeMap.mem_insert.2 (Or.inr (mem_files_of_getElem? hdata))
  unfold remove
  rw [if_pos hin]
  nofun

/-- A copy and the removal of what was copied fail only before anything is done. -/
theorem eq_of_attempt_copy_remove_error
    (h : t.attempt [(·.copy p q), (·.remove p)] = (.error e, t')) : t = t' := by
  rcases attempt_cons_eq_error.1 h with ⟨-, rfl⟩ | ⟨t₁, hc, hlast⟩
  · rfl
  · exact absurd (attempt_singleton_eq_error.1 hlast).1 (remove_ne_error_of_copy hc)

/-- If what follows the making of a folder leaves the tree as it is when it fails, then no more than folders
are made. -/
theorem widened_of_attempt_ensureFolder {rest : List TreeStep}
    (hrest : ∀ {t₁}, t₁.attempt rest = (.error e, t') → t₁ = t')
    (h : t.attempt ((·.ensureFolder p) :: rest) = (.error e, t')) : Widened p.foldersAbove t t' := by
  rcases attempt_cons_eq_error.1 h with ⟨-, rfl⟩ | ⟨t₁, hf, hfailed⟩
  · exact widened_refl _ _
  · obtain rfl := hrest hfailed
    exact widened_ensureFolder hf

end FileTree

namespace FileCommand

open FileTree

/-! ### Places of a command -/

/-- The places of the files that a command may change. -/
def touched : FileCommand → List Route
  | create newPath _ _ => [newPath.route]
  | update oldPath _ _ _ => [oldPath.route]
  | delete oldPath => [oldPath.route]
  | move oldPath newPath => [oldPath.route, newPath.route]
  | copy _ newPath => [newPath.route]

def newFolders : FileCommand → List Route
  | create newPath _ _ => newPath.foldersAbove
  | move _ newPath => newPath.foldersAbove
  | copy _ newPath => newPath.foldersAbove
  | update _ _ _ _ => []
  | delete _ => []

theorem getElem?_effect_of_not_touched {c : FileCommand} (hr : r ∉ c.touched)
    (files : Std.ExtTreeMap Route String) : (c.effect files)[r]? = files[r]? := by
  have hinsert : ∀ {q : Route} (files : Std.ExtTreeMap Route String) (data : String), r ≠ q →
      (files.insert q data)[r]? = files[r]? := fun files data hq => by
    rw [Std.ExtTreeMap.getElem?_insert, if_neg (by simpa using Ne.symm hq)]
  have herase : ∀ {q : Route} (files : Std.ExtTreeMap Route String), r ≠ q →
      (files.erase q)[r]? = files[r]? := fun files hq => by
    rw [Std.ExtTreeMap.getElem?_erase, if_neg (by simpa using Ne.symm hq)]
  cases c with
  | create p data format => exact hinsert files data (List.ne_of_not_mem_cons hr)
  | update p old data format => exact hinsert files data (List.ne_of_not_mem_cons hr)
  | delete p => exact herase files (List.ne_of_not_mem_cons hr)
  | move p q =>
    rw [touched, List.mem_cons, List.mem_singleton, not_or] at hr
    exact (herase _ hr.1).trans (hinsert files _ hr.2)
  | copy p q => exact hinsert files _ (List.ne_of_not_mem_cons hr)

/-! ### Carrying out -/

/-- **A command that fails** has made folders at most. -/
theorem widened_of_applyWet_error {c : FileCommand} (h : c.applyWet t = (.error e, t')) :
    Widened c.newFolders t t' := by
  unfold applyWet at h
  cases c with
  | create p data format =>
    exact widened_of_attempt_ensureFolder (fun hrest => (attempt_singleton_eq_error.1 hrest).2) h
  | update p old data format =>
    obtain ⟨-, rfl⟩ := attempt_singleton_eq_error.1 h
    exact widened_refl _ _
  | delete p =>
    obtain ⟨-, rfl⟩ := attempt_singleton_eq_error.1 h
    exact widened_refl _ _
  | move p q => exact widened_of_attempt_ensureFolder eq_of_attempt_copy_remove_error h
  | copy p q =>
    exact widened_of_attempt_ensureFolder (fun hrest => (attempt_singleton_eq_error.1 hrest).2) h

/-- A command that succeeds has made no more folders than one that fails. -/
theorem moreFolders_of_applyWet {c : FileCommand} (h : c.applyWet t = (.ok (), t')) :
    MoreFolders c.newFolders t t' := by
  have hthen : ∀ {made t₁}, Widened made t t₁ → t'.folders = t₁.folders → MoreFolders made t t' :=
    fun hwide he => ⟨fun a ha => he ▸ hwide.kept a ha, fun a ha => hwide.made a (he ▸ ha)⟩
  cases c with
  | create p data format =>
    obtain ⟨t₁, hf, hw⟩ := applyWet_create.1 h
    exact hthen (widened_ensureFolder hf) (folders_of_write hw)
  | update p old data format => exact .of_folders_eq (folders_of_write (applyWet_update.1 h))
  | delete p => exact .of_folders_eq (folders_of_remove (applyWet_delete.1 h))
  | move p q =>
    obtain ⟨t₁, t₂, hf, hc, hr⟩ := applyWet_move.1 h
    exact hthen (widened_ensureFolder hf) ((folders_of_remove hr).trans (folders_of_copy hc))
  | copy p q =>
    obtain ⟨t₁, hf, hc⟩ := applyWet_copy.1 h
    exact hthen (widened_ensureFolder hf) (folders_of_copy hc)

/-- **A command takes effect as a whole or not at all**, on any tree. If it fails, all files are as they
were; if it succeeds, the files are as its effect says, and none is changed, made or gone but at the places
of the command. In both cases no folder is gone, and none is made but those above the new path. -/
theorem applyWet_atomic (t : FileTree) (c : FileCommand) :
    match c.applyWet t with
    | (.error _, t') => t'.files = t.files ∧ MoreFolders c.newFolders t t'
    | (.ok (), t') => t'.files = c.effect t.files ∧
        (∀ r : Route, r ∉ c.touched → t'.files[r]? = t.files[r]?) ∧ MoreFolders c.newFolders t t' := by
  rcases hc : c.applyWet t with ⟨_ | _, t'⟩
  · have hwide := widened_of_applyWet_error hc
    exact ⟨hwide.files_eq, hwide.toMoreFolders⟩
  · have hfiles := files_of_applyWet hc
    refine ⟨hfiles, fun r hr => ?_, moreFolders_of_applyWet hc⟩
    rw [hfiles, getElem?_effect_of_not_touched hr]

end FileCommand

end BulkEdit
