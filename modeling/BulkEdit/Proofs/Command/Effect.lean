import BulkEdit.Command.Apply
import BulkEdit.Proofs.FileTree.Operations

/-!
# The effect of file commands

When commands of each kind can be carried out, and what a command that is carried out makes of the files
of a tree (`files_of_applyWet`). `carryOut` applies commands in order.
-/

namespace BulkEdit

variable {t t' : FileTree} {p q : Path} {data : String}

/-! ### Attempts -/

theorem FileTree.attempt_nil_eq_ok : t.attempt [] = (.ok (), t') ↔ t = t' := by
  simp [attempt]

theorem FileTree.attempt_cons_eq_ok {step : TreeStep} {rest : List TreeStep} :
    t.attempt (step :: rest) = (.ok (), t') ↔
      ∃ t₁, step t = .ok t₁ ∧ t₁.attempt rest = (.ok (), t') := by
  rw [attempt]
  cases step t <;> simp

theorem FileTree.ensureFolder_eq_ok : t.ensureFolder p = .ok t' ↔
    match p.folder? with
    | some folder => t.makeFolders folder = .ok t'
    | none => t = t' := by
  unfold ensureFolder
  cases p.folder? <;> simp

theorem FileTree.files_of_ensureFolder (h : t.ensureFolder p = .ok t') : t'.files = t.files := by
  rw [ensureFolder_eq_ok] at h
  split at h
  · obtain ⟨-, rfl⟩ := makeFolders_eq_ok.1 h
    rfl
  · rw [h]

theorem FileTree.folders_of_ensureFolder (h : t.ensureFolder p = .ok t') :
    ∀ r ∈ t.folders, r ∈ t'.folders := by
  rw [ensureFolder_eq_ok] at h
  split at h
  · obtain ⟨-, rfl⟩ := makeFolders_eq_ok.1 h
    intro r hr
    exact Std.ExtTreeSet.mem_insert.2 (Or.inr (subset_addMissing _ _ r hr))
  · exact fun r hr => h ▸ hr

theorem FileTree.Closed.ensureFolder (hclosed : t.Closed) (h : t.ensureFolder p = .ok t') :
    t'.Closed := by
  rw [ensureFolder_eq_ok] at h
  split at h
  · exact hclosed.makeFolders h
  · exact h ▸ hclosed

namespace FileCommand

/-! ### Single commands -/

variable {old : String} {format : Bool}

theorem applyWet_create : (create p data format).applyWet t = (.ok (), t') ↔
    ∃ t₁, t.ensureFolder p = .ok t₁ ∧ t₁.write p data = .ok t' := by
  unfold applyWet steps
  simp [FileTree.attempt_cons_eq_ok, FileTree.attempt_nil_eq_ok]

theorem applyWet_update : (update p old data format).applyWet t = (.ok (), t') ↔
    t.write p data = .ok t' := by
  unfold applyWet steps
  simp [FileTree.attempt_cons_eq_ok, FileTree.attempt_nil_eq_ok]

theorem applyWet_delete : (delete p).applyWet t = (.ok (), t') ↔ t.remove p = .ok t' := by
  unfold applyWet steps
  simp [FileTree.attempt_cons_eq_ok, FileTree.attempt_nil_eq_ok]

theorem applyWet_move : (move p q).applyWet t = (.ok (), t') ↔
    ∃ t₁ t₂, t.ensureFolder q = .ok t₁ ∧ t₁.copy p q = .ok t₂ ∧ t₂.remove p = .ok t' := by
  unfold applyWet steps
  simp [FileTree.attempt_cons_eq_ok, FileTree.attempt_nil_eq_ok]

theorem applyWet_copy : (copy p q).applyWet t = (.ok (), t') ↔
    ∃ t₁, t.ensureFolder q = .ok t₁ ∧ t₁.copy p q = .ok t' := by
  unfold applyWet steps
  simp [FileTree.attempt_cons_eq_ok, FileTree.attempt_nil_eq_ok]

/-- What a command makes of the contents of files. -/
def effect (files : Std.ExtTreeMap Route String) : FileCommand → Std.ExtTreeMap Route String
  | create p data _ => files.insert p.route data
  | update p _ data _ => files.insert p.route data
  | delete p => files.erase p.route
  | move p q => (files.insert q.route (files.getD p.route "")).erase p.route
  | copy p q => files.insert q.route (files.getD p.route "")

theorem files_of_copy (h : t.copy p q = .ok t') :
    t'.files = t.files.insert q.route (t.files.getD p.route "") := by
  obtain ⟨data, hdata, hw⟩ := FileTree.copy_eq_ok.1 h
  obtain ⟨-, -, rfl⟩ := FileTree.write_eq_ok.1 hw
  simp [Std.ExtTreeMap.getD_eq_getD_getElem?, hdata]

/-- **A command that is carried out has its effect on the files.** -/
theorem files_of_applyWet {c : FileCommand} (h : c.applyWet t = (.ok (), t')) :
    t'.files = c.effect t.files := by
  cases c with
  | create p data format =>
    obtain ⟨t₁, hf, hw⟩ := applyWet_create.1 h
    obtain ⟨-, -, rfl⟩ := FileTree.write_eq_ok.1 hw
    rw [← FileTree.files_of_ensureFolder hf]
    rfl
  | update p old data format =>
    obtain ⟨-, -, rfl⟩ := FileTree.write_eq_ok.1 (applyWet_update.1 h)
    rfl
  | delete p =>
    obtain ⟨-, rfl⟩ := FileTree.remove_eq_ok.1 (applyWet_delete.1 h)
    rfl
  | move p q =>
    obtain ⟨t₁, t₂, hf, hc, hr⟩ := applyWet_move.1 h
    obtain ⟨-, rfl⟩ := FileTree.remove_eq_ok.1 hr
    simp only [effect, files_of_copy hc, FileTree.files_of_ensureFolder hf]
  | copy p q =>
    obtain ⟨t₁, hf, hc⟩ := applyWet_copy.1 h
    simp only [effect, files_of_copy hc, FileTree.files_of_ensureFolder hf]

/-! ### Sequences of commands -/

/-- The tree after the commands, if all of them can be carried out in order. -/
def carryOut (t : FileTree) : List FileCommand → Except TreeError FileTree
  | [] => .ok t
  | c :: rest =>
    match c.applyWet t with
    | (.ok (), t') => carryOut t' rest
    | (.error e, _) => .error e

theorem carryOut_cons_eq_ok {c : FileCommand} {rest : List FileCommand} :
    carryOut t (c :: rest) = .ok t' ↔
      ∃ t₁, c.applyWet t = (.ok (), t₁) ∧ carryOut t₁ rest = .ok t' := by
  rw [carryOut]
  split <;> simp_all

theorem carryOut_append_eq_ok {first second : List FileCommand} :
    carryOut t (first ++ second) = .ok t' ↔
      ∃ t₁, carryOut t first = .ok t₁ ∧ carryOut t₁ second = .ok t' := by
  induction first generalizing t with
  | nil => simp [carryOut]
  | cons c rest ih =>
    simp only [List.cons_append, carryOut_cons_eq_ok, ih]
    constructor
    · rintro ⟨t₁, hc, t₂, hrest, hsecond⟩
      exact ⟨t₂, ⟨t₁, hc, hrest⟩, hsecond⟩
    · rintro ⟨t₂, ⟨t₁, hc, hrest⟩, hsecond⟩
      exact ⟨t₁, hc, t₂, hrest, hsecond⟩

theorem files_of_carryOut {commands : List FileCommand} (h : carryOut t commands = .ok t') :
    t'.files = commands.foldl effect t.files := by
  induction commands generalizing t with
  | nil =>
    obtain rfl := Except.ok.inj h
    rfl
  | cons c rest ih =>
    obtain ⟨t₁, hc, hrest⟩ := carryOut_cons_eq_ok.1 h
    rw [ih hrest, files_of_applyWet hc]
    rfl

end FileCommand

end BulkEdit
