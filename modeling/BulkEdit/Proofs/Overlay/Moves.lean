import BulkEdit.Proofs.Command.Atomicity
import BulkEdit.Proofs.FileTree.Walk
import BulkEdit.Proofs.Overlay.Refinement

/-!
# Moves on a tree and on an overlay

A tree moves a file by copying it and then removing the old one; an overlay deletes the old one and then
writes the new one. Where the two paths name different places both come to the same contents everywhere.
Where they are spellings of one place the orders differ in effect: the overlay still has the file, but in the
tree the file that was copied onto itself is gone (`move_exact`, `move_onto_itself`).
-/

namespace BulkEdit.Overlay

variable {t t' : FileTree} {o : Overlay} {p q : Path} {data : String}

/-- What an overlay shows at a path: the content that was written there last, or else what the tree holds. -/
def shown? (o : Overlay) (p : Path) : Option String :=
  match o.change? p with
  | some (.written _ data) => some data
  | some (.deleted _) => none
  | none => o.base.files[p.route]?

/-- An overlay shows the files of a tree, and no others. -/
def Shows (o : Overlay) (t : FileTree) : Prop :=
  ∀ p : Path, o.shown? p = t.files[p.route]?

theorem Records.shown?_eq {log : Log} (h : Records t o log) (p : Path) : o.shown? p =
    match log.last? p.route with
    | some (.written data) => some data
    | some .deleted => none
    | none => t.files[p.route]? := by
  unfold shown? change?
  rw [h.changes_eq, h.base_eq]
  cases log.last? p.route with
  | none => rfl
  | some m => cases m <;> rfl

/-! ### The two moves -/

def Log.ofMove (p q : Path) (data : String) : Log :=
  (({} : Log).mutate p.route .deleted).mutate q.route (.written data)

theorem last?_ofMove (p q : Path) (data : String) (r : Route) : (Log.ofMove p q data).last? r =
    if q.route = r then some (.written data) else if p.route = r then some .deleted else none := by
  simp [Log.ofMove]

theorem move_ofTree (h : t.files[p.route]? = some data) (q : Path) :
    ∃ o, (ofTree t).move p q = (.ok (), o) ∧ Records t o (Log.ofMove p q data) := by
  have hkind : t.kindAt? p.route = some .file :=
    FileTree.kindAt?_of_mem_files (FileTree.mem_files_of_getElem? h)
  have hlookup : (ofTree t).lookup p = (some .file, (ofTree t).remember p.route .file) := by
    unfold lookup
    simp [isDeleted, ofTree, hkind]
  have hread : ((ofTree t).remember p.route .file).read p = .ok data := by
    rw [read_of_same (sameChanges_remember ..), (records_ofTree t).read_eq]
    simp [h]
  refine ⟨(((ofTree t).remember p.route .file).delete p).write q data, ?_, ?_⟩
  · unfold move isKind
    simp only [hlookup, beq_self_eq_true, hread]
  · have hrecords := (records_ofTree t).lookup p
    rw [hlookup] at hrecords
    exact (hrecords.delete p).write q data

theorem files_of_move (h : (FileCommand.move p q).applyWet t = (.ok (), t')) :
    ∃ data, t.files[p.route]? = some data ∧ ∀ r : Route, t'.files[r]? =
      if p.route = r then none else if q.route = r then some data else t.files[r]? := by
  obtain ⟨t₁, t₂, hf, hc, -⟩ := FileCommand.applyWet_move.1 h
  obtain ⟨data, hdata, -⟩ := FileTree.copy_eq_ok.1 hc
  rw [FileTree.files_of_ensureFolder hf] at hdata
  refine ⟨data, hdata, fun r => ?_⟩
  rw [FileCommand.files_of_applyWet h]
  simp [FileCommand.effect, Std.ExtTreeMap.getElem?_erase, Std.ExtTreeMap.getElem?_insert,
    Std.ExtTreeMap.getD_eq_getD_getElem?, hdata]

theorem mem_folders_ensureFolder (hclosed : t.Closed) (h : t.ensureFolder p = .ok t') (a : Route) :
    a ∈ t'.folders ↔ a ∈ t.folders ∨ a ∈ p.foldersAbove := by
  rcases FileTree.ensureFolder_cases h with ⟨habove, rfl⟩ | ⟨folder, habove, hm⟩
  · simp [habove]
  · rw [FileTree.mem_makeFolders hclosed hm, habove, List.mem_cons]

theorem mem_folders_of_move (hclosed : t.Closed) (h : (FileCommand.move p q).applyWet t = (.ok (), t'))
    (a : Route) : a ∈ t'.folders ↔ a ∈ t.folders ∨ a ∈ q.foldersAbove := by
  obtain ⟨t₁, t₂, hf, hc, hr⟩ := FileCommand.applyWet_move.1 h
  rw [FileTree.folders_of_remove hr, FileTree.folders_of_copy hc,
    mem_folders_ensureFolder hclosed hf]

/-! ### Comparing them -/

/-- **What comes of a move**, on a tree and on an overlay over it. -/
structure Moved (t : FileTree) (p q : Path) (t' : FileTree) (o : Overlay) (data : String) : Prop where
  /-- The old path held the content. -/
  held : t.read p = .ok data
  /-- The overlay shows the content at the new path, in any case. -/
  kept : o.read q = .ok data ∧ (o.contains q).1 = true
  /-- It shows nothing at the old path, unless the two name the same place. -/
  left : p.route ≠ q.route → o.read p = .error (.deleted p.normalize) ∧ (o.contains p).1 = false
  /-- The tree holds the content at the new path exactly if the two do not name the same place. -/
  kept_iff : t'.read q = .ok data ↔ p.route ≠ q.route
  /-- It holds no file at the old path, and something else only if that was or has become a folder. -/
  gone : t'.isFile p = false ∧ (t'.contains p = true ↔ p.route ∈ t.folders ∨ p.route ∈ q.foldersAbove)
  /-- They show the same files everywhere exactly if the two paths do not name the same place. -/
  agree_iff : o.Shows t' ↔ p.route ≠ q.route

theorem shown?_of_move (h : Records t o (.ofMove p q data)) (s : Path) : o.shown? s =
    if q.route = s.route then some data else if p.route = s.route then none else t.files[s.route]? := by
  rw [h.shown?_eq, last?_ofMove]
  split_ifs <;> rfl

theorem kept_of_move (h : Records t o (.ofMove p q data)) :
    o.read q = .ok data ∧ (o.contains q).1 = true := by
  have hlast : (Log.ofMove p q data).last? q.route = some (.written data) := by
    rw [last?_ofMove, if_pos rfl]
  have hwrote : (Log.ofMove p q data).Wrote q.route := Log.wrote_mutate.2 (Or.inr ⟨rfl, nofun⟩)
  refine ⟨by rw [h.read_eq, hlast], (h.contains_iff q).2 ⟨?_, Or.inr (Or.inl hwrote)⟩⟩
  rw [hlast]
  nofun

theorem left_of_move (h : Records t o (.ofMove p q data)) (hne : p.route ≠ q.route) :
    o.read p = .error (.deleted p.normalize) ∧ (o.contains p).1 = false := by
  have hlast : (Log.ofMove p q data).last? p.route = some .deleted := by
    rw [last?_ofMove, if_neg (Ne.symm hne), if_pos rfl]
  refine ⟨by rw [h.read_eq, hlast], ?_⟩
  rw [Bool.eq_false_iff, ne_eq, h.contains_iff, hlast]
  exact fun hthere => hthere.1 rfl

/-- **A move keeps the content unless the file is moved onto itself.** A move that succeeds on a tree succeeds
on a new overlay over the tree. If the two paths name different places, the new one holds what the old one
held, no file is left at the old one, and the overlay shows the very files that the tree then has. If they are
spellings of one place, the overlay keeps the file, but the tree loses it. -/
theorem move_exact (t t' : FileTree) (ht : t.Built) (p q : Path)
    (h : (FileCommand.move p q).applyWet t = (.ok (), t')) :
    ∃ o data, (ofTree t).move p q = (.ok (), o) ∧ Moved t p q t' o data := by
  obtain ⟨data, hdata, hfiles⟩ := files_of_move h
  obtain ⟨o, ho, hrecords⟩ := move_ofTree hdata q
  have hold : t'.files[p.route]? = none := by rw [hfiles, if_pos rfl]
  have hgone : p.route ∉ t'.files := fun hin => by
    rw [Std.ExtTreeMap.mem_iff_isSome_getElem?, hold] at hin
    cases hin
  have hnew : t'.files[q.route]? = if p.route = q.route then none else some data := by
    rw [hfiles, if_pos (rfl : q.route = q.route)]
  refine ⟨o, data, ho, {
    held := FileTree.read_eq_ok.2 hdata
    kept := kept_of_move hrecords
    left := left_of_move hrecords
    kept_iff := ?_
    gone := ⟨?_, ?_⟩
    agree_iff := ?_ }⟩
  · rw [FileTree.read_eq_ok, hnew]
    simp
  · rw [FileTree.isFile, FileTree.kindAt?, if_neg hgone]
    split <;> rfl
  · rw [FileTree.contains_iff_holds, FileTree.Holds, ← mem_folders_of_move ht.closed h]
    simp [hgone]
  · refine ⟨fun hagree he => ?_, fun hne s => ?_⟩
    · have hq := hagree q
      rw [shown?_of_move hrecords, hnew, if_pos rfl, if_pos he] at hq
      cases hq
    · rw [shown?_of_move hrecords, hfiles]
      by_cases hp : p.route = s.route
      · have hq : q.route ≠ s.route := fun hq => hne (hp.trans hq.symm)
        simp [hp, hq]
      · simp [hp]

/-- A file is moved into a folder that is made for it, under a roundabout spelling. -/
theorem move_exact_roundabout :
    let t := FileTree.ofFiles [(⟨"/p/a.ts"⟩, "x"), (⟨"/p/b.ts"⟩, "y")]
    let t' := ((FileCommand.move ⟨"/p/a.ts"⟩ ⟨"/p/q/../r/a.ts"⟩).applyWet t).2
    t.Built ∧ (FileCommand.move ⟨"/p/a.ts"⟩ ⟨"/p/q/../r/a.ts"⟩).applyWet t = (.ok (), t') ∧
      ∃ o data, (ofTree t).move ⟨"/p/a.ts"⟩ ⟨"/p/q/../r/a.ts"⟩ = (.ok (), o) ∧
        Moved t ⟨"/p/a.ts"⟩ ⟨"/p/q/../r/a.ts"⟩ t' o data := by
  intro t t'
  have hok : ((FileCommand.move ⟨"/p/a.ts"⟩ ⟨"/p/q/../r/a.ts"⟩).applyWet t).1 = .ok () := by
    decide +kernel
  have hmove : (FileCommand.move ⟨"/p/a.ts"⟩ ⟨"/p/q/../r/a.ts"⟩).applyWet t = (.ok (), t') :=
    Prod.ext hok rfl
  exact ⟨.ofFiles _, hmove, move_exact t t' (.ofFiles _) _ _ hmove⟩

/-- **A file that is moved onto itself is lost** in a tree, though the move succeeds. An overlay keeps it. -/
theorem move_onto_itself :
    let t := FileTree.ofFiles [(⟨"/p/a.ts"⟩, "x")]
    let moved := (FileCommand.move ⟨"/p/a.ts"⟩ ⟨"/p/./a.ts"⟩).applyWet t
    moved.1 = .ok () ∧ moved.2.contains ⟨"/p/./a.ts"⟩ = false ∧
      ((ofTree t).move ⟨"/p/a.ts"⟩ ⟨"/p/./a.ts"⟩).2.read ⟨"/p/./a.ts"⟩ = .ok "x" := by
  decide +kernel

end BulkEdit.Overlay
