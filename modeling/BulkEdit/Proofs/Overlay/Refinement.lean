import BulkEdit.Proofs.Overlay.History

/-!
# Overlays refine a map of files

What can be seen of an overlay is decided by the tree and by the log of mutations alone (`Refines`),
whatever was asked in between. Places are kept apart by their routes, so that two paths are confused
only if they name the same place.
-/

namespace BulkEdit.Overlay

variable {base : FileTree} {o o' : Overlay} {log : Log}

/-- Two overlays that cannot be told apart by their contents. -/
structure Alike (o o' : Overlay) : Prop where
  read : ∀ p, o'.read p = o.read p
  contains : ∀ p, (o'.contains p).1 = (o.contains p).1
  select : ∀ root m, (o'.select root m).1 = (o.select root m).1
  change : ∀ p, o'.change? p = o.change? p
  commands : ∀ format, o'.commands format = o.commands format

/-- **An overlay shows the tree with the last mutations on top.** A file reads as it was written last,
or else as it is in the tree; a place is there if its last mutation is no deletion and the tree holds
it, or it was written, or stands above a file that was written, or was taken for granted; the selected
files are those of the tree that are not deleted; and a move fails without effect, or else is a
deletion and a writing. -/
structure Refines (base : FileTree) (o : Overlay) (log : Log) : Prop where
  read_eq : ∀ p : Path, o.read p =
    match log.last? p.route with
    | some (.written data) => .ok data
    | some .deleted => .error (.deleted p.normalize)
    | none => .ok (base.files[p.route]?.getD "")
  contains_iff : ∀ p : Path, (o.contains p).1 = true ↔
    log.last? p.route ≠ some .deleted ∧
      (base.contains p = true ∨ log.Wrote p.route ∨ (∃ q, log.Wrote q ∧ p.route ∈ q.ancestors) ∨
        p.route ∈ log.registered)
  select_eq : ∀ (root : Path) (m : Matcher), base.contains root = true →
    ∃ routes, base.walk root = .ok routes ∧
      (o.select root m).1 = .ok ((routes.map Route.toPath).filter fun p =>
        m.accepts p && decide (log.last? p.route ≠ some .deleted))
  move_cases : ∀ source destination : Path,
    ((o.move source destination).1 = .error
        (if log.last? source.route = some .deleted then .deleted source.normalize
          else .notFound source.normalize) ∧
      Alike o (o.move source destination).2) ∨
    ∃ data, o.read source = .ok data ∧ (o.move source destination).1 = .ok () ∧
      Alike ((o.delete source).write destination data) (o.move source destination).2

theorem Records.read_eq (h : Records base o log) (p : Path) : o.read p =
    match log.last? p.route with
    | some (.written data) => .ok data
    | some .deleted => .error (.deleted p.normalize)
    | none => .ok (base.files[p.route]?.getD "") := by
  unfold read
  rw [h.changes_eq, h.base_eq]
  cases log.last? p.route with
  | none =>
    unfold FileTree.read
    cases base.files[p.route]? <;> rfl
  | some m => cases m <;> rfl

theorem Records.contains_iff (h : Records base o log) (p : Path) : (o.contains p).1 = true ↔
    log.last? p.route ≠ some .deleted ∧ (base.Holds p.route ∨ log.Brings p.route) := by
  have hfound : (o.contains p).1 = (o.lookup p).1.isSome := rfl
  rw [hfound, ne_eq, ← h.isDeleted_iff]
  rcases lookup_eq o p with ⟨he, hnot⟩ | ⟨hlive, kind, hfound⟩
  · rw [he]
    simp only [Option.isSome_none, Bool.false_eq_true, false_iff, not_and]
    intro hlive hthere
    rcases hnot with hd | ⟨hnew, hbase⟩
    · exact hlive hd
    · rw [h.base_eq] at hbase
      exact hthere.elim hbase fun hb => hnew (h.known _ hb)
  · simp only [hlive, Bool.false_eq_true, not_false_eq_true, true_and]
    rcases hfound with ⟨he, hmem⟩ | ⟨he, hheld⟩
    · simp only [he, Option.isSome_some, true_iff]
      exact h.reason _ hmem
    · simp only [he, Option.isSome_some, true_iff]
      exact Or.inl (h.base_eq ▸ hheld)

theorem Records.select_eq (h : Records base o log) (root : Path) (m : Matcher) :
    (o.select root m).1 = match base.walk root with
      | .error e => .error (.tree e)
      | .ok routes => .ok ((routes.map Route.toPath).filter fun p =>
          m.accepts p && decide (log.last? p.route ≠ some .deleted)) := by
  have hlive : ∀ p : Path, (!o.isDeleted p.route) = decide (log.last? p.route ≠ some .deleted) := by
    intro p
    rw [Bool.eq_iff_iff]
    simp [← h.isDeleted_iff]
  unfold Overlay.select Matcher.collect
  rw [h.base_eq]
  cases base.walk root with
  | error e => rfl
  | ok routes =>
    simp only [bind, Except.bind, pure, Except.pure, List.filter_filter, hlive, Bool.and_comm]

theorem Records.alike (h : Records base o log) (h' : Records base o' log) : Alike o o' where
  read p := by rw [h.read_eq, h'.read_eq]
  contains p := by rw [Bool.eq_iff_iff, h.contains_iff, h'.contains_iff]
  select root m := by rw [h.select_eq, h'.select_eq]
  change p := by rw [change?, change?, h.changes_eq, h'.changes_eq]
  commands format := by
    unfold commands
    rw [h.order_eq, h'.order_eq]
    simp only [h.changes_eq, h'.changes_eq]

theorem Records.refines (h : Records base o log) : Refines base o log where
  read_eq := h.read_eq
  contains_iff p := by
    rw [h.contains_iff, FileTree.contains_iff_holds]
    rfl
  select_eq root m hroot := by
    have hwalk : ∃ routes, base.walk root = .ok routes := by
      rw [FileTree.contains_iff_holds] at hroot
      exact ⟨_, if_pos (Or.comm.1 hroot)⟩
    obtain ⟨routes, hroutes⟩ := hwalk
    exact ⟨routes, hroutes, by rw [h.select_eq, hroutes]⟩
  move_cases source destination := by
    have hlooked := h.lookup source
    rcases Overlay.move_cases o source destination with he | ⟨data, hdata, he⟩
    · left
      rw [he]
      refine ⟨?_, h.alike hlooked⟩
      simp only [h.isDeleted_iff]
    · right
      rw [he]
      exact ⟨data, hdata, rfl, ((h.delete source).write destination data).alike
        ((hlooked.delete source).write destination data)⟩

/-- **The overlay refines the map of files**, after any sequence of operations over any tree. -/
theorem run_refines (base : FileTree) (hbase : base.Built) (ops : List Op) :
    Refines base (run base ops).1 (run base ops).2 :=
  (records_run hbase.placed ops).refines

/-- A file is looked up, moved below its own old place, and a file of the tree is deleted under another
spelling. -/
theorem run_refines_moved :
    (FileTree.ofFiles [(⟨"/a"⟩, "x"), (⟨"/b/c"⟩, "y")]).Built ∧
      Refines (FileTree.ofFiles [(⟨"/a"⟩, "x"), (⟨"/b/c"⟩, "y")])
        (run (.ofFiles [(⟨"/a"⟩, "x"), (⟨"/b/c"⟩, "y")])
          [.contains ⟨"/a"⟩, .move ⟨"/a"⟩ ⟨"/a/d"⟩, .list ⟨"/"⟩, .delete ⟨"/b/./c"⟩]).1
        (run (.ofFiles [(⟨"/a"⟩, "x"), (⟨"/b/c"⟩, "y")])
          [.contains ⟨"/a"⟩, .move ⟨"/a"⟩ ⟨"/a/d"⟩, .list ⟨"/"⟩, .delete ⟨"/b/./c"⟩]).2 :=
  ⟨.ofFiles _, run_refines _ (.ofFiles _) _⟩

end BulkEdit.Overlay
