import BulkEdit.Proofs.Overlay.Reach

/-!
# Overlays that show the tree

As long as nothing but files of the tree is written, and nothing deleted or moved, an overlay shows the entries
of the tree and no others (`Mirrors`): a place is of the kind that it has in the tree, and a folder lists its
children in path order. Every question keeps this, and so does the writing of a file of the tree
(`Mirrors.perform`).
-/

namespace BulkEdit.Overlay

variable {base : FileTree} {o o' : Overlay} {log : Log}

/-! ### What is remembered -/

/-- What is remembered of a place is what the tree has there. -/
def Kinds (base : FileTree) (o : Overlay) : Prop :=
  ∀ (r : Route) (kind : EntryKind), o.entries[r]? = some kind → base.kindAt? r = some kind

namespace Kinds

theorem of_entries (h : Kinds base o) (hentries : o'.entries = o.entries) : Kinds base o' := by
  intro r kind hr
  exact h r kind (hentries ▸ hr)

theorem remember (h : Kinds base o) {r : Route} {kind : EntryKind} (hr : base.kindAt? r = some kind) :
    Kinds base (o.remember r kind) := by
  intro q found hq
  rw [getElem?_remember] at hq
  split at hq
  · rename_i hnew
    rw [← hnew.1, ← Option.some.inj hq, hr]
  · exact h q found hq

theorem lookup (h : Kinds base o) (hbase : o.base = base) (p : Path) : Kinds base (o.lookup p).2 := by
  unfold Overlay.lookup
  dsimp only
  split
  · exact h
  · split
    · exact h
    · split
      · exact h
      · rename_i kind hkind
        exact h.remember (hbase ▸ hkind)

theorem register (h : Kinds base o) {paths : List Path} (hpaths : ∀ p ∈ paths, p.route ∈ base.files) :
    Kinds base (o.register paths) := by
  unfold Overlay.register
  induction paths generalizing o with
  | nil => exact h
  | cons p rest ih =>
    have hfile := FileTree.kindAt?_of_mem_files (hpaths p List.mem_cons_self)
    exact ih (h.remember hfile) fun q hq => hpaths q (List.mem_cons_of_mem _ hq)

theorem select (h : Kinds base o) (hplaced : base.Placed) (hbase : o.base = base) (root : Path)
    (m : Matcher) : Kinds base (o.select root m).2 := by
  unfold Overlay.select
  split
  · exact h
  · rename_i paths hpaths
    rw [hbase] at hpaths
    exact h.register fun p hp => mem_files_of_collect hplaced hpaths (List.mem_filter.1 hp).1

theorem list (h : Kinds base o) (hunhidden : base.Unhidden) (hbase : o.base = base) (p : Path) :
    Kinds base (o.list p).2 := by
  unfold Overlay.list
  dsimp only
  rw [hbase]
  cases hok : base.list p with
  | error e => exact h
  | ok listed =>
    have hlisted : ∀ e ∈ listed, base.kindAt? e.1 = some e.2 := by
      intro e he
      obtain ⟨-, ⟨hin, hkind⟩ | ⟨hin, hkind⟩⟩ := (FileTree.mem_of_list_eq_ok hok e.1 e.2).1 he
      · rw [hkind, hunhidden.kindAt?_of_mem_folders hin]
      · rw [hkind, FileTree.kindAt?_of_mem_files hin]
    clear hok hbase
    induction listed generalizing o with
    | nil => exact h
    | cons entry rest ih =>
      refine ih ?_ fun e he => hlisted e (List.mem_cons_of_mem _ he)
      unfold Overlay.takeListed
      dsimp only
      split
      · exact h.of_entries rfl
      · exact (h.remember (hlisted entry List.mem_cons_self)).of_entries rfl

theorem write (h : Kinds base o) (hbuilt : base.Built) (hunhidden : base.Unhidden) {p : Path}
    (hp : p.route ∈ base.files) (data : String) : Kinds base (o.write p data) := by
  intro q found hq
  rw [getElem?_write] at hq
  split at hq
  · rename_i hsame
    rw [← hsame, ← Option.some.inj hq, FileTree.kindAt?_of_mem_files hp]
  · split at hq
    · rename_i hnew
      have hfolder := hbuilt.mem_folders_of_ancestor hp hnew.1
      rw [← Option.some.inj hq, hunhidden.kindAt?_of_mem_folders hfolder]
    · exact h q found hq

end Kinds

/-! ### What is shown -/

/-- **The overlay shows what the tree has.** Only files of the tree have been written. -/
structure Mirrors (base : FileTree) (o : Overlay) (log : Log) : Prop where
  records : Records base o log
  indexes : Indexes base o log
  kinds : Kinds base o
  writes : ∀ e ∈ log.mutations, e.1 ∈ base.files ∧ e.2 ≠ .deleted

theorem mirrors_ofTree (base : FileTree) : Mirrors base (ofTree base) {} where
  records := records_ofTree base
  indexes := indexes_ofTree base
  kinds r kind h := by simp [ofTree] at h
  writes e he := by simp at he

/-- An operation that changes nothing but the content of files of the tree. -/
def Op.Edits (base : FileTree) : Op → Prop
  | write p _ => p.route ∈ base.files
  | delete _ => False
  | move _ _ => False
  | register _ => False
  | _ => True

namespace Mirrors

/-- **One operation** that edits at most keeps the view. -/
theorem perform (h : Mirrors base o log) (hbuilt : base.Built) (hunhidden : base.Unhidden) {op : Op}
    (hop : op.Edits base) : Mirrors base (op.after o) (op.note o log) := by
  have hbase := h.records.base_eq
  refine ⟨h.records.perform hbuilt.placed op, h.indexes.perform h.records op, ?_, ?_⟩
  · cases op with
    | write p data => exact h.kinds.write hbuilt hunhidden hop data
    | delete p => exact absurd hop id
    | move source destination => exact absurd hop id
    | register paths => exact absurd hop id
    | lookup p => exact h.kinds.lookup hbase p
    | isKind p kind => exact h.kinds.lookup hbase p
    | contains p => exact h.kinds.lookup hbase p
    | list p => exact h.kinds.list hunhidden hbase p
    | read p => exact h.kinds
    | select root m => exact h.kinds.select hbuilt.placed hbase root m
  · cases op with
    | write p data =>
      intro e he
      rcases List.mem_append.1 he with he | he
      · exact h.writes e he
      · rw [List.mem_singleton.1 he]
        exact ⟨hop, nofun⟩
    | delete p => exact absurd hop id
    | move source destination => exact absurd hop id
    | register paths => exact absurd hop id
    | _ => exact h.writes

theorem last?_ne_deleted (h : Mirrors base o log) (r : Route) : log.last? r ≠ some .deleted :=
  fun hlast => (h.writes _ (Log.mem_of_last? hlast)).2 rfl

theorem isDeleted_eq (h : Mirrors base o log) (r : Route) : o.isDeleted r = false := by
  rw [← Bool.not_eq_true, h.records.isDeleted_iff]
  exact h.last?_ne_deleted r

theorem lookup_eq (h : Mirrors base o log) (p : Path) : (o.lookup p).1 = base.kindAt? p.route := by
  unfold Overlay.lookup
  simp only [h.isDeleted_eq, h.records.base_eq, Bool.false_eq_true, if_false]
  cases hseen : o.entries[p.route]? with
  | some kind => exact (h.kinds p.route kind hseen).symm
  | none => cases base.kindAt? p.route <;> rfl

theorem children_list (h : Mirrors base o log) (hbuilt : base.Built) {p : Path}
    (hp : p.route ∈ base.folders) (hne : p.route ≠ []) : base.Children p.route (o.list p).1 := by
  have hlists := h.indexes.lists h.records hne
  refine ⟨hlists.ascending, fun c => ?_⟩
  rw [hlists.mem_iff, FileTree.mem_list]
  constructor
  · rintro ⟨hparent, -, ⟨-, hheld, -⟩ | ⟨data, hwrote⟩ | ⟨q, ⟨data, hwrote⟩, hc⟩⟩
    · exact ⟨hheld, hparent⟩
    · exact ⟨Or.inl (h.writes _ hwrote).1, hparent⟩
    · exact ⟨Or.inr (hbuilt.mem_folders_of_ancestor (h.writes _ hwrote).1 hc), hparent⟩
  · rintro ⟨hheld, hparent⟩
    exact ⟨hparent, h.last?_ne_deleted c, Or.inl ⟨hp, hheld, hparent⟩⟩

end Mirrors

end BulkEdit.Overlay
