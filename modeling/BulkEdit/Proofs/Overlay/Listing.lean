import BulkEdit.Proofs.FileTree.Walk
import BulkEdit.Proofs.Overlay.Refinement

/-!
# Listing the folders of an overlay

An overlay knows the children of a folder from three sources: the tree, the files that were written, and
the folders above those. The index of children holds nothing else, and loses only what is deleted
(`Indexes`); one operation keeps this (`Indexes.perform`), hence any sequence of them does
(`indexes_run`). So a listing is exact (`Lists`), and what was asked earlier does not show in it
(`listing_exact`), unless it has decided how a move ends (`listing_depends_on_lookup`).
-/

namespace BulkEdit

/-! ### Indices of children -/

namespace ChildIndex

variable {κ : Type} [Ord κ] [Std.TransOrd κ] [Std.LawfulEqOrd κ] {index : ChildIndex κ}
  {folder child folder' child' : κ}

theorem contains_insert : (index.insert folder child).contains folder' child' = true ↔
    (folder = folder' ∧ child = child') ∨ index.contains folder' child' = true := by
  unfold contains insert childSet
  rw [Std.ExtTreeMap.getD_insert]
  by_cases h : folder = folder'
  · subst h
    simp [Std.ExtTreeSet.contains_insert]
  · simp [h]

theorem contains_erase : (index.erase folder child).contains folder' child' = true ↔
    ¬(folder = folder' ∧ child = child') ∧ index.contains folder' child' = true := by
  unfold contains erase childSet
  rw [Std.ExtTreeMap.getD_insert]
  by_cases h : folder = folder'
  · subst h
    simp [Std.ExtTreeSet.contains_erase]
  · simp [h]

theorem mem_toList : child ∈ index.toList folder ↔ index.contains folder child = true := by
  unfold toList contains
  rw [Std.ExtTreeSet.mem_toList, Std.ExtTreeSet.contains_iff_mem]

omit [Std.LawfulEqOrd κ] in
theorem ordered_toList : (index.toList folder).Pairwise fun a b => compare a b = .lt :=
  Std.ExtTreeSet.ordered_toList

end ChildIndex

/-! ### Listings of the tree -/

theorem FileTree.mem_of_list_eq_ok {t : FileTree} {p : Path} {listed : List (Route × EntryKind)}
    (h : t.list p = .ok listed) (c : Route) (kind : EntryKind) :
    (c, kind) ∈ listed ↔ c.parent? = some p.route ∧
      (c ∈ t.folders ∧ kind = .directory ∨ c ∈ t.files ∧ kind = .file) := by
  unfold FileTree.list at h
  split at h
  · obtain rfl := Except.ok.inj h
    simp only [List.mem_mergeSort, List.mem_append, List.mem_map, List.mem_filter, Prod.mk.injEq,
      Std.ExtTreeSet.mem_toList, Std.ExtTreeMap.mem_keys, beq_iff_eq]
    grind
  · cases h

theorem FileTree.list_isOk {t : FileTree} {p : Path} :
    (∃ listed, t.list p = .ok listed) ↔ p.route ∈ t.folders := by
  unfold FileTree.list
  by_cases hp : p.route ∈ t.folders <;> simp [hp]

theorem FileTree.mem_list {t : FileTree} {p : Path} {c : Route} :
    (∃ listed kind, t.list p = .ok listed ∧ (c, kind) ∈ listed) ↔
      p.route ∈ t.folders ∧ t.Holds c ∧ c.parent? = some p.route := by
  constructor
  · rintro ⟨listed, kind, hok, hc⟩
    obtain ⟨hparent, hheld⟩ := (mem_of_list_eq_ok hok c kind).1 hc
    refine ⟨list_isOk.1 ⟨listed, hok⟩, ?_, hparent⟩
    exact hheld.elim (fun h => Or.inr h.1) fun h => Or.inl h.1
  · rintro ⟨hp, hc, hparent⟩
    obtain ⟨listed, hok⟩ := list_isOk.2 hp
    rcases hc with hc | hc
    · exact ⟨listed, .file, hok, (mem_of_list_eq_ok hok c _).2 ⟨hparent, Or.inr ⟨hc, rfl⟩⟩⟩
    · exact ⟨listed, .directory, hok, (mem_of_list_eq_ok hok c _).2 ⟨hparent, Or.inl ⟨hc, rfl⟩⟩⟩

namespace Overlay

variable {base : FileTree} {o o' : Overlay} {log : Log}

/-! ### The invariant -/

/-- What the writing of files puts into folders: the files themselves and the folders above them. -/
def Log.Populates (log : Log) (r : Route) : Prop :=
  log.Wrote r ∨ ∃ q, log.Wrote q ∧ r ∈ q.ancestors

/-- **The index holds what the folders hold**, and it is complete as to what was written, except for what
is deleted. -/
structure Indexes (base : FileTree) (o : Overlay) (log : Log) : Prop where
  reason : ∀ folder child, o.index.contains folder child = true →
    child.parent? = some folder ∧ (folder ∈ base.folders ∧ base.Holds child ∨ log.Populates child)
  known : ∀ folder child, child.folder? = some folder → log.Populates child →
    log.last? child ≠ some .deleted → o.index.contains folder child = true

theorem indexes_ofTree (base : FileTree) : Indexes base (ofTree base) {} where
  reason folder child h := by simp [ofTree, ChildIndex.contains, ChildIndex.childSet] at h
  known folder child _ h := by simp [Log.Populates, Log.Wrote] at h

/-- What does not touch the index and mutates nothing keeps the invariant. -/
theorem Indexes.of_same {log' : Log} (h : Indexes base o log) (hindex : o'.index = o.index)
    (hlog : log'.mutations = log.mutations) : Indexes base o' log' := by
  have hlast : ∀ r, log'.last? r = log.last? r := fun r => by rw [Log.last?, hlog, Log.last?]
  have hpopulates : ∀ r, log'.Populates r ↔ log.Populates r := fun r => by
    simp only [Log.Populates, Log.Wrote, hlog]
  refine ⟨fun folder child hc => ?_, fun folder child hf hp hl => ?_⟩
  · rw [hpopulates]
    exact h.reason folder child (hindex ▸ hc)
  · rw [hindex]
    exact h.known folder child hf ((hpopulates child).1 hp) (hlast child ▸ hl)

theorem index_lookup (o : Overlay) (p : Path) : (o.lookup p).2.index = o.index := by
  rcases lookup_eq o p with ⟨he, -⟩ | ⟨-, kind, ⟨he, -⟩ | ⟨he, -⟩⟩
  · rw [he]
  · rw [he]
  · rw [he]
    rfl

theorem index_register (paths : List Path) (o : Overlay) : (o.register paths).index = o.index := by
  unfold Overlay.register
  induction paths generalizing o with
  | nil => rfl
  | cons p rest ih => exact ih (o.remember p.route .file)

theorem index_select (o : Overlay) (root : Path) (m : Matcher) :
    (o.select root m).2.index = o.index := by
  unfold Overlay.select
  split
  · rfl
  · exact index_register _ o

theorem index_record (o : Overlay) (r : Route) (change : Option String → Change) :
    (o.record r change).index = o.index := by
  unfold record
  split <;> rfl

/-! ### Listing -/

theorem isDeleted_takeListed (o : Overlay) (folder : Route) (entry : Route × EntryKind) (r : Route) :
    (takeListed folder o entry).isDeleted r = o.isDeleted r := by
  unfold takeListed
  dsimp only
  split <;> rfl

theorem contains_takeListed {folder f c : Route} {entry : Route × EntryKind} :
    (takeListed folder o entry).index.contains f c = true ↔
      (folder = f ∧ entry.1 = c ∧ o.isDeleted c = false) ∨
        (o.index.contains f c = true ∧ ¬(folder = f ∧ entry.1 = c ∧ o.isDeleted c = true)) := by
  obtain ⟨child, kind⟩ := entry
  unfold takeListed
  dsimp only
  by_cases hd : o.isDeleted child = true
  · rw [if_pos hd, ChildIndex.contains_erase]
    grind
  · rw [if_neg hd, ChildIndex.contains_insert, remember]
    grind

theorem Indexes.takeListed (h : Indexes base o log) (hr : Records base o log) {folder : Route}
    {entry : Route × EntryKind} (hfolder : folder ∈ base.folders) (hentry : base.Holds entry.1)
    (hparent : entry.1.parent? = some folder) : Indexes base (takeListed folder o entry) log := by
  refine ⟨fun f c hc => ?_, fun f c hf hp hl => ?_⟩
  · rcases contains_takeListed.1 hc with ⟨rfl, rfl, -⟩ | ⟨hc, -⟩
    · exact ⟨hparent, Or.inl ⟨hfolder, hentry⟩⟩
    · exact h.reason f c hc
  · refine contains_takeListed.2 (Or.inr ⟨h.known f c hf hp hl, ?_⟩)
    rintro ⟨-, -, hd⟩
    exact hl (hr.isDeleted_iff.1 hd)

theorem taken_listed {folder : Route} (hfolder : folder ∈ base.folders)
    {listed : List (Route × EntryKind)} (h : Indexes base o log) (hr : Records base o log)
    (hlisted : ∀ e ∈ listed, base.Holds e.1 ∧ e.1.parent? = some folder) :
    Indexes base (listed.foldl (Overlay.takeListed folder) o) log ∧
      ∀ c, o.index.contains folder c = true ∨ c ∈ listed.map Prod.fst →
        log.last? c ≠ some .deleted →
          (listed.foldl (Overlay.takeListed folder) o).index.contains folder c = true := by
  induction listed generalizing o with
  | nil => exact ⟨h, fun c hc _ => by simpa using hc⟩
  | cons entry rest ih =>
    obtain ⟨hheld, hparent⟩ := hlisted entry (List.mem_cons_self ..)
    have hnext : Records base (Overlay.takeListed folder o entry) log := hr.takeListed hheld
    obtain ⟨hindexes, htaken⟩ := ih (h.takeListed hr hfolder hheld hparent) hnext
      fun e he => hlisted e (List.mem_cons_of_mem _ he)
    refine ⟨hindexes, fun c hc hl => htaken c ?_ hl⟩
    have hlive : o.isDeleted c = false := by
      rw [← Bool.not_eq_true, hr.isDeleted_iff]
      exact hl
    rw [contains_takeListed]
    grind

theorem Indexes.list (h : Indexes base o log) (hr : Records base o log) (p : Path) :
    Indexes base (o.list p).2 log := by
  unfold Overlay.list
  dsimp only
  rw [hr.base_eq]
  cases hlisted : base.list p with
  | error e => exact h
  | ok listed =>
    have hheld : ∀ e ∈ listed, p.route ∈ base.folders ∧ base.Holds e.1 ∧ e.1.parent? = some p.route :=
      fun e he => FileTree.mem_list.1 ⟨listed, e.2, hlisted, he⟩
    by_cases hempty : listed = []
    · rw [hempty]
      exact h
    · obtain ⟨e, rest, rfl⟩ := List.exists_cons_of_ne_nil hempty
      exact (taken_listed (hheld e (List.mem_cons_self ..)).1 h hr fun e he => (hheld e he).2).1

/-! ### Mutations -/

theorem Log.populates_mutate {r c : Route} {m : Mutation} : (log.mutate r m).Populates c ↔
    log.Populates c ∨ m ≠ .deleted ∧ (c = r ∨ c ∈ r.ancestors) := by
  unfold Populates
  simp only [wrote_mutate]
  constructor
  · rintro ((h | ⟨rfl, hm⟩) | ⟨q, h | ⟨rfl, hm⟩, hc⟩)
    · exact Or.inl (Or.inl h)
    · exact Or.inr ⟨hm, Or.inl rfl⟩
    · exact Or.inl (Or.inr ⟨q, h, hc⟩)
    · exact Or.inr ⟨hm, Or.inr hc⟩
  · rintro ((h | ⟨q, h, hc⟩) | ⟨hm, rfl | hc⟩)
    · exact Or.inl (Or.inl h)
    · exact Or.inr ⟨q, Or.inl h, hc⟩
    · exact Or.inl (Or.inr ⟨rfl, hm⟩)
    · exact Or.inr ⟨r, Or.inr ⟨rfl, hm⟩, hc⟩

theorem Indexes.delete (h : Indexes base o log) (p : Path) :
    Indexes base (o.delete p) (log.mutate p.route .deleted) := by
  have hkept : ∀ f c, (o.delete p).index.contains f c = true ↔
      o.index.contains f c = true ∧ ¬(p.route.folder? = some f ∧ p.route = c) := by
    intro f c
    unfold Overlay.delete
    dsimp only
    rw [index_record]
    cases hfolder : p.route.folder? with
    | none => simp
    | some folder =>
      dsimp only
      rw [ChildIndex.contains_erase]
      grind
  refine ⟨fun f c hc => ?_, fun f c hf hp hl => ?_⟩
  · obtain ⟨hparent, hsource⟩ := h.reason f c ((hkept f c).1 hc).1
    exact ⟨hparent, hsource.imp id fun hp => Log.populates_mutate.2 (Or.inl hp)⟩
  · rw [Log.last?_mutate] at hl
    by_cases hsame : p.route = c
    · simp [hsame] at hl
    · rw [if_neg hsame] at hl
      have hp : log.Populates c := by simpa [Log.populates_mutate] using hp
      exact (hkept f c).2 ⟨h.known f c hf hp hl, fun he => hsame he.2⟩

theorem contains_registerAncestors {r f c : Route} (hr : r.IsPlace) :
    (o.registerAncestors r r.ancestors).index.contains f c = true ↔
      o.index.contains f c = true ∨ c.folder? = some f ∧ (c = r ∨ c ∈ r.ancestors) := by
  generalize hfolders : r.ancestors = folders
  induction folders generalizing o r with
  | nil =>
    have hnone : r.folder? = none := by
      cases hf : r.folder? with
      | none => rfl
      | some folder =>
        rw [Route.ancestors_of_folder? hf] at hfolders
        cases hfolders
    have hother : ¬(c.folder? = some f ∧ (c = r ∨ c ∈ ([] : List Route))) := by
      rintro ⟨hf, rfl | hc⟩
      · rw [hnone] at hf
        cases hf
      · cases hc
    simp only [hother, or_false]
    rfl
  | cons folder rest ih =>
    have hf : r.folder? = some folder := by
      cases hf : r.folder? with
      | none =>
        rw [hr.ancestors_of_folder?_none hf] at hfolders
        cases hfolders
      | some parent =>
        rw [Route.ancestors_of_folder? hf] at hfolders
        obtain ⟨rfl, -⟩ := List.cons.inj hfolders
        rfl
    have hrest : folder.ancestors = rest := by
      rw [Route.ancestors_of_folder? hf] at hfolders
      exact (List.cons.inj hfolders).2
    have hplace := hr.of_mem_ancestors (Route.mem_ancestors_of_folder? hf)
    rw [registerAncestors, ih hplace hrest, remember, ChildIndex.contains_insert]
    constructor
    · rintro ((⟨rfl, rfl⟩ | hc) | ⟨hc, rfl | hin⟩)
      · exact Or.inr ⟨hf, Or.inl rfl⟩
      · exact Or.inl hc
      · exact Or.inr ⟨hc, Or.inr (List.mem_cons_self ..)⟩
      · exact Or.inr ⟨hc, Or.inr (List.mem_cons_of_mem _ hin)⟩
    · rintro (hc | ⟨hc, rfl | hin⟩)
      · exact Or.inl (Or.inr hc)
      · rw [hf] at hc
        exact Or.inl (Or.inl ⟨Option.some.inj hc, rfl⟩)
      · rcases List.mem_cons.1 hin with rfl | hin
        · exact Or.inr ⟨hc, Or.inl rfl⟩
        · exact Or.inr ⟨hc, Or.inr hin⟩

theorem Indexes.write (h : Indexes base o log) (p : Path) (data : String) :
    Indexes base (o.write p data) (log.mutate p.route (.written data)) := by
  have hkept : ∀ f c, (o.write p data).index.contains f c = true ↔ o.index.contains f c = true ∨
      c.folder? = some f ∧ (c = p.route ∨ c ∈ p.route.ancestors) := by
    intro f c
    unfold Overlay.write
    dsimp only
    rw [index_record, contains_registerAncestors p.route_isPlace]
  refine ⟨fun f c hc => ?_, fun f c hf hp hl => (hkept f c).2 ?_⟩
  · rcases (hkept f c).1 hc with hc | ⟨hf, hc⟩
    · obtain ⟨hparent, hsource⟩ := h.reason f c hc
      exact ⟨hparent, hsource.imp id fun hp => Log.populates_mutate.2 (Or.inl hp)⟩
    · obtain ⟨hparent, -⟩ := Option.filter_eq_some_iff.1 hf
      exact ⟨hparent, Or.inr (Log.populates_mutate.2 (Or.inr ⟨nofun, hc⟩))⟩
  · rcases Log.populates_mutate.1 hp with hp | ⟨-, hc⟩
    · rw [Log.last?_mutate] at hl
      by_cases hsame : p.route = c
      · exact Or.inr ⟨hf, Or.inl hsame.symm⟩
      · rw [if_neg hsame] at hl
        exact Or.inl (h.known f c hf hp hl)
    · exact Or.inr ⟨hf, hc⟩

/-! ### Any sequence of operations -/

/-- **One operation** keeps the index. -/
theorem Indexes.perform (h : Indexes base o log) (hr : Records base o log) (op : Op) :
    Indexes base (Overlay.perform (o, log) op).1 (Overlay.perform (o, log) op).2 := by
  cases op with
  | write p data => exact h.write p data
  | delete p => exact h.delete p
  | move source destination =>
    simp only [Overlay.perform, Op.after, Op.note]
    have hlooked : Indexes base (o.lookup source).2 log := h.of_same (index_lookup o source) rfl
    rcases move_cases o source destination with he | ⟨data, hdata, he⟩
    · rw [he]
      exact hlooked
    · rw [he, hdata]
      exact (hlooked.delete source).write destination data
  | register paths => exact h.of_same (index_register paths o) rfl
  | lookup p => exact h.of_same (index_lookup o p) rfl
  | isKind p kind => exact h.of_same (index_lookup o p) rfl
  | contains p => exact h.of_same (index_lookup o p) rfl
  | list p => exact h.list hr p
  | read p => exact h
  | select root m => exact h.of_same (index_select o root m) rfl

/-- **Any sequence of operations** on a new overlay keeps the index. -/
theorem indexes_run (hbase : base.Placed) (ops : List Op) :
    Indexes base (run base ops).1 (run base ops).2 := by
  induction ops using List.reverseRecOn with
  | nil => exact indexes_ofTree base
  | append_singleton ops op ih =>
    rw [run_append_one]
    exact ih.perform (records_run hbase ops) op

/-! ### Exact listings -/

/-- **An exact listing of a folder**: in path order and without repetition, the entries of the folder that
are not deleted, which the tree lists or which came with a file that was written at some time. -/
structure Lists (base : FileTree) (log : Log) (d : Path) (listing : List Route) : Prop where
  ascending : listing.Pairwise fun a b => compare a b = .lt
  mem_iff : ∀ c, c ∈ listing ↔ c.parent? = some d.route ∧ log.last? c ≠ some .deleted ∧
    ((∃ listed kind, base.list d = .ok listed ∧ (c, kind) ∈ listed) ∨ log.Wrote c ∨
      ∃ q, log.Wrote q ∧ c ∈ q.ancestors)

/-- A listing shows the children in the index that are not deleted and have been seen. -/
theorem mem_listing {p : Path} {c : Route} : c ∈ (o.list p).1 ↔
    (o.list p).2.index.contains p.route c = true ∧ (o.list p).2.isDeleted c = false ∧
      c ∈ (o.list p).2.entries := by
  unfold Overlay.list
  dsimp only
  rw [List.mem_filter, ChildIndex.mem_toList, Bool.and_eq_true, Bool.not_eq_true',
    Std.ExtTreeMap.contains_iff_mem]

theorem mem_takeListed {folder r : Route} {entry : Route × EntryKind}
    (h : r ∈ o.entries ∨ r = entry.1 ∧ o.isDeleted r = false) :
    r ∈ (takeListed folder o entry).entries := by
  obtain ⟨child, kind⟩ := entry
  unfold takeListed
  dsimp only
  split
  · rename_i hd
    rcases h with h | ⟨rfl, hl⟩
    · exact h
    · rw [hd] at hl
      cases hl
  · exact mem_remember.2 (h.elim Or.inr fun h => Or.inl h.1.symm)

theorem mem_entries_of_listed {folder r : Route} {listed : List (Route × EntryKind)}
    (h : r ∈ o.entries ∨ r ∈ listed.map Prod.fst) (hl : o.isDeleted r = false) :
    r ∈ (listed.foldl (takeListed folder) o).entries := by
  induction listed generalizing o with
  | nil => simpa using h
  | cons entry rest ih =>
    rw [List.map_cons, List.mem_cons] at h
    refine ih ?_ (by rw [isDeleted_takeListed, hl])
    rcases h with h | rfl | h
    · exact Or.inl (mem_takeListed (Or.inl h))
    · exact Or.inl (mem_takeListed (Or.inr ⟨rfl, hl⟩))
    · exact Or.inr h

theorem Indexes.lists (h : Indexes base o log) (hr : Records base o log) {d : Path}
    (hd : d.route ≠ []) : Lists base log d (o.list d).1 := by
  have hlisted := h.list hr d
  have hrecords := hr.list d
  refine ⟨?_, fun c => ?_⟩
  · exact ChildIndex.ordered_toList.filter _
  have hlive : (o.list d).2.isDeleted c = false ↔ log.last? c ≠ some .deleted := by
    rw [← Bool.not_eq_true, ne_eq, hrecords.isDeleted_iff]
  rw [mem_listing, hlive, FileTree.mem_list]
  constructor
  · rintro ⟨hc, hl, -⟩
    obtain ⟨hparent, hsource⟩ := hlisted.reason _ _ hc
    exact ⟨hparent, hl, hsource.imp (fun hs => ⟨hs.1, hs.2, hparent⟩) id⟩
  · rintro ⟨hparent, hl, hsource⟩
    rcases hsource with hbase | hpopulates
    · obtain ⟨listed, kind, hok, hmem⟩ := FileTree.mem_list.2 hbase
      have hin : c ∈ listed.map Prod.fst := List.mem_map.2 ⟨_, hmem, rfl⟩
      have hheld : ∀ e ∈ listed, base.Holds e.1 ∧ e.1.parent? = some d.route :=
        fun e he => (FileTree.mem_list.1 ⟨listed, e.2, hok, he⟩).2
      have htaken := (taken_listed hbase.1 h hr hheld).2 c (Or.inr hin) hl
      have hshown : o.isDeleted c = false := by
        rw [← Bool.not_eq_true, hr.isDeleted_iff]
        exact hl
      have hseen : c ∈ (listed.foldl (Overlay.takeListed d.route) o).entries :=
        mem_entries_of_listed (Or.inr hin) hshown
      unfold Overlay.list
      rw [hr.base_eq, hok]
      exact ⟨htaken, hl, hseen⟩
    · have hfolder : c.folder? = some d.route :=
        Option.filter_eq_some_iff.2 ⟨hparent, by simpa using hd⟩
      refine ⟨hlisted.known _ _ hfolder hpopulates hl, hl, hrecords.known c ?_⟩
      exact hpopulates.imp id Or.inl

theorem Lists.unique {log' : Log} {d : Path} {listing listing' : List Route}
    (h : Lists base log d listing) (h' : Lists base log' d listing')
    (hlog : log'.mutations = log.mutations) : listing' = listing := by
  refine Route.eq_of_ascending h'.ascending h.ascending fun c => ?_
  rw [h.mem_iff, h'.mem_iff]
  simp only [Log.last?, Log.Wrote, hlog]

/-! ### What was asked does not show -/

/-- An operation that changes files, and whether it succeeds; the others only look. -/
def Op.deed? (o : Overlay) : Op → Option (Op × Bool)
  | write p data => some (.write p data, true)
  | delete p => some (.delete p, true)
  | move source destination =>
    some (.move source destination, (o.move source destination).1.isOk)
  | _ => none

/-- What a sequence of operations does to files: the operations that change them, and how they end. -/
def deedsFrom (state : Overlay × Log) : List Op → List (Op × Bool)
  | [] => []
  | op :: rest => (op.deed? state.1).toList ++ deedsFrom (perform state op) rest

/-- What operations on a new overlay do to files. -/
def deeds (base : FileTree) (ops : List Op) : List (Op × Bool) :=
  deedsFrom (ofTree base, {}) ops

/-- The content that a move takes along, after some mutations. -/
def Log.moved (log : Log) (base : FileTree) (r : Route) : String :=
  match log.last? r with
  | some (.written data) => data
  | _ => base.files[r]?.getD ""

/-- The mutations that an operation adds if it ends as it does. -/
def Log.enact (base : FileTree) (log : Log) : Op × Bool → Log
  | (.write p data, _) => log.mutate p.route (.written data)
  | (.delete p, _) => log.mutate p.route .deleted
  | (.move source destination, true) =>
    (log.mutate source.route .deleted).mutate destination.route
      (.written (log.moved base source.route))
  | _ => log

/-- The mutations of an operation are decided by what it does to files. -/
theorem Records.mutations_note (h : Records base o log) {done : Log}
    (hdone : done.mutations = log.mutations) (op : Op) :
    (op.note o log).mutations = ((op.deed? o).toList.foldl (Log.enact base) done).mutations := by
  cases op with
  | write p data => simp [Op.note, Op.deed?, Log.enact, Log.mutate, hdone]
  | delete p => simp [Op.note, Op.deed?, Log.enact, Log.mutate, hdone]
  | move source destination =>
    simp only [Op.note, Op.deed?]
    rcases move_cases o source destination with he | ⟨data, hdata, he⟩
    · rw [he]
      exact hdone.symm
    · have hmoved : done.moved base source.route = data := by
        have hread := h.read_eq source
        rw [hdata] at hread
        have hlast : done.last? source.route = log.last? source.route := by
          rw [Log.last?, hdone, Log.last?]
        unfold Log.moved
        rw [hlast]
        generalize log.last? source.route = last at hread
        rcases last with _ | _ | _
        · exact (Except.ok.inj hread).symm
        · exact (Except.ok.inj hread).symm
        · cases hread
      rw [he, hdata]
      simp [Except.isOk, Except.toBool, Log.enact, Log.mutate, hmoved, hdone]
  | _ => exact hdone.symm

theorem mutations_foldl (hbase : base.Placed) {state : Overlay × Log}
    (h : Records base state.1 state.2) {done : Log} (hdone : done.mutations = state.2.mutations)
    (ops : List Op) : (ops.foldl perform state).2.mutations =
      ((deedsFrom state ops).foldl (Log.enact base) done).mutations := by
  induction ops generalizing state done with
  | nil => exact hdone.symm
  | cons op rest ih =>
    have hnote := h.mutations_note hdone op
    rw [List.foldl_cons, deedsFrom, List.foldl_append]
    exact ih (h.perform hbase op) hnote.symm

/-- **Operations that do the same to files leave the same mutations**, whatever was asked in between. -/
theorem mutations_run (hbase : base.Placed) {ops ops' : List Op}
    (hdeeds : deeds base ops' = deeds base ops) :
    (run base ops').2.mutations = (run base ops).2.mutations := by
  have hfold : ∀ ops, (run base ops).2.mutations =
      ((deeds base ops).foldl (Log.enact base) {}).mutations :=
    fun ops => mutations_foldl hbase (records_ofTree base) rfl ops
  rw [hfold ops', hfold ops, hdeeds]

/-- **Directory listings are exact**, after any sequence of operations over any tree; and they are the same
after any other sequence that does the same to files, whatever was asked, and when. -/
theorem listing_exact (base : FileTree) (hbase : base.Built) (ops : List Op) (d : Path)
    (hd : d.isAbsolute = true) :
    Lists base (run base ops).2 d ((run base ops).1.list d).1 ∧
      ∀ ops', deeds base ops' = deeds base ops →
        ((run base ops').1.list d).1 = ((run base ops).1.list d).1 := by
  have hroute : d.route ≠ [] := by
    intro hnil
    have hhead := Path.head?_route hd
    rw [hnil] at hhead
    cases hhead
  have hlists : ∀ ops, Lists base (run base ops).2 d ((run base ops).1.list d).1 := fun ops =>
    (indexes_run hbase.placed ops).lists (records_run hbase.placed ops) hroute
  refine ⟨hlists ops, fun ops' hdeeds => ?_⟩
  exact (hlists ops).unique (hlists ops') (mutations_run hbase.placed hdeeds)

/-- A folder of which one file was deleted, one was moved away and others came in, some of them with a folder
of their own; other places are looked up in between, or not. -/
theorem listing_exact_populated :
    let base := FileTree.ofFiles [(⟨"/p/a"⟩, "x"), (⟨"/p/b"⟩, "y"), (⟨"/p/c/d"⟩, "z")]
    let ops : List Op := [.list ⟨"/p/c"⟩, .delete ⟨"/p/a"⟩, .write ⟨"/p/e/f"⟩ "w", .contains ⟨"/p/b"⟩,
      .move ⟨"/p/b"⟩ ⟨"/p/e/g"⟩, .list ⟨"/p/."⟩, .delete ⟨"/p/e/f"⟩]
    let bare : List Op := [.delete ⟨"/p/a"⟩, .write ⟨"/p/e/f"⟩ "w", .move ⟨"/p/b"⟩ ⟨"/p/e/g"⟩,
      .delete ⟨"/p/e/f"⟩]
    base.Built ∧ (⟨"/p"⟩ : Path).isAbsolute = true ∧ deeds base bare = deeds base ops ∧
      Lists base (run base ops).2 ⟨"/p"⟩ ((run base ops).1.list ⟨"/p"⟩).1 ∧
      ((run base bare).1.list ⟨"/p"⟩).1 = ((run base ops).1.list ⟨"/p"⟩).1 := by
  intro base ops bare
  have hdeeds : deeds base bare = deeds base ops := by
    simp only [ops, bare, deeds, deedsFrom, Op.deed?, Option.toList_some, Option.toList_none,
      List.singleton_append, List.nil_append, List.cons.injEq, Prod.mk.injEq, true_and, and_true]
    decide +kernel
  obtain ⟨hlists, hsame⟩ := listing_exact base (.ofFiles _) ops ⟨"/p"⟩ (by decide)
  exact ⟨.ofFiles _, by decide, hdeeds, hlists, hsame bare hdeeds⟩

/-- **A question can decide how a move ends.** A file is written below a file of the tree. If the latter was
looked up before, it is still taken for a file and can be moved; if not, it is taken for a folder, and the
move fails. The folder of both then has other entries. -/
theorem listing_depends_on_lookup :
    let base := FileTree.ofFiles [(⟨"/a"⟩, "x")]
    let ops : List Op := [.write ⟨"/a/b"⟩ "y", .move ⟨"/a"⟩ ⟨"/c"⟩]
    ((run base ops).1.list ⟨"/"⟩).1 = [[.root, .name "a"]] ∧
      ((run base (.contains ⟨"/a"⟩ :: ops)).1.list ⟨"/"⟩).1 = [[.root, .name "c"]] := by
  decide +kernel

end Overlay

end BulkEdit
