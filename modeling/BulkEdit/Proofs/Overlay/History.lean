import BulkEdit.Overlay.Basic
import BulkEdit.Proofs.FileTree.Operations

/-!
# What has been done to an overlay

The operations on an overlay, the log of what they did to files, and the invariant that ties the two
together (`Records`): the changes are the last mutations, each with what the tree holds; the order is
that of the first mutations; and what is remembered of a place is there for a reason. One operation
keeps the invariant (`Records.perform`), hence any sequence of them does (`records_run`).
-/

namespace BulkEdit.Overlay

/-! ### Operations and their log -/

/-- An operation on an overlay: four that change it, and the questions that can be asked of it. -/
inductive Op where
  | write (p : Path) (data : String)
  | delete (p : Path)
  | move (source destination : Path)
  | register (paths : List Path)
  | lookup (p : Path)
  | isKind (p : Path) (kind : EntryKind)
  | contains (p : Path)
  | list (p : Path)
  | read (p : Path)
  | select (root : Path) (m : Matcher)

/-- The overlay after an operation. Reading alone remembers nothing. -/
def Op.after (o : Overlay) : Op → Overlay
  | write p data => o.write p data
  | delete p => o.delete p
  | move source destination => (o.move source destination).2
  | register paths => o.register paths
  | lookup p => (o.lookup p).2
  | isKind p kind => (o.isKind p kind).2
  | contains p => (o.contains p).2
  | list p => (o.list p).2
  | read _ => o
  | select root m => (o.select root m).2

/-- What can be done to a file. -/
inductive Mutation where
  | written (data : String)
  | deleted
deriving DecidableEq, Repr

/-- What has been done: the mutations of files in order, and the files taken for granted. -/
structure Log where
  mutations : List (Route × Mutation) := []
  registered : List Route := []

namespace Log

def last? (log : Log) (r : Route) : Option Mutation :=
  log.mutations.reverse.lookup r

/-- The files in the order of their first mutations. -/
def firstChanges (log : Log) : List Route :=
  (log.mutations.map Prod.fst).eraseDups

/-- A file was written at some time. -/
def Wrote (log : Log) (r : Route) : Prop :=
  ∃ data, (r, .written data) ∈ log.mutations

def mutate (log : Log) (r : Route) (m : Mutation) : Log :=
  { log with mutations := log.mutations ++ [(r, m)] }

end Log

/-- The log after an operation. A move that succeeds deletes the one file and writes the other with
what was read; one that fails does nothing to files. -/
def Op.note (o : Overlay) (log : Log) : Op → Log
  | write p data => log.mutate p.route (.written data)
  | delete p => log.mutate p.route .deleted
  | move source destination =>
    match (o.move source destination).1, o.read source with
    | .ok (), .ok data => (log.mutate source.route .deleted).mutate destination.route (.written data)
    | _, _ => log
  | register paths => { log with registered := log.registered ++ paths.map Path.route }
  | _ => log

/-- An overlay and its log after one more operation. -/
def perform (state : Overlay × Log) (op : Op) : Overlay × Log :=
  (op.after state.1, op.note state.1 state.2)

/-- A new overlay over a tree, and its log, after some operations. -/
def run (base : FileTree) (ops : List Op) : Overlay × Log :=
  ops.foldl perform (ofTree base, {})

theorem run_append_one (base : FileTree) (ops : List Op) (op : Op) :
    run base (ops ++ [op]) = perform (run base ops) op := by
  simp [run]

/-! ### The log -/

namespace Log

variable {log : Log} {q r : Route} {m : Mutation}

@[simp] theorem last?_empty (r : Route) : ({} : Log).last? r = none := rfl

@[simp] theorem last?_mutate : (log.mutate q m).last? r = if q = r then some m else log.last? r := by
  unfold last? mutate
  simp only [List.reverse_append, List.reverse_cons, List.reverse_nil, List.nil_append,
    List.singleton_append, List.lookup_cons]
  by_cases h : q = r
  · simp [h]
  · rw [if_neg h, beq_eq_false_iff_ne.2 (Ne.symm h)]

theorem last?_eq_none : log.last? r = none ↔ r ∉ log.mutations.map Prod.fst := by
  unfold last?
  rw [List.lookup_eq_none_iff]
  simp only [List.mem_reverse, List.mem_map, not_exists, not_and, bne_iff_ne]
  exact ⟨fun h x hx he => h x hx he.symm, fun h x hx he => h x hx he.symm⟩

theorem firstChanges_mutate : (log.mutate r m).firstChanges =
    if log.last? r = none then log.firstChanges ++ [r] else log.firstChanges := by
  unfold firstChanges mutate
  rw [List.map_append, List.eraseDups_append]
  by_cases h : r ∈ log.mutations.map Prod.fst
  · rw [if_neg (fun hn => last?_eq_none.1 hn h)]
    simp [List.removeAll, h]
  · rw [if_pos (last?_eq_none.2 h)]
    simp only [List.mem_map] at h
    simp [List.removeAll, h, List.eraseDups_cons]

@[simp] theorem registered_mutate : (log.mutate r m).registered = log.registered := rfl

theorem wrote_mutate : (log.mutate q m).Wrote r ↔ log.Wrote r ∨ q = r ∧ m ≠ .deleted := by
  unfold Wrote mutate
  cases m <;> simp [exists_or, eq_comm]

end Log

/-- The change that a mutation amounts to when the tree holds the given content. -/
def Mutation.change (baseline : Option String) : Mutation → Change
  | written data => .written baseline data
  | deleted => .deleted baseline

@[simp] theorem Mutation.baseline_change (baseline : Option String) (m : Mutation) :
    (m.change baseline).baseline = baseline := by
  cases m <;> rfl

/-! ### The invariant -/

/-- What there is besides the entries of the tree: files that were written at some time, the folders
above them, and files taken for granted. -/
def Log.Brings (log : Log) (r : Route) : Prop :=
  log.Wrote r ∨ (∃ q, log.Wrote q ∧ r ∈ q.ancestors) ∨ r ∈ log.registered

/-- **The overlay records what the log says.** -/
structure Records (base : FileTree) (o : Overlay) (log : Log) : Prop where
  base_eq : o.base = base
  changes_eq : ∀ r, o.changes[r]? = (log.last? r).map (Mutation.change base.files[r]?)
  order_eq : o.order = log.firstChanges
  reason : ∀ r ∈ o.entries, base.Holds r ∨ log.Brings r
  known : ∀ r, log.Brings r → r ∈ o.entries
  places : ∀ e ∈ log.mutations, e.1.IsPlace

/-- Two overlays with the same tree and the same changes. -/
structure SameChanges (o o' : Overlay) : Prop where
  base : o'.base = o.base
  changes : o'.changes = o.changes
  order : o'.order = o.order

variable {base : FileTree} {o o' : Overlay} {log : Log}

theorem records_ofTree (base : FileTree) : Records base (ofTree base) {} where
  base_eq := rfl
  changes_eq r := by simp [ofTree]
  order_eq := rfl
  reason r hr := by simp [ofTree] at hr
  known r hr := by simp [Log.Brings, Log.Wrote] at hr
  places e he := by simp at he

/-- A step that leaves the changes alone keeps the records if it remembers only what is there. -/
theorem Records.of_same (h : Records base o log) (hsame : SameChanges o o')
    (hmore : ∀ r ∈ o.entries, r ∈ o'.entries)
    (hless : ∀ r ∈ o'.entries, r ∈ o.entries ∨ base.Holds r ∨ log.Brings r) :
    Records base o' log where
  base_eq := by rw [hsame.base, h.base_eq]
  changes_eq r := by rw [hsame.changes, h.changes_eq]
  order_eq := by rw [hsame.order, h.order_eq]
  reason r hr := (hless r hr).elim (h.reason r) id
  known r hr := hmore r (h.known r hr)
  places := h.places

theorem Records.isDeleted_iff (h : Records base o log) {r : Route} :
    o.isDeleted r = true ↔ log.last? r = some .deleted := by
  unfold isDeleted
  rw [h.changes_eq]
  cases log.last? r with
  | none => simp
  | some m => cases m <;> simp [Mutation.change]

/-! ### Looking up and remembering -/

theorem sameChanges_refl (o : Overlay) : SameChanges o o := ⟨rfl, rfl, rfl⟩

theorem SameChanges.trans {o₁ o₂ o₃ : Overlay} (h : SameChanges o₁ o₂) (h' : SameChanges o₂ o₃) :
    SameChanges o₁ o₃ :=
  ⟨h'.base.trans h.base, h'.changes.trans h.changes, h'.order.trans h.order⟩

theorem sameChanges_remember (o : Overlay) (r : Route) (kind : EntryKind) :
    SameChanges o (o.remember r kind) := ⟨rfl, rfl, rfl⟩

theorem mem_remember {q r : Route} {kind : EntryKind} :
    q ∈ (o.remember r kind).entries ↔ r = q ∨ q ∈ o.entries := by
  simp [remember]

theorem Records.remember (h : Records base o log) {r : Route}
    (hr : base.Holds r ∨ log.Brings r) (kind : EntryKind) : Records base (o.remember r kind) log := by
  refine h.of_same (sameChanges_remember o r kind) (fun q hq => mem_remember.2 (Or.inr hq)) ?_
  intro q hq
  rcases mem_remember.1 hq with rfl | hq
  · exact Or.inr hr
  · exact Or.inl hq

/-- Looking a place up finds it unless it is deleted, by what is remembered or else by the tree. -/
theorem lookup_eq (o : Overlay) (p : Path) :
    o.lookup p = (none, o) ∧
        (o.isDeleted p.route = true ∨ p.route ∉ o.entries ∧ ¬ o.base.Holds p.route) ∨
      o.isDeleted p.route = false ∧ ∃ kind,
        (o.lookup p = (some kind, o) ∧ p.route ∈ o.entries ∨
          o.lookup p = (some kind, o.remember p.route kind) ∧ o.base.Holds p.route) := by
  unfold lookup
  cases hd : o.isDeleted p.route with
  | true => simp [hd]
  | false =>
    cases he : o.entries[p.route]? with
    | some kind =>
      refine Or.inr ⟨rfl, kind, Or.inl ⟨by simp [hd, he], ?_⟩⟩
      exact Std.ExtTreeMap.mem_iff_isSome_getElem?.2 (by simp [he])
    | none =>
      have hnot : p.route ∉ o.entries := by simpa using he
      cases hk : o.base.kindAt? p.route with
      | none =>
        refine Or.inl ⟨by simp [hd, he, hk], Or.inr ⟨hnot, fun h => ?_⟩⟩
        have hsome := FileTree.kindAt?_isSome.2 h
        rw [hk] at hsome
        cases hsome
      | some kind =>
        exact Or.inr ⟨rfl, kind, Or.inr ⟨by simp [hd, he, hk], FileTree.kindAt?_isSome.1 (by simp [hk])⟩⟩

theorem sameChanges_lookup (o : Overlay) (p : Path) : SameChanges o (o.lookup p).2 := by
  rcases lookup_eq o p with ⟨he, -⟩ | ⟨-, kind, ⟨he, -⟩ | ⟨he, -⟩⟩
  · rw [he]; exact sameChanges_refl o
  · rw [he]; exact sameChanges_refl o
  · rw [he]; exact sameChanges_remember o _ _

theorem Records.lookup (h : Records base o log) (p : Path) : Records base (o.lookup p).2 log := by
  rcases lookup_eq o p with ⟨he, -⟩ | ⟨-, kind, ⟨he, -⟩ | ⟨he, hb⟩⟩
  · rwa [he]
  · rwa [he]
  · rw [he]
    exact h.remember (Or.inl (h.base_eq ▸ hb)) kind

theorem Records.isKind (h : Records base o log) (p : Path) (kind : EntryKind) :
    Records base (o.isKind p kind).2 log := h.lookup p

theorem Records.contains (h : Records base o log) (p : Path) : Records base (o.contains p).2 log :=
  h.lookup p

theorem Records.register (h : Records base o log) {paths : List Path}
    (hpaths : ∀ p ∈ paths, base.Holds p.route ∨ log.Brings p.route) :
    Records base (o.register paths) log := by
  unfold Overlay.register
  induction paths generalizing o with
  | nil => exact h
  | cons p rest ih =>
    exact ih (h.remember (hpaths p (List.mem_cons_self ..)) .file)
      fun q hq => hpaths q (List.mem_cons_of_mem _ hq)

theorem mem_register (paths : List Path) (o : Overlay) (r : Route) :
    r ∈ (o.register paths).entries ↔ r ∈ o.entries ∨ r ∈ paths.map Path.route := by
  unfold Overlay.register
  induction paths generalizing o with
  | nil => simp
  | cons p rest ih =>
    rw [List.foldl_cons, ih, mem_remember, List.map_cons, List.mem_cons]
    tauto

theorem sameChanges_register (paths : List Path) (o : Overlay) :
    SameChanges o (o.register paths) := by
  unfold Overlay.register
  induction paths generalizing o with
  | nil => exact sameChanges_refl o
  | cons p rest ih => exact (sameChanges_remember o p.route .file).trans (ih _)

theorem Records.takeListed (h : Records base o log) {folder : Route} {entry : Route × EntryKind}
    (hentry : base.Holds entry.1) : Records base (takeListed folder o entry) log := by
  obtain ⟨child, kind⟩ := entry
  unfold Overlay.takeListed
  simp only
  split
  · exact h.of_same ⟨rfl, rfl, rfl⟩ (fun r hr => hr) fun r hr => Or.inl hr
  · exact (h.remember (Or.inl hentry) kind).of_same ⟨rfl, rfl, rfl⟩ (fun r hr => hr)
      fun r hr => Or.inl hr

theorem holds_of_list {p : Path} {listed : List (Route × EntryKind)} (h : base.list p = .ok listed)
    {entry : Route × EntryKind} (hentry : entry ∈ listed) : base.Holds entry.1 := by
  unfold FileTree.list at h
  split at h
  · obtain rfl := Except.ok.inj h
    rw [List.mem_mergeSort, List.mem_append] at hentry
    rcases hentry with hentry | hentry
    · obtain ⟨r, hr, rfl⟩ := List.mem_map.1 hentry
      exact Or.inr (Std.ExtTreeSet.mem_toList.1 (List.mem_filter.1 hr).1)
    · obtain ⟨r, hr, rfl⟩ := List.mem_map.1 hentry
      exact Or.inl (Std.ExtTreeMap.mem_keys.1 (List.mem_filter.1 hr).1)
  · cases h

theorem Records.list (h : Records base o log) (p : Path) : Records base (o.list p).2 log := by
  unfold Overlay.list
  simp only
  split
  · rename_i listed hlisted
    rw [h.base_eq] at hlisted
    have hheld : ∀ entry ∈ listed, base.Holds entry.1 := fun entry he => holds_of_list hlisted he
    clear hlisted
    induction listed generalizing o with
    | nil => exact h
    | cons entry rest ih =>
      exact ih (h.takeListed (hheld entry (List.mem_cons_self ..)))
        fun e he => hheld e (List.mem_cons_of_mem _ he)
  · exact h

theorem mem_files_of_collect (hbase : base.Placed) {m : Matcher} {root : Path} {paths : List Path}
    (h : m.collect base root = .ok paths) {p : Path} (hp : p ∈ paths) : p.route ∈ base.files := by
  unfold Matcher.collect FileTree.walk at h
  split at h
  · obtain rfl := Except.ok.inj h
    obtain ⟨r, hr, rfl⟩ := List.mem_map.1 (List.mem_filter.1 hp).1
    have hfile : r ∈ base.files := Std.ExtTreeMap.mem_keys.1 (List.mem_filter.1 hr).1
    rwa [(hbase.files r hfile).route_toPath]
  · cases h

theorem Records.select (hbase : base.Placed) (h : Records base o log) (root : Path) (m : Matcher) :
    Records base (o.select root m).2 log := by
  unfold Overlay.select
  split
  · exact h
  · rename_i paths hpaths
    rw [h.base_eq] at hpaths
    exact h.register fun p hp =>
      Or.inl (Or.inl (mem_files_of_collect hbase hpaths (List.mem_filter.1 hp).1))

/-! ### Mutations -/

theorem record_eq (h : Records base o log) (hsame : SameChanges o o') (r : Route) (m : Mutation) :
    (o'.record r m.change).base = base ∧ (o'.record r m.change).entries = o'.entries ∧
      (o'.record r m.change).order = (log.mutate r m).firstChanges ∧
      ∀ q, (o'.record r m.change).changes[q]? =
        ((log.mutate r m).last? q).map (Mutation.change base.files[q]?) := by
  have hbase : o'.base = base := hsame.base.trans h.base_eq
  have hchange := h.changes_eq r
  have hothers : ∀ q, (o'.changes.insert r (m.change base.files[r]?))[q]? =
      ((log.mutate r m).last? q).map (Mutation.change base.files[q]?) := by
    intro q
    rw [hsame.changes, Std.ExtTreeMap.getElem?_insert, Log.last?_mutate, h.changes_eq]
    by_cases hq : r = q
    · simp [hq]
    · simp [hq]
  unfold record
  rw [hsame.changes, Log.firstChanges_mutate]
  cases hlast : log.last? r with
  | none =>
    rw [hlast] at hchange
    rw [hchange]
    refine ⟨hbase, rfl, ?_, ?_⟩
    · simp [hsame.order, h.order_eq]
    · simpa [baseContent, hbase, hsame.changes] using hothers
  | some earlier =>
    rw [hlast] at hchange
    rw [hchange]
    refine ⟨hbase, rfl, ?_, ?_⟩
    · simp [hsame.order, h.order_eq]
    · simpa [hsame.changes] using hothers

/-- A mutation is recorded once what it brings is remembered. -/
theorem Records.mutate (h : Records base o log) (hsame : SameChanges o o') {r : Route}
    (hr : r.IsPlace) {m : Mutation}
    (hmore : ∀ q, (log.mutate r m).Brings q → q ∈ o'.entries)
    (hless : ∀ q ∈ o'.entries, q ∈ o.entries ∨ (log.mutate r m).Brings q) :
    Records base (o'.record r m.change) (log.mutate r m) := by
  obtain ⟨hbase, hentries, horder, hchanges⟩ := record_eq h hsame r m
  refine ⟨hbase, hchanges, horder, ?_, ?_, ?_⟩
  · intro q hq
    rw [hentries] at hq
    rcases hless q hq with hq | hq
    · rcases h.reason q hq with hq | hq
      · exact Or.inl hq
      · right
        rcases hq with hq | ⟨w, hw, hq⟩ | hq
        · exact Or.inl (Log.wrote_mutate.2 (Or.inl hq))
        · exact Or.inr (Or.inl ⟨w, Log.wrote_mutate.2 (Or.inl hw), hq⟩)
        · exact Or.inr (Or.inr hq)
    · exact Or.inr hq
  · intro q hq
    rw [hentries]
    exact hmore q hq
  · intro e he
    rcases List.mem_append.1 he with he | he
    · exact h.places e he
    · exact List.mem_singleton.1 he ▸ hr

theorem Log.brings_deleted {r q : Route} : (log.mutate r .deleted).Brings q ↔ log.Brings q := by
  simp [Brings, wrote_mutate]

theorem Log.brings_written {r q : Route} {data : String} :
    (log.mutate r (.written data)).Brings q ↔ log.Brings q ∨ q = r ∨ q ∈ r.ancestors := by
  unfold Brings
  simp only [wrote_mutate, registered_mutate, ne_eq, reduceCtorEq, not_false_eq_true, and_true]
  constructor
  · rintro ((hq | rfl) | ⟨w, hw | rfl, hq⟩ | hq)
    · exact Or.inl (Or.inl hq)
    · exact Or.inr (Or.inl rfl)
    · exact Or.inl (Or.inr (Or.inl ⟨w, hw, hq⟩))
    · exact Or.inr (Or.inr hq)
    · exact Or.inl (Or.inr (Or.inr hq))
  · rintro ((hq | ⟨w, hw, hq⟩ | hq) | rfl | hq)
    · exact Or.inl (Or.inl hq)
    · exact Or.inr (Or.inl ⟨w, Or.inl hw, hq⟩)
    · exact Or.inr (Or.inr hq)
    · exact Or.inl (Or.inr rfl)
    · exact Or.inr (Or.inl ⟨r, Or.inr rfl, hq⟩)

theorem Records.delete (h : Records base o log) (p : Path) :
    Records base (o.delete p) (log.mutate p.route .deleted) := by
  unfold Overlay.delete
  simp only
  split
  all_goals
    refine Records.mutate (m := .deleted) h ?_ p.route_isPlace (fun q hq => ?_)
      fun q hq => Or.inl hq
    · exact ⟨rfl, rfl, rfl⟩
    · exact h.known q (Log.brings_deleted.1 hq)

theorem registerAncestors_eq (child : Route) (folders : List Route) (o : Overlay) :
    SameChanges o (o.registerAncestors child folders) ∧
      ∀ q, q ∈ (o.registerAncestors child folders).entries ↔ q ∈ o.entries ∨ q ∈ folders := by
  induction folders generalizing o child with
  | nil => exact ⟨sameChanges_refl o, by simp [registerAncestors]⟩
  | cons folder rest ih =>
    unfold registerAncestors
    simp only
    generalize hnext : ({ o with index := o.index.insert folder child } : Overlay) = next
    obtain ⟨hsame, hentries⟩ := ih folder (next.remember folder .directory)
    subst hnext
    refine ⟨⟨hsame.base, hsame.changes, hsame.order⟩, fun q => ?_⟩
    rw [hentries, mem_remember, List.mem_cons]
    constructor
    · rintro ((rfl | hq) | hq)
      · exact Or.inr (Or.inl rfl)
      · exact Or.inl hq
      · exact Or.inr (Or.inr hq)
    · rintro (hq | rfl | hq)
      · exact Or.inl (Or.inr hq)
      · exact Or.inl (Or.inl rfl)
      · exact Or.inr hq

theorem Records.write (h : Records base o log) (p : Path) (data : String) :
    Records base (o.write p data) (log.mutate p.route (.written data)) := by
  obtain ⟨hsame, hentries⟩ := registerAncestors_eq p.route p.route.ancestors o
  unfold Overlay.write
  simp only
  refine Records.mutate (m := .written data) h ?_ p.route_isPlace ?_ ?_
  · exact ⟨hsame.base, hsame.changes, hsame.order⟩
  · intro q hq
    rw [Std.ExtTreeMap.mem_insert, hentries, Std.compare_eq_iff_eq]
    rcases Log.brings_written.1 hq with hq | rfl | hq
    · exact Or.inr (Or.inl (h.known q hq))
    · exact Or.inl rfl
    · exact Or.inr (Or.inr hq)
  · intro q hq
    rw [Std.ExtTreeMap.mem_insert, hentries, Std.compare_eq_iff_eq] at hq
    rcases hq with rfl | hq | hq
    · exact Or.inr (Log.brings_written.2 (Or.inr (Or.inl rfl)))
    · exact Or.inl hq
    · exact Or.inr (Log.brings_written.2 (Or.inr (Or.inr hq)))

/-! ### Moves -/

theorem read_of_same (hsame : SameChanges o o') (p : Path) : o'.read p = o.read p := by
  unfold read
  rw [hsame.changes, hsame.base]

theorem isDeleted_of_same (hsame : SameChanges o o') (r : Route) : o'.isDeleted r = o.isDeleted r := by
  unfold isDeleted
  rw [hsame.changes]

theorem read_eq_ok_of_not_deleted {p : Path} (h : o.isDeleted p.route = false) :
    ∃ data, o.read p = .ok data := by
  unfold isDeleted at h
  unfold read
  split
  · exact ⟨_, rfl⟩
  · simp_all
  · split <;> exact ⟨_, rfl⟩

/-- **A move** fails, and then only has looked the file up, or deletes the file and writes what it
held to the other place. -/
theorem move_cases (o : Overlay) (source destination : Path) :
    (o.move source destination =
        (.error (if o.isDeleted source.route then .deleted source.normalize
          else .notFound source.normalize), (o.lookup source).2)) ∨
      ∃ data, o.read source = .ok data ∧ o.move source destination =
        (.ok (), ((o.lookup source).2.delete source).write destination data) := by
  have hsame := sameChanges_lookup o source
  have hcases := lookup_eq o source
  unfold move isKind
  generalize o.lookup source = looked at hsame hcases
  obtain ⟨found, o'⟩ := looked
  simp only at hsame ⊢
  cases hfound : found == some EntryKind.file with
  | false =>
    left
    simp only [isDeleted_of_same hsame]
    split <;> rfl
  | true =>
    right
    have hlive : o.isDeleted source.route = false := by
      rcases hcases with ⟨he, -⟩ | ⟨hlive, -⟩
      · obtain ⟨rfl, -⟩ := Prod.mk.inj he
        simp at hfound
      · exact hlive
    obtain ⟨data, hdata⟩ := read_eq_ok_of_not_deleted (p := source) hlive
    exact ⟨data, hdata, by simp only [read_of_same hsame, hdata]⟩

/-! ### Any sequence of operations -/

/-- **One operation** keeps the records. -/
theorem Records.perform (hbase : base.Placed) (h : Records base o log) (op : Op) :
    Records base (Overlay.perform (o, log) op).1 (Overlay.perform (o, log) op).2 := by
  cases op with
  | write p data => exact h.write p data
  | delete p => exact h.delete p
  | move source destination =>
    simp only [Overlay.perform, Op.after, Op.note]
    rcases move_cases o source destination with he | ⟨data, hdata, he⟩
    · rw [he]
      exact h.lookup source
    · rw [he, hdata]
      exact ((h.lookup source).delete source).write destination data
  | register paths =>
    have hmore : ∀ q, Log.Brings { log with registered := log.registered ++ paths.map Path.route } q ↔
        log.Brings q ∨ q ∈ paths.map Path.route := by
      intro q
      simp only [Log.Brings, Log.Wrote, List.mem_append, or_assoc]
    have hsame := sameChanges_register paths o
    refine ⟨hsame.base.trans h.base_eq, fun r => ?_, hsame.order.trans h.order_eq, ?_, ?_, h.places⟩
    · exact hsame.changes ▸ h.changes_eq r
    · intro q hq
      rcases (mem_register paths o q).1 hq with hq | hq
      · exact (h.reason q hq).imp id fun hb => (hmore q).2 (Or.inl hb)
      · exact Or.inr ((hmore q).2 (Or.inr hq))
    · intro q hq
      exact (mem_register paths o q).2 (((hmore q).1 hq).imp (h.known q) id)
  | lookup p => exact h.lookup p
  | isKind p kind => exact h.isKind p kind
  | contains p => exact h.contains p
  | list p => exact h.list p
  | read p => exact h
  | select root m => exact h.select hbase root m

/-- **Any sequence of operations** on a new overlay is recorded. -/
theorem records_run (hbase : base.Placed) (ops : List Op) :
    Records base (run base ops).1 (run base ops).2 := by
  induction ops using List.reverseRecOn with
  | nil => exact records_ofTree base
  | append_singleton ops op ih =>
    rw [run_append_one]
    exact ih.perform hbase op

end BulkEdit.Overlay
