import BulkEdit.Proofs.Overlay.Listing

/-!
# Reaching the files of an overlay

A file that was written is reached from the root if every folder on the way is one to the overlay and lists
the next step. The listing never fails, unless the next step is deleted. Whether a place above the file is
a folder depends on what has been remembered of it: it is none if it was written or deleted itself, and it
is one if nothing ever spoke for a file there (`written_reached`). So a file that was deleted hides the
folder that takes its place (`written_not_reached`).
-/

namespace BulkEdit.Overlay

variable {base : FileTree} {o o' : Overlay} {log : Log}

/-! ### What is remembered of a place -/

/-- **What is remembered has a reason.** What counts as a file is one of the tree, or was written, or was
taken for granted; what counts as a folder was never written. -/
structure Recalls (base : FileTree) (o : Overlay) (log : Log) : Prop where
  file : ∀ r : Route, o.entries[r]? = some .file →
    r ∈ base.files ∨ log.Wrote r ∨ r ∈ log.registered
  folder : ∀ r : Route, o.entries[r]? = some .directory → ¬ log.Wrote r

theorem recalls_ofTree (base : FileTree) : Recalls base (ofTree base) {} where
  file r h := by simp [ofTree] at h
  folder r h := by simp [ofTree] at h

theorem getElem?_remember {r q : Route} {kind : EntryKind} : (o.remember r kind).entries[q]? =
    if r = q ∧ r ∉ o.entries then some kind else o.entries[q]? := by
  simp [remember, Std.ExtTreeMap.getElem?_insertIfNew]

theorem Recalls.remember (h : Recalls base o log) {r : Route} {kind : EntryKind}
    (hfile : kind = .file → r ∈ base.files ∨ log.Wrote r ∨ r ∈ log.registered)
    (hfolder : kind = .directory → r ∉ o.entries → ¬ log.Wrote r) :
    Recalls base (o.remember r kind) log := by
  refine ⟨fun q hq => ?_, fun q hq => ?_⟩
  all_goals
    rw [getElem?_remember] at hq
    split at hq
  · rename_i hnew
    exact hnew.1 ▸ hfile (Option.some.inj hq)
  · exact h.file q hq
  · rename_i hnew
    exact hnew.1 ▸ hfolder (Option.some.inj hq) hnew.2
  · exact h.folder q hq

theorem Records.not_wrote (hr : Records base o log) {r : Route} (h : r ∉ o.entries) : ¬ log.Wrote r :=
  fun hw => h (hr.known r (Or.inl hw))

theorem Recalls.lookup (h : Recalls base o log) (hr : Records base o log) (p : Path) :
    Recalls base (o.lookup p).2 log := by
  unfold Overlay.lookup
  dsimp only
  split
  · exact h
  · split
    · exact h
    · split
      · exact h
      · rename_i kind hkind
        refine h.remember (fun hfile => Or.inl ?_) fun _ => hr.not_wrote
        subst hfile
        rw [hr.base_eq, FileTree.kindAt?] at hkind
        by_contra hnot
        rw [if_neg hnot] at hkind
        split at hkind <;> cases hkind

theorem Recalls.register (h : Recalls base o log) {paths : List Path}
    (hpaths : ∀ p ∈ paths, p.route ∈ base.files ∨ log.Wrote p.route ∨ p.route ∈ log.registered) :
    Recalls base (o.register paths) log := by
  unfold Overlay.register
  induction paths generalizing o with
  | nil => exact h
  | cons p rest ih =>
    exact ih (h.remember (fun _ => hpaths p (List.mem_cons_self ..)) nofun)
      fun q hq => hpaths q (List.mem_cons_of_mem _ hq)

theorem Recalls.select (hbase : base.Placed) (h : Recalls base o log) (hr : Records base o log)
    (root : Path) (m : Matcher) : Recalls base (o.select root m).2 log := by
  unfold Overlay.select
  split
  · exact h
  · rename_i paths hpaths
    rw [hr.base_eq] at hpaths
    exact h.register fun p hp => Or.inl (mem_files_of_collect hbase hpaths (List.mem_filter.1 hp).1)

theorem Recalls.list (h : Recalls base o log) (hr : Records base o log) (p : Path) :
    Recalls base (o.list p).2 log := by
  unfold Overlay.list
  dsimp only
  rw [hr.base_eq]
  cases hok : base.list p with
  | error e => exact h
  | ok listed =>
    have hlisted : ∀ e ∈ listed, base.Holds e.1 ∧ (e.2 = .file → e.1 ∈ base.files) := by
      intro e he
      obtain ⟨-, ⟨hin, hkind⟩ | ⟨hin, hkind⟩⟩ := (FileTree.mem_of_list_eq_ok hok e.1 e.2).1 he
      · exact ⟨Or.inr hin, fun hfile => by rw [hkind] at hfile; cases hfile⟩
      · exact ⟨Or.inl hin, fun _ => hin⟩
    clear hok
    induction listed generalizing o with
    | nil => exact h
    | cons entry rest ih =>
      obtain ⟨hheld, hfile⟩ := hlisted entry (List.mem_cons_self ..)
      have hnext : Recalls base (Overlay.takeListed p.route o entry) log := by
        unfold Overlay.takeListed
        dsimp only
        split
        · exact ⟨h.file, h.folder⟩
        · have hseen := h.remember (fun hk => Or.inl (hfile hk)) fun _ => hr.not_wrote
          exact ⟨hseen.file, hseen.folder⟩
      exact ih hnext (hr.takeListed hheld) fun e he => hlisted e (List.mem_cons_of_mem _ he)

/-! ### Mutations -/

theorem entries_record (o : Overlay) (r : Route) (change : Option String → Change) :
    (o.record r change).entries = o.entries := by
  unfold record
  split <;> rfl

theorem entries_delete (o : Overlay) (p : Path) : (o.delete p).entries = o.entries := by
  unfold Overlay.delete
  dsimp only
  rw [entries_record]
  split <;> rfl

theorem getElem?_registerAncestors (child : Route) (folders : List Route) (q : Route) :
    (o.registerAncestors child folders).entries[q]? =
      if q ∈ folders ∧ q ∉ o.entries then some .directory else o.entries[q]? := by
  induction folders generalizing o child with
  | nil => simp [registerAncestors]
  | cons folder rest ih =>
    simp only [registerAncestors, ih, mem_remember, getElem?_remember, List.mem_cons]
    grind

/-- After a file is written, it counts as a file and the new places above it as folders. -/
theorem getElem?_write (p : Path) (data : String) (q : Route) : (o.write p data).entries[q]? =
    if p.route = q then some .file
    else if q ∈ p.route.ancestors ∧ q ∉ o.entries then some .directory else o.entries[q]? := by
  unfold Overlay.write
  dsimp only
  rw [entries_record, Std.ExtTreeMap.getElem?_insert, getElem?_registerAncestors]
  simp

theorem Recalls.delete (h : Recalls base o log) (p : Path) :
    Recalls base (o.delete p) (log.mutate p.route .deleted) := by
  refine ⟨fun q hq => ?_, fun q hq => ?_⟩
  all_goals
    rw [entries_delete] at hq
    simp only [Log.wrote_mutate, ne_eq, not_true_eq_false, and_false, or_false]
  · exact h.file q hq
  · exact h.folder q hq

theorem Recalls.write (h : Recalls base o log) (hr : Records base o log) (p : Path) (data : String) :
    Recalls base (o.write p data) (log.mutate p.route (.written data)) := by
  refine ⟨fun q hq => ?_, fun q hq => ?_⟩
  all_goals
    rw [getElem?_write] at hq
    rw [Log.wrote_mutate]
    split at hq
  · rename_i hsame
    exact Or.inr (Or.inl (Or.inr ⟨hsame, nofun⟩))
  · split at hq
    · cases hq
    · rcases h.file q hq with hq | hq | hq
      · exact Or.inl hq
      · exact Or.inr (Or.inl (Or.inl hq))
      · exact Or.inr (Or.inr hq)
  · cases hq
  · rename_i hother
    rintro (hw | ⟨hsame, -⟩)
    · split at hq
      · rename_i hnew
        exact hr.not_wrote hnew.2 hw
      · exact h.folder q hq hw
    · exact hother hsame

/-- **One operation** keeps the reasons. -/
theorem Recalls.perform (hbase : base.Placed) (h : Recalls base o log) (hr : Records base o log)
    (op : Op) : Recalls base (Overlay.perform (o, log) op).1 (Overlay.perform (o, log) op).2 := by
  cases op with
  | write p data => exact h.write hr p data
  | delete p => exact h.delete p
  | move source destination =>
    simp only [Overlay.perform, Op.after, Op.note]
    have hlooked := h.lookup hr source
    rcases move_cases o source destination with he | ⟨data, hdata, he⟩
    · rw [he]
      exact hlooked
    · rw [he, hdata]
      exact (hlooked.delete source).write ((hr.lookup source).delete source) destination data
  | register paths =>
    have hmore : Recalls base o { log with registered := log.registered ++ paths.map Path.route } := by
      refine ⟨fun r hr => ?_, h.folder⟩
      rcases h.file r hr with hr | hr | hr
      · exact Or.inl hr
      · exact Or.inr (Or.inl hr)
      · exact Or.inr (Or.inr (List.mem_append_left _ hr))
    exact hmore.register fun p hp =>
      Or.inr (Or.inr (List.mem_append_right _ (List.mem_map_of_mem hp)))
  | lookup p => exact h.lookup hr p
  | isKind p kind => exact h.lookup hr p
  | contains p => exact h.lookup hr p
  | list p => exact h.list hr p
  | read p => exact h
  | select root m => exact h.select hbase hr root m

/-- **Any sequence of operations** on a new overlay keeps the reasons. -/
theorem recalls_run (hbase : base.Placed) (ops : List Op) :
    Recalls base (run base ops).1 (run base ops).2 := by
  induction ops using List.reverseRecOn with
  | nil => exact recalls_ofTree base
  | append_singleton ops op ih =>
    rw [run_append_one]
    exact ih.perform hbase (records_run hbase ops) op

/-! ### Folders -/

theorem Log.mem_of_last? {r : Route} {m : Mutation} (h : log.last? r = some m) :
    (r, m) ∈ log.mutations := by
  unfold last? at h
  obtain ⟨before, after, hsplit, -⟩ := List.lookup_eq_some_iff.1 h
  exact List.mem_reverse.1 (by rw [hsplit]; simp)

theorem Log.wrote_of_last? {r : Route} {data : String} (h : log.last? r = some (.written data)) :
    log.Wrote r :=
  ⟨data, mem_of_last? h⟩

/-- A place that is not deleted and is remembered as a folder. -/
def IsFolder (o : Overlay) (r : Route) : Prop :=
  o.isDeleted r = false ∧ o.entries[r]? = some .directory

theorem lookup_of_mem {p : Path} (h : p.route ∈ o.entries) :
    o.lookup p = (if o.isDeleted p.route then none else o.entries[p.route]?, o) := by
  unfold lookup
  cases hk : o.entries[p.route]? with
  | none => exact absurd h (by simpa using hk)
  | some kind =>
    simp only [hk]
    split <;> rfl

theorem isKind_directory_iff {p : Path} (h : p.route ∈ o.entries) :
    (o.isKind p .directory).1 = true ↔ o.IsFolder p.route := by
  unfold isKind IsFolder
  rw [lookup_of_mem h]
  dsimp only
  cases o.isDeleted p.route <;> simp

theorem Records.mem_entries_of_wrote (hr : Records base o log) {r a : Route} (hw : log.Wrote r)
    (ha : a ∈ r.ancestors) : a ∈ o.entries :=
  hr.known a (Or.inr (Or.inl ⟨r, hw, ha⟩))

/-- **A folder above a written file** is none if it was itself written or deleted; and it is one else, unless
something spoke for a file. -/
theorem Recalls.isFolder_iff (h : Recalls base o log) (hr : Records base o log) {r a : Route}
    (hw : log.Wrote r) (ha : a ∈ r.ancestors) :
    (o.IsFolder a → log.last? a ≠ some .deleted ∧ ¬ log.Wrote a) ∧
      (log.last? a ≠ some .deleted → ¬ log.Wrote a → a ∉ base.files → a ∉ log.registered →
        o.IsFolder a) := by
  have hlive : o.isDeleted a = false ↔ log.last? a ≠ some .deleted := by
    rw [← Bool.not_eq_true, ne_eq, hr.isDeleted_iff]
  refine ⟨fun hf => ⟨hlive.1 hf.1, h.folder a hf.2⟩, fun hl hnot hfile hregistered => ?_⟩
  refine ⟨hlive.2 hl, ?_⟩
  have hseen := hr.mem_entries_of_wrote hw ha
  cases hk : o.entries[a]? with
  | none => exact absurd hseen (by simpa using hk)
  | some kind =>
    cases kind with
    | directory => rfl
    | file => exact absurd (h.file a hk) (by simp [hfile, hnot, hregistered])

/-! ### Walking down -/

/-- Walks down from a folder, one component after another: each folder on the way is asked whether it is
one, and is listed. Tells whether all steps are found. -/
def descend (o : Overlay) (folder : Route) : List Component → Bool × Overlay
  | [] => (true, o)
  | c :: rest =>
    let (isFolder, o) := o.isKind folder.toPath .directory
    let (listing, o) := o.list folder.toPath
    if isFolder && listing.contains (folder ++ [c]) then o.descend (folder ++ [c]) rest
    else (false, o)

theorem isFolder_list {p : Path} {r : Route} (h : r ∈ o.entries) :
    (o.list p).2.IsFolder r ↔ o.IsFolder r := by
  unfold IsFolder
  have hkeeps : ∀ (folder : Route) (listed : List (Route × EntryKind)) (o : Overlay), r ∈ o.entries →
      (listed.foldl (takeListed folder) o).isDeleted r = o.isDeleted r ∧
        (listed.foldl (takeListed folder) o).entries[r]? = o.entries[r]? := by
    intro folder listed
    induction listed with
    | nil => exact fun o _ => ⟨rfl, rfl⟩
    | cons entry rest ih =>
      intro o hr
      obtain ⟨hd, he⟩ := ih (takeListed folder o entry) (mem_takeListed (Or.inl hr))
      rw [List.foldl_cons, hd, he, isDeleted_takeListed]
      refine ⟨rfl, ?_⟩
      unfold takeListed
      dsimp only
      split
      · rfl
      · rw [getElem?_remember]
        grind
  unfold Overlay.list
  dsimp only
  split
  · rename_i listed _
    obtain ⟨hd, he⟩ := hkeeps p.route listed o h
    rw [hd, he]
  · rfl

/-- **A folder lists the next step** to a written file unless that is deleted. -/
theorem Indexes.mem_list_iff (h : Indexes base o log) (hr : Records base o log) {p c : Route}
    {q : Path} (hw : log.Wrote p) (hc : c = p ∨ c ∈ p.ancestors) (hfolder : c.folder? = some q.route) :
    c ∈ (o.list q).1 ↔ log.last? c ≠ some .deleted := by
  obtain ⟨hparent, -⟩ := Option.filter_eq_some_iff.1 hfolder
  have hpopulates : log.Wrote c ∨ ∃ q, log.Wrote q ∧ c ∈ q.ancestors :=
    hc.elim (fun he => Or.inl (he ▸ hw)) fun ha => Or.inr ⟨p, hw, ha⟩
  rw [(h.lists hr (Route.folder?_eq_some hfolder).1).mem_iff]
  exact ⟨fun hall => hall.2.1, fun hl => ⟨hparent, hl, Or.inr hpopulates⟩⟩

/-- What stands on the way from a folder to a place is the folder, or stands beyond the next step. -/
theorem eq_or_next_initial {folder a p : Route} {c : Component} {rest : List Component}
    (ha : folder <+: a) (hp : p = folder ++ [c] ++ rest) (hin : a ∈ p.ancestors) :
    folder = a ∨ folder ++ [c] <+: a := by
  obtain ⟨-, hbelow, -⟩ := Route.mem_ancestors.1 hin
  obtain ⟨tail, rfl⟩ := ha
  cases tail with
  | nil => exact Or.inl (by simp)
  | cons d more =>
    right
    rw [hp, List.append_assoc, List.prefix_append_right_inj, List.singleton_append,
      List.cons_prefix_cons] at hbelow
    rw [List.prefix_append_right_inj, hbelow.1]
    simp

/-- **A walk finds a written file** if all the places above it are folders, from the first one on. -/
theorem Indexes.descend_iff (h : Indexes base o log) (hr : Records base o log) {p : Route}
    (hp : p.IsPlace) (hw : log.Wrote p) (hlive : log.last? p ≠ some .deleted) {folder : Route}
    (hne : folder ≠ []) {rest : List Component} (hrest : p = folder ++ rest) :
    (o.descend folder rest).1 = true ↔ ∀ a, folder <+: a → a ∈ p.ancestors → o.IsFolder a := by
  induction rest generalizing o folder with
  | nil =>
    rw [List.append_nil] at hrest
    simp only [descend, true_iff]
    intro a hpre ha
    obtain ⟨-, hbelow, hself⟩ := Route.mem_ancestors.1 ha
    exact absurd (hbelow.eq_of_length_le (hrest ▸ hpre.length_le)) hself
  | cons c rest ih =>
    have hfolder : folder ∈ p.ancestors :=
      Route.mem_ancestors.2 ⟨hne, ⟨c :: rest, hrest.symm⟩, by simp [hrest]⟩
    have hplace : folder.IsPlace := hp.of_mem_ancestors hfolder
    have hroute := hplace.route_toPath
    have hseen : folder.toPath.route ∈ o.entries := by
      rw [hroute]
      exact hr.mem_entries_of_wrote hw hfolder
    have hsplit : p = folder ++ [c] ++ rest := by simp [hrest]
    have hnext : folder ++ [c] = p ∨ folder ++ [c] ∈ p.ancestors := by
      by_cases he : folder ++ [c] = p
      · exact Or.inl he
      · exact Or.inr (Route.mem_ancestors.2 ⟨by simp, ⟨rest, hsplit.symm⟩, he⟩)
    have hstep : (folder ++ [c]).folder? = some folder.toPath.route := by
      rw [hroute]
      refine Route.folder?_append hne ?_
      rintro rfl
      obtain ⟨d, more, rfl⟩ := List.exists_cons_of_ne_nil hne
      exact hp.root_not_mem_tail (by simp [hrest])
    have hlisted := h.mem_list_iff hr hw hnext hstep
    have hkind := isKind_directory_iff hseen
    have hsame : (o.isKind folder.toPath .directory).2 = o := by
      unfold isKind
      rw [lookup_of_mem hseen]
    have hwalk := ih (h.list hr folder.toPath) (hr.list folder.toPath) (by simp) hsplit
    rw [hroute] at hkind
    have hfound : (o.descend folder (c :: rest)).1 = true ↔ o.IsFolder folder ∧
        log.last? (folder ++ [c]) ≠ some .deleted ∧
        ((o.list folder.toPath).2.descend (folder ++ [c]) rest).1 = true := by
      rw [← hkind, ← hlisted, descend]
      generalize o.isKind folder.toPath .directory = asked at hsame ⊢
      obtain ⟨isFolder, after⟩ := asked
      obtain rfl : after = o := hsame
      dsimp only
      split
      · rename_i hboth
        rw [Bool.and_eq_true, List.contains_iff_mem] at hboth
        simp [hboth]
      · rename_i hboth
        rw [Bool.and_eq_true, List.contains_iff_mem, not_and] at hboth
        simp only [Bool.false_eq_true, false_iff, not_and]
        exact fun hf hin => absurd hin (hboth hf)
    rw [hfound, hwalk]
    constructor
    · rintro ⟨hself, -, hbelow⟩ a ha hin
      rcases eq_or_next_initial ha hsplit hin with rfl | hmore
      · exact hself
      · exact (isFolder_list (hr.mem_entries_of_wrote hw hin)).1 (hbelow a hmore hin)
    · intro hall
      refine ⟨hall folder (List.prefix_refl _) hfolder, ?_, fun a ha hin => ?_⟩
      · rcases hnext with he | hin
        · rwa [he]
        · have hf := hall _ (List.prefix_append ..) hin
          rw [ne_eq, ← hr.isDeleted_iff, hf.1]
          simp
      · exact (isFolder_list (hr.mem_entries_of_wrote hw hin)).2
          (hall a ((List.prefix_append ..).trans ha) hin)

/-! ### Written files -/

/-- **How far a file that was written last is reached.** -/
structure Reached (base : FileTree) (o : Overlay) (log : Log) (p : Path) : Prop where
  /-- A place above the file lists the next step to it, unless that step is deleted. -/
  listed_iff : ∀ (q : Path) (c : Route), c.folder? = some q.route →
    (c = p.route ∨ c ∈ p.route.ancestors) →
      (c ∈ (o.list q).1 ↔ log.last? c ≠ some .deleted)
  /-- A place above the file is no folder if it was deleted last, or written at any time. -/
  not_folder : ∀ q : Path, q.route ∈ p.route.ancestors →
    (log.last? q.route = some .deleted ∨ log.Wrote q.route) → (o.isKind q .directory).1 = false
  /-- Otherwise it is a folder, unless the tree has a file there or a file was taken for granted. -/
  folder : ∀ q : Path, q.route ∈ p.route.ancestors → log.last? q.route ≠ some .deleted →
    ¬ log.Wrote q.route → q.route ∉ base.files → q.route ∉ log.registered →
      (o.isKind q .directory).1 = true
  /-- A walk from the root finds the file exactly if all the places above it are folders. -/
  walk_iff : (o.descend [.root] p.route.tail).1 = true ↔
    ∀ q : Path, q.route ∈ p.route.ancestors → (o.isKind q .directory).1 = true

/-- **Files that are written are reached**, after any sequence of operations over any tree, as far as no
place above them was itself written or deleted, or is a file. -/
theorem written_reached (base : FileTree) (hbase : base.Built) (ops : List Op) (p : Path)
    (hp : p.isAbsolute = true) (data : String)
    (hlast : (run base ops).2.last? p.route = some (.written data)) :
    Reached base (run base ops).1 (run base ops).2 p := by
  have hr := records_run hbase.placed ops
  have hi := indexes_run hbase.placed ops
  have hk := recalls_run hbase.placed ops
  generalize (run base ops).1 = o at hr hi hk ⊢
  generalize (run base ops).2 = log at hlast hr hi hk ⊢
  have hw : log.Wrote p.route := Log.wrote_of_last? hlast
  have hkind : ∀ q : Path, q.route ∈ p.route.ancestors →
      ((o.isKind q .directory).1 = true ↔ o.IsFolder q.route) :=
    fun q hq => isKind_directory_iff (hr.mem_entries_of_wrote hw hq)
  refine ⟨fun q c hfolder hc => hi.mem_list_iff hr hw hc hfolder, fun q hq hbad => ?_,
    fun q hq hlive hnot hfile hregistered => ?_, ?_⟩
  · rw [← Bool.not_eq_true, hkind q hq]
    intro hf
    obtain ⟨hlive, hnot⟩ := (hk.isFolder_iff hr hw hq).1 hf
    exact hbad.elim hlive hnot
  · rw [hkind q hq]
    exact (hk.isFolder_iff hr hw hq).2 hlive hnot hfile hregistered
  · obtain ⟨rest, hrest⟩ := List.head?_eq_some_iff.1 (Path.head?_route hp)
    have hroot : p.route = [.root] ++ p.route.tail := by rw [hrest]; rfl
    have hlive : log.last? p.route ≠ some .deleted := by
      rw [hlast]
      nofun
    rw [hi.descend_iff hr p.route_isPlace hw hlive (by simp) hroot]
    constructor
    · intro hall q hq
      refine (hkind q hq).2 (hall _ ?_ hq)
      obtain ⟨hne, hbelow, -⟩ := Route.mem_ancestors.1 hq
      obtain ⟨c, more, hcons⟩ := List.exists_cons_of_ne_nil hne
      rw [hcons, hrest, List.cons_prefix_cons] at hbelow
      rw [hcons, hbelow.1]
      simp
    · intro hall a _ ha
      have hroute := (p.route_isPlace.of_mem_ancestors ha).route_toPath
      have hin : (Route.toPath a).route ∈ p.route.ancestors := by rwa [hroute]
      have hf := (hkind (Route.toPath a) hin).1 (hall (Route.toPath a) hin)
      rwa [hroute] at hf

/-- A file is moved into a folder of its own two levels down, beside one that was deleted, and then
looked for. -/
theorem written_reached_moved :
    let base := FileTree.ofFiles [(⟨"/p/a"⟩, "x"), (⟨"/p/b"⟩, "y")]
    let ops : List Op := [.list ⟨"/"⟩, .delete ⟨"/p/b"⟩, .move ⟨"/p/a"⟩ ⟨"/p/c/./d/a"⟩]
    base.Built ∧ (⟨"/p/c/d/a"⟩ : Path).isAbsolute = true ∧
      (run base ops).2.last? (⟨"/p/c/d/a"⟩ : Path).route = some (.written "x") ∧
      Reached base (run base ops).1 (run base ops).2 ⟨"/p/c/d/a"⟩ := by
  intro base ops
  have hlast : (run base ops).2.last? (⟨"/p/c/d/a"⟩ : Path).route = some (.written "x") := by
    decide +kernel
  exact ⟨.ofFiles _, by decide, hlast, written_reached base (.ofFiles _) ops _ (by decide) "x" hlast⟩

/-- **A file that was written need not be reached.** A file is deleted, and a folder of its name gets a
file: the folder is none to the overlay, its own folder does not list it, and a walk does not find the
file. Nor is a folder one whose place was looked up as a file of the tree before. -/
theorem written_not_reached :
    let base := FileTree.ofFiles [(⟨"/a"⟩, "x")]
    let replaced := run base [.delete ⟨"/a"⟩, .write ⟨"/a/b"⟩ "y"]
    let hidden := run base [.contains ⟨"/a"⟩, .write ⟨"/a/b"⟩ "y"]
    replaced.2.last? (⟨"/a/b"⟩ : Path).route = some (.written "y") ∧
      (replaced.1.isKind ⟨"/a"⟩ .directory).1 = false ∧ (replaced.1.list ⟨"/"⟩).1 = [] ∧
      (replaced.1.descend [.root] (⟨"/a/b"⟩ : Path).route.tail).1 = false ∧
      hidden.2.last? (⟨"/a/b"⟩ : Path).route = some (.written "y") ∧
      (hidden.1.isKind ⟨"/a"⟩ .directory).1 = false := by
  decide +kernel

end BulkEdit.Overlay
