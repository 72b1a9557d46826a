import BulkEdit.Proofs.FileTree.Operations

/-!
# Walking a tree

The walk from a folder is a scan of all files in path order. It is also what a descent finds that takes the
entries of each folder in path order (`filesBelow_folder`): all that stands below one entry comes before all
that stands below a later one (`Route.compare_of_siblings`).
-/

namespace BulkEdit

/-! ### Path order -/

namespace Route

/-- What stands below an entry of a folder comes before what stands below a later entry. -/
theorem compare_of_siblings {folder a b : Route} {x y : Component}
    (h : compare (folder ++ [x]) (folder ++ [y]) = .lt) (ha : folder ++ [x] <+: a)
    (hb : folder ++ [y] <+: b) : compare a b = .lt := by
  obtain ⟨more, rfl⟩ := ha
  obtain ⟨more', rfl⟩ := hb
  induction folder with
  | nil =>
    have hxy : compare x y = .lt := by
      rw [List.nil_append, List.nil_append, List.compare_cons_cons] at h
      cases hxy : compare x y <;> simp_all
    simp [List.compare_cons_cons, hxy]
  | cons c rest ih =>
    have hself : compare c c = .eq := Std.ReflCmp.compare_self
    simp only [List.cons_append, List.compare_cons_cons, hself, Ordering.eq_then] at h ⊢
    exact ih h

theorem nodup_of_ascending {l : List Route} (h : l.Pairwise fun a b => compare a b = .lt) : l.Nodup := by
  refine h.imp fun {a b} hab he => ?_
  have hself : compare b b = .eq := Std.ReflCmp.compare_self
  rw [he, hself] at hab
  cases hab

theorem eq_of_ascending {l l' : List Route} (h : l.Pairwise fun a b => compare a b = .lt)
    (h' : l'.Pairwise fun a b => compare a b = .lt) (hmem : ∀ r, r ∈ l ↔ r ∈ l') : l = l' := by
  refine List.Perm.eq_of_pairwise (fun a b _ _ hab hba => ?_) h h'
    ((List.perm_ext_iff_of_nodup (nodup_of_ascending h) (nodup_of_ascending h')).2 hmem)
  exact absurd hba (Std.OrientedCmp.not_lt_of_lt hab)

end Route

namespace FileTree

variable {t : FileTree}

/-- No file hides a folder of the same place. -/
def Unhidden (t : FileTree) : Prop :=
  ∀ r ∈ t.files, r ∉ t.folders

instance (t : FileTree) : Decidable t.Unhidden :=
  decidable_of_iff (∀ r ∈ t.files.keys, r ∉ t.folders) (by simp [Unhidden])

/-- The files at and below a place, in path order. -/
def filesBelow (t : FileTree) (r : Route) : List Route :=
  t.files.keys.filter (·.isBelow r)

theorem mem_filesBelow {r q : Route} : q ∈ t.filesBelow r ↔ q ∈ t.files ∧ r <+: q := by
  unfold filesBelow
  rw [List.mem_filter, Std.ExtTreeMap.mem_keys, Route.isBelow, List.isPrefixOf_iff_prefix]

theorem filesBelow_ascending (t : FileTree) (r : Route) :
    (t.filesBelow r).Pairwise fun a b => compare a b = .lt :=
  Std.ExtTreeMap.ordered_keys.filter _

theorem walk_eq_ok {p : Path} {routes : List Route} :
    t.walk p = .ok routes ↔ (p.route ∈ t.folders ∨ p.route ∈ t.files) ∧ routes = t.filesBelow p.route := by
  unfold walk
  split
  · rename_i hthere
    rw [and_iff_right hthere, Except.ok.injEq, eq_comm, filesBelow]
  · rename_i hmissing
    exact iff_of_false (fun h => by cases h) fun h => hmissing h.1

theorem kindAt?_of_mem_files {r : Route} (h : r ∈ t.files) : t.kindAt? r = some .file :=
  if_pos h

theorem Unhidden.kindAt?_of_mem_folders (hunhidden : t.Unhidden) {r : Route} (h : r ∈ t.folders) :
    t.kindAt? r = some .directory := by
  rw [kindAt?, if_neg fun hfile => hunhidden r hfile h, if_pos h]

theorem Built.mem_folders_of_ancestor (h : t.Built) {r a : Route} (hr : r ∈ t.files)
    (ha : a ∈ r.ancestors) : a ∈ t.folders := by
  cases hfolder : r.folder? with
  | none =>
    rw [(h.placed.files r hr).ancestors_of_folder?_none hfolder] at ha
    cases ha
  | some folder =>
    have hin := h.housed r hr folder hfolder
    rw [Route.ancestors_of_folder? hfolder] at ha
    rcases List.mem_cons.1 ha with rfl | ha
    · exact hin
    · exact h.closed folder hin a ha

theorem filesBelow_file (h : t.Built) (hunhidden : t.Unhidden) {r : Route} (hr : r ∈ t.files)
    (hne : r ≠ []) : t.filesBelow r = [r] := by
  refine Route.eq_of_ascending (t.filesBelow_ascending r) (List.pairwise_singleton ..) fun q => ?_
  rw [mem_filesBelow, List.mem_singleton]
  constructor
  · rintro ⟨hq, hbelow⟩
    by_contra hother
    have habove : r ∈ q.ancestors := Route.mem_ancestors.2 ⟨hne, hbelow, Ne.symm hother⟩
    exact hunhidden r hr (h.mem_folders_of_ancestor hq habove)
  · rintro rfl
    exact ⟨hr, List.prefix_refl _⟩

/-- How far down a tree goes. -/
theorem exists_height (t : FileTree) : ∃ height, ∀ r, t.Holds r → r.length ≤ height := by
  refine ⟨((t.files.keys ++ t.folders.toList).map List.length).max?.getD 0, fun r hr => ?_⟩
  refine List.le_max?_getD_of_mem (List.mem_map_of_mem (List.mem_append.2 ?_))
  exact hr.imp Std.ExtTreeMap.mem_keys.2 Std.ExtTreeSet.mem_toList.2

/-- The entries of a folder in path order. -/
structure Children (t : FileTree) (folder : Route) (children : List Route) : Prop where
  ascending : children.Pairwise fun a b => compare a b = .lt
  mem_iff : ∀ c, c ∈ children ↔ t.Holds c ∧ c.parent? = some folder

/-- The next step towards a file below a folder is an entry of it. -/
theorem exists_child (h : t.Built) {folder q : Route} (hne : folder ≠ []) (hq : q ∈ t.files)
    (hbelow : folder <+: q) (hother : folder ≠ q) :
    ∃ c, t.Holds c ∧ c.parent? = some folder ∧ c <+: q := by
  obtain ⟨more, rfl⟩ := hbelow
  cases more with
  | nil => exact absurd (by simp) hother
  | cons x rest =>
    have hplace := h.placed.files _ hq
    have hx : x ≠ .root := by
      rintro rfl
      obtain ⟨c, tail, rfl⟩ := List.exists_cons_of_ne_nil hne
      exact hplace.root_not_mem_tail (by simp)
    have hnext : folder ++ [x] <+: folder ++ x :: rest := ⟨rest, by simp⟩
    refine ⟨folder ++ [x], ?_, Route.parent?_append hx, hnext⟩
    by_cases hlast : folder ++ [x] = folder ++ x :: rest
    · exact Or.inl (hlast ▸ hq)
    · exact Or.inr (h.mem_folders_of_ancestor hq (Route.mem_ancestors.2 ⟨by simp, hnext, hlast⟩))

/-- **The walk from a folder** is made of the walks from its entries, one after the other. -/
theorem filesBelow_folder (h : t.Built) (hunhidden : t.Unhidden) {folder : Route}
    (hfolder : folder ∈ t.folders) (hne : folder ≠ []) {children : List Route}
    (hchildren : t.Children folder children) :
    t.filesBelow folder = children.flatMap t.filesBelow := by
  refine Route.eq_of_ascending (t.filesBelow_ascending folder) ?_ fun q => ?_
  · refine List.pairwise_flatMap.2 ⟨fun c _ => t.filesBelow_ascending c, ?_⟩
    refine hchildren.ascending.imp_of_mem fun {a b} ha hb hab q hq q' hq' => ?_
    obtain ⟨x, -, rfl⟩ := Route.parent?_eq_some ((hchildren.mem_iff a).1 ha).2
    obtain ⟨y, -, rfl⟩ := Route.parent?_eq_some ((hchildren.mem_iff b).1 hb).2
    exact Route.compare_of_siblings hab (mem_filesBelow.1 hq).2 (mem_filesBelow.1 hq').2
  · simp only [List.mem_flatMap, mem_filesBelow]
    constructor
    · rintro ⟨hq, hbelow⟩
      have hother : folder ≠ q := fun he => hunhidden q hq (he ▸ hfolder)
      obtain ⟨c, hc, hparent, hnext⟩ := exists_child h hne hq hbelow hother
      exact ⟨c, (hchildren.mem_iff c).2 ⟨hc, hparent⟩, hq, hnext⟩
    · rintro ⟨c, hc, hq, hbelow⟩
      obtain ⟨x, -, rfl⟩ := Route.parent?_eq_some ((hchildren.mem_iff c).1 hc).2
      exact ⟨hq, (List.prefix_append ..).trans hbelow⟩

end FileTree

end BulkEdit
