import BulkEdit.Proofs.Command.Growth
import BulkEdit.Proofs.Run.Patch

/-!
# Carrying out a difference

The difference of two snapshots lists the files that are gone and those whose contents differ. Where the
second tree has grown out of the first, its commands can be carried out in their order, and leave the
files of the second tree (`carryOut_diff`): what is gone is deleted first, and in path order a folder
comes before what is in it.
-/

namespace BulkEdit

theorem Route.compare_of_mem_ancestors {a r : Route} (h : a ∈ r.ancestors) : compare a r = .lt := by
  obtain ⟨-, ⟨tail, rfl⟩, hne⟩ := Route.mem_ancestors.1 h
  clear h
  induction a with
  | nil =>
    cases tail with
    | nil => exact absurd rfl hne
    | cons c rest => rfl
  | cons c rest ih =>
    have hrest : rest ≠ rest ++ tail := fun he => hne (by rw [List.cons_append, ← he])
    have hself : compare c c = .eq := Std.ReflCmp.compare_self
    rw [List.cons_append, List.compare_cons_cons, hself]
    exact ih hrest

namespace Snapshot

variable {before current : Snapshot} {t t' t₀ t₁ : FileTree} {p : Path} {data : String}

/-! ### What a difference lists -/

theorem mem_missing {removed : Std.ExtTreeSet Path} (hbefore : before.Shows t)
    (hcurrent : current.Shows t') (hp : p ∈ missing before removed current) :
    p.components ∈ t.files ∧ p.components ∉ t'.files := by
  rw [← hbefore.mem_iff, ← hcurrent.mem_iff]
  exact of_mem_missing hp

theorem exists_missing {removed : Std.ExtTreeSet Path} (hbefore : before.Shows t)
    (hcurrent : current.Shows t') {r : Route} (hplace : r.IsPlace) (hr : r ∈ t.files)
    (hgone : r ∉ t'.files) : ∃ p ∈ missing before removed current, p.components = r := by
  have hspelled := hplace.components_toPath
  have hin : r.toPath ∈ before := by rwa [hbefore.mem_iff, hspelled]
  have hout : r.toPath ∉ current := by rwa [hcurrent.mem_iff, hspelled]
  obtain ⟨p, hp, hsame⟩ := exists_mem_missing removed hin hout
  exact ⟨p, hp, hsame.trans hspelled⟩

theorem mem_map_missing {removed : Std.ExtTreeSet Path} (hbefore : before.Shows t)
    (hcurrent : current.Shows t') (hplaced : t.Placed) {r : Route} :
    r ∈ (missing before removed current).map Path.route ↔ r ∈ t.files ∧ r ∉ t'.files := by
  constructor
  · intro hr
    obtain ⟨p, hp, rfl⟩ := List.mem_map.1 hr
    obtain ⟨hin, hout⟩ := mem_missing hbefore hcurrent hp
    rw [Path.route_of_isPlace (hplaced.files _ hin)]
    exact ⟨hin, hout⟩
  · rintro ⟨hin, hout⟩
    obtain ⟨p, hp, rfl⟩ := exists_missing hbefore hcurrent (hplaced.files r hin) hin hout
    exact List.mem_map.2 ⟨p, hp, Path.route_of_isPlace (hplaced.files _ hin)⟩

theorem pairwise_missing (before current : Snapshot) (removed : Std.ExtTreeSet Path) :
    (missing before removed current).Pairwise fun p q => p.components ≠ q.components :=
  components_ne_of_ascending (ascending_missing before current removed)

theorem mem_toList (h : current.Shows t) (hp : (p, data) ∈ current.toList) :
    t.files[p.components]? = some data := by
  rw [← h p]
  exact getElem?_of_mem_toList hp

theorem mem_map_toList (h : current.Shows t) (hplaced : t.Placed) {r : Route} :
    r ∈ current.toList.map (fun e => e.1.components) ↔ r ∈ t.files := by
  constructor
  · intro hr
    obtain ⟨e, he, rfl⟩ := List.mem_map.1 hr
    exact FileTree.mem_files_of_getElem? (mem_toList h he)
  · intro hr
    have hspelled := (hplaced.files r hr).components_toPath
    have hin : r.toPath ∈ current := by rwa [h.mem_iff, hspelled]
    obtain ⟨p, data, hp, hcomponents⟩ := exists_mem_toList hin
    exact List.mem_map.2 ⟨_, hp, hcomponents.trans hspelled⟩

/-! ### Carrying it out -/

theorem carryOut_deletes {paths : List Path} (hin : ∀ p ∈ paths, p.route ∈ t.files)
    (hnodup : paths.Pairwise fun p q => p.route ≠ q.route) :
    ∃ t', FileCommand.carryOut t (paths.map .delete) = .ok t' ∧ t'.folders = t.folders ∧
      ∀ q : Route, t'.files[q]? = if q ∈ paths.map Path.route then none else t.files[q]? := by
  induction paths generalizing t with
  | nil => exact ⟨t, rfl, rfl, by simp⟩
  | cons p rest ih =>
    obtain ⟨hlater, hnodup⟩ := List.pairwise_cons.1 hnodup
    have hremove : t.remove p = .ok { t with files := t.files.erase p.route } :=
      FileTree.remove_eq_ok.2 ⟨hin p (List.mem_cons_self ..), rfl⟩
    have hrest : ∀ q ∈ rest, q.route ∈ t.files.erase p.route := fun q hq =>
      Std.ExtTreeMap.mem_erase.2 ⟨by simpa using hlater q hq, hin q (List.mem_cons_of_mem _ hq)⟩
    obtain ⟨t', ht', hfolders, hfiles⟩ :=
      ih (t := { t with files := t.files.erase p.route }) hrest hnodup
    refine ⟨t', ?_, hfolders, fun q => ?_⟩
    · exact FileCommand.carryOut_cons_eq_ok.2 ⟨_, FileCommand.applyWet_delete.2 hremove, ht'⟩
    · rw [hfiles q, Std.ExtTreeMap.getElem?_erase]
      by_cases hq : q = p.route
      · simp [hq]
      · simp [hq, Ne.symm hq]

/-- What is missing can be deleted, and then of the first tree's files those of the second are left. -/
theorem carryOut_missing (hbefore : before.Shows t₀) (hcurrent : current.Shows t₁)
    (hplaced : t₀.Placed) (removed : Std.ExtTreeSet Path) :
    ∃ t, FileCommand.carryOut t₀ ((missing before removed current).map .delete) = .ok t ∧
      t.folders = t₀.folders ∧
      ∀ q : Route, t.files[q]? = if q ∈ t₁.files then t₀.files[q]? else none := by
  have hgone {q : Route} : q ∈ (missing before removed current).map Path.route ↔
      q ∈ t₀.files ∧ q ∉ t₁.files := mem_map_missing hbefore hcurrent hplaced
  have hspelled : ∀ p ∈ missing before removed current, p.route = p.components := fun p hp =>
    Path.route_of_isPlace (hplaced.files _ (mem_missing hbefore hcurrent hp).1)
  have hnodup : (missing before removed current).Pairwise fun p q => p.route ≠ q.route := by
    refine (pairwise_missing before current removed).imp_of_mem fun hp hq hne => ?_
    rwa [hspelled _ hp, hspelled _ hq]
  obtain ⟨t, hdeleted, hfolders, hfiles⟩ := carryOut_deletes
    (fun p hp => (hgone.1 (List.mem_map_of_mem hp)).1) hnodup
  refine ⟨t, hdeleted, hfolders, fun q => ?_⟩
  rw [hfiles q]
  by_cases hq : q ∈ t₁.files
  · rw [if_neg fun hin => (hgone.1 hin).2 hq, if_pos hq]
  · rw [if_neg hq]
    split
    · rfl
    · rename_i hkept
      exact Std.ExtTreeMap.getElem?_eq_none fun hin => hkept (hgone.2 ⟨hin, hq⟩)

/-- A file can be created under a spelling of its place if its folder is no file and it is no folder. -/
theorem applyWet_create_of_isPlace (data : String) (format : Bool) (hclosed : t.Closed)
    (hplace : Route.IsPlace p.components)
    (hhoused : ∀ folder, Route.folder? p.components = some folder → folder ∉ t.files)
    (hfree : p.components ∉ t.folders) :
    ∃ t', (FileCommand.create p data format).applyWet t = (.ok (), t') ∧ t'.Closed ∧
      t'.files = t.files.insert p.components data ∧ (∀ a ∈ t.folders, a ∈ t'.folders) ∧
      ∀ a ∈ t'.folders, a ∈ t.folders ∨ a ∈ Route.ancestors p.components := by
  have hroute := Path.route_of_isPlace hplace
  have hensured : ∃ t₁, t.ensureFolder p = .ok t₁ ∧
      (∀ folder, Route.folder? p.components = some folder → folder ∈ t₁.folders) ∧
      ∀ a ∈ t₁.folders, a ∈ t.folders ∨ a ∈ Route.ancestors p.components := by
    cases hf : p.folder? with
    | none =>
      have hnone := (Path.route_of_folder?_none hf).1
      rw [hroute] at hnone
      exact ⟨t, FileTree.ensureFolder_eq_ok.2 (by rw [hf]), by simp [hnone], fun a ha => Or.inl ha⟩
    | some folder =>
      have hfolder := Path.folder?_of_isPlace hplace hf
      have hmake := FileTree.makeFolders_eq_ok.2 ⟨hhoused _ hfolder, rfl⟩
      have hmem := FileTree.mem_makeFolders hclosed hmake
      refine ⟨_, FileTree.ensureFolder_eq_ok.2 (by rw [hf]; exact hmake), fun f hf' => ?_, fun a ha => ?_⟩
      · obtain rfl := Option.some.inj (hfolder.symm.trans hf')
        exact (hmem _).2 (Or.inr (Or.inl rfl))
      · rcases (hmem a).1 ha with ha | rfl | ha
        · exact Or.inl ha
        · exact Or.inr (Route.mem_ancestors_of_folder? hfolder)
        · exact Or.inr (Route.mem_ancestors_trans ha (Route.mem_ancestors_of_folder? hfolder))
  obtain ⟨t₁, hensure, hfolder, hfolders⟩ := hensured
  have hfree₁ : p.components ∉ t₁.folders := fun hin =>
    (hfolders _ hin).elim hfree (Route.not_mem_ancestors_self _)
  have hwrite : t₁.write p data = .ok { t₁ with files := t₁.files.insert p.components data } :=
    FileTree.write_eq_ok.2 (by rw [hroute]; exact ⟨hfolder, hfree₁, rfl⟩)
  refine ⟨_, FileCommand.applyWet_create.2 ⟨t₁, hensure, hwrite⟩,
    (hclosed.ensureFolder hensure).write hwrite, ?_,
    fun a ha => FileTree.folders_of_ensureFolder hensure a ha, hfolders⟩
  rw [FileTree.files_of_ensureFolder hensure]

/-- A tree on the way from one tree to another: of the files in the list the contents are still to be
written, in path order, and the others are as they should be. -/
structure Awaits (t₀ t₁ : FileTree) (items : List (Path × String)) (t : FileTree) : Prop where
  closed : t.Closed
  folders : ∀ a ∈ t₀.folders, a ∈ t.folders
  sorted : items.Pairwise fun a b => compare a.1.components b.1.components = .lt
  contents : ∀ e ∈ items, t₁.files[e.1.components]? = some e.2
  /-- Nothing is in the way of the files that differ. -/
  free : ∀ e ∈ items, t₀.files[e.1.components]? ≠ some e.2 → e.1.components ∉ t.folders
  files : ∀ q : Route, t.files[q]? =
    if q ∈ items.map (fun e => e.1.components) then t₀.files[q]? else t₁.files[q]?

variable {rests : Route → String → Prop} {format : Bool} {items : List (Path × String)}

theorem Awaits.mem_of_mem_files (h : Awaits t₀ t₁ items t) {q : Route} (hq : q ∈ t.files) :
    q ∈ t₁.files := by
  rw [Std.ExtTreeMap.mem_iff_isSome_getElem?] at hq ⊢
  by_cases hmem : q ∈ items.map fun e => e.1.components
  · obtain ⟨e, he, rfl⟩ := List.mem_map.1 hmem
    rw [h.contents e he]
    rfl
  · rwa [h.files q, if_neg hmem] at hq

/-- The first file is as it should be, after it was written or without that. -/
theorem Awaits.next (h : Awaits t₀ t₁ ((p, data) :: items) t) (hclosed : t'.Closed)
    (hfolders : ∀ a ∈ t.folders, a ∈ t'.folders)
    (hnew : ∀ a ∈ t'.folders, a ∈ t.folders ∨ a ∈ Route.ancestors p.components)
    (hfiles : t'.files = t.files.insert p.components data) : Awaits t₀ t₁ items t' := by
  obtain ⟨hlater, hsorted⟩ := List.pairwise_cons.1 h.sorted
  refine ⟨hclosed, fun a ha => hfolders a (h.folders a ha), hsorted,
    fun e he => h.contents e (List.mem_cons_of_mem _ he), fun e he hne hin => ?_, fun q => ?_⟩
  · rcases hnew _ hin with hin | hin
    · exact h.free e (List.mem_cons_of_mem _ he) hne hin
    · -- What is above the file comes before it, so its turn is over.
      have hbefore := Route.compare_of_mem_ancestors hin
      exact Std.OrientedCmp.not_lt_of_lt hbefore (hlater e he)
  · have hlast : p.components ∉ items.map fun e => e.1.components := by
      intro hin
      obtain ⟨e, he, hsame⟩ := List.mem_map.1 hin
      have hlt := hlater e he
      rw [hsame] at hlt
      exact absurd (Std.ReflCmp.compare_self.symm.trans hlt) (by simp)
    rw [hfiles, Std.ExtTreeMap.getElem?_insert]
    by_cases hq : p.components = q
    · subst hq
      simp [hlast, h.contents (p, data) (List.mem_cons_self ..)]
    · rw [if_neg (by simpa using hq), h.files q]
      by_cases hmem : q ∈ items.map fun e => e.1.components
      · rw [if_pos hmem, List.map_cons, if_pos (List.mem_cons_of_mem _ hmem)]
      · rw [if_neg hmem, List.map_cons, if_neg (by simp [Ne.symm hq, hmem])]

theorem Awaits.create (format : Bool) (hgrown : Grown rests t₀ t₁)
    (h : Awaits t₀ t₁ ((p, data) :: items) t) (hold : t₀.files[p.components]? = none) :
    ∃ t', (FileCommand.create p data format).applyWet t = (.ok (), t') ∧ Awaits t₀ t₁ items t' := by
  have hin := FileTree.mem_files_of_getElem? (h.contents (p, data) (List.mem_cons_self ..))
  have hnew : p.components ∉ t₀.files := by
    rw [Std.ExtTreeMap.mem_iff_isSome_getElem?, hold]
    simp
  -- A file in the way would still be there in the second tree.
  have hhoused : ∀ folder, Route.folder? p.components = some folder → folder ∉ t.files :=
    fun folder hfolder hfile =>
      (hgrown.housed _ hin hnew folder hfolder).2 (h.mem_of_mem_files hfile)
  have hfree := h.free (p, data) (List.mem_cons_self ..) (by simp [hold])
  obtain ⟨t', hc, hclosed, hfiles, hfolders, hmade⟩ :=
    applyWet_create_of_isPlace data format h.closed (hgrown.placed.files _ hin) hhoused hfree
  exact ⟨t', hc, h.next hclosed hfolders hmade hfiles⟩

/-- A file that is as it was needs no command. -/
theorem Awaits.keep (h : Awaits t₀ t₁ ((p, data) :: items) t)
    (hold : t₀.files[p.components]? = some data) : Awaits t₀ t₁ items t := by
  have hfiles : t.files = t.files.insert p.components data := by
    refine Std.ExtTreeMap.ext_getElem? fun q => ?_
    rw [Std.ExtTreeMap.getElem?_insert]
    split
    · rename_i hq
      rw [← Std.LawfulEqOrd.eq_of_compare hq, h.files, if_pos (by simp), hold]
    · rfl
  exact h.next h.closed (fun a ha => ha) (fun a ha => Or.inl ha) hfiles

/-- A file of the first tree can be written anew, since the folders above it are still there. -/
theorem Awaits.update (old : String) (format : Bool) (hgrown : Grown rests t₀ t₁)
    (hexact : t₀.Exact) (h : Awaits t₀ t₁ ((p, data) :: items) t) (hfile : p.components ∈ t₀.files)
    (hnew : t₀.files[p.components]? ≠ some data) :
    ∃ t', (FileCommand.update p old data format).applyWet t = (.ok (), t') ∧
      Awaits t₀ t₁ items t' := by
  have hin := FileTree.mem_files_of_getElem? (h.contents (p, data) (List.mem_cons_self ..))
  have hhoused : ∀ folder, Route.folder? p.components = some folder → folder ∈ t.folders :=
    fun folder hfolder => h.folders _
      ((hexact folder).2 ⟨_, hfile, Route.mem_ancestors_of_folder? hfolder⟩)
  have hwrite : t.write p data = .ok { t with files := t.files.insert p.components data } := by
    refine FileTree.write_eq_ok.2 ?_
    rw [Path.route_of_isPlace (hgrown.placed.files _ hin)]
    exact ⟨hhoused, h.free (p, data) (List.mem_cons_self ..) hnew, rfl⟩
  exact ⟨_, FileCommand.applyWet_update.2 hwrite,
    h.next (h.closed.write hwrite) (fun a ha => ha) (fun a ha => Or.inl ha) rfl⟩

/-- **The contents can be written** in path order, and then the files are those of the second tree. -/
theorem Awaits.carryOut (format : Bool) (hgrown : Grown rests t₀ t₁) (hexact : t₀.Exact)
    (hbefore : before.Shows t₀) (h : Awaits t₀ t₁ items t) :
    ∃ t', FileCommand.carryOut t (items.filterMap fun e => write? before format e.1 e.2) = .ok t' ∧
      ∀ q : Route, t'.files[q]? = t₁.files[q]? := by
  induction items generalizing t with
  | nil => exact ⟨t, rfl, by simpa using h.files⟩
  | cons e rest ih =>
    obtain ⟨p, data⟩ := e
    rw [List.filterMap_cons, write?, hbefore p]
    cases hold : t₀.files[p.components]? with
    | none =>
      obtain ⟨t', hc, hnext⟩ := h.create format hgrown hold
      obtain ⟨t'', hrest, hall⟩ := ih hnext
      exact ⟨t'', FileCommand.carryOut_cons_eq_ok.2 ⟨t', hc, hrest⟩, hall⟩
    | some old =>
      by_cases hsame : old = data
      · simp only [if_pos hsame]
        exact ih (h.keep (hold.trans (congrArg some hsame)))
      · simp only [if_neg hsame]
        obtain ⟨t', hc, hnext⟩ := h.update old format hgrown hexact
          (FileTree.mem_files_of_getElem? hold) (by simpa [hold] using hsame)
        obtain ⟨t'', hrest, hall⟩ := ih hnext
        exact ⟨t'', FileCommand.carryOut_cons_eq_ok.2 ⟨t', hc, hrest⟩, hall⟩

theorem awaits_toList (hgrown : Grown rests t₀ t₁) (hexact : t₀.Exact) (hcurrent : current.Shows t₁)
    (hfolders : t.folders = t₀.folders)
    (hfiles : ∀ q : Route, t.files[q]? = if q ∈ t₁.files then t₀.files[q]? else none) :
    Awaits t₀ t₁ current.toList t where
  closed folder hin a ha := by
    rw [hfolders] at hin ⊢
    exact hexact.closed folder hin a ha
  folders a ha := hfolders ▸ ha
  sorted := by
    have hsorted : current.toList.Pairwise fun a b => compare a.1 b.1 = .lt :=
      Std.ExtTreeMap.ordered_keys_toList
    exact hsorted
  contents e he := mem_toList hcurrent he
  free e he hne := by
    rw [hfolders]
    exact (hgrown.changed _ _ (mem_toList hcurrent he) hne).1
  files q := by
    rw [hfiles q]
    by_cases hq : q ∈ t₁.files
    · rw [if_pos hq, if_pos ((mem_map_toList hcurrent hgrown.placed).2 hq)]
    · rw [if_neg hq, if_neg fun hin => hq ((mem_map_toList hcurrent hgrown.placed).1 hin),
        Std.ExtTreeMap.getElem?_eq_none hq]

/-- **The difference can be carried out** on the first tree, and leaves the files of the second. -/
theorem carryOut_diff (hgrown : Grown rests t₀ t₁) (hplaced : t₀.Placed) (hexact : t₀.Exact)
    (hbefore : before.Shows t₀) (hcurrent : current.Shows t₁) (removed : Std.ExtTreeSet Path) :
    ∃ t, FileCommand.carryOut t₀ (before.diff removed current format) = .ok t ∧
      t.files = t₁.files := by
  obtain ⟨t, hdeleted, hfolders, hfiles⟩ := carryOut_missing hbefore hcurrent hplaced removed
  have hawaits := awaits_toList hgrown hexact hcurrent hfolders hfiles
  obtain ⟨t', hwritten, hall⟩ := hawaits.carryOut format hgrown hexact hbefore
  exact ⟨t', FileCommand.carryOut_append_eq_ok.2 ⟨t, hdeleted, hwritten⟩,
    Std.ExtTreeMap.ext_getElem? hall⟩

/-! ### Formatting it -/

section

variable {r : FormatterRegistry} (hstable : format = true → r.Stable)
  (hgrown : Grown (FileCommand.restsAt r format) t₀ t₁) (hbefore : before.Shows t₀)
  (hcurrent : current.Shows t₁)

include hstable hgrown hcurrent

/-- What is new in the second tree is formatted, under the spelling of the snapshot too. -/
theorem formatIf_of_mem_toList (hp : (p, data) ∈ current.toList)
    (hnew : t₀.files[p.components]? ≠ some data) : r.formatIf format p data = data := by
  have hdata := mem_toList hcurrent hp
  have hplace := hgrown.placed.files p.components (FileTree.mem_files_of_getElem? hdata)
  have hroute := Path.route_of_isPlace hplace
  refine (FormatterRegistry.rests_normalize hstable ?_).1 ?_
  · rw [Path.fileName?_normalize, hroute, Path.fileName?_eq]
  · rw [Path.normalize, hroute]
    exact (hgrown.changed _ _ hdata hnew).2

include hbefore

theorem formatCommand?_of_write? {c : FileCommand} (hp : (p, data) ∈ current.toList)
    (hc : write? before format p data = some c) : r.formatCommand? c = some c := by
  obtain ⟨hnew, rfl⟩ | ⟨old, hold, hne, rfl⟩ := write?_eq_some hc
  · have hnone : t₀.files[p.components]? = none := by
      rw [← hbefore p, Std.ExtTreeMap.getElem?_eq_none hnew]
    have hrests := formatIf_of_mem_toList hstable hgrown hcurrent hp (by simp [hnone])
    rw [FormatterRegistry.formatCommand?, hrests]
  · rw [hbefore p] at hold
    have hrests := formatIf_of_mem_toList hstable hgrown hcurrent hp (by simpa [hold] using hne)
    rw [FormatterRegistry.formatCommand?, hrests]
    exact if_neg (Ne.symm hne)

/-- **Formatting leaves the difference as it is**, since what is new in the second tree has been
formatted already. -/
theorem formatCommands_diff (removed : Std.ExtTreeSet Path) :
    r.formatCommands (before.diff removed current format) = before.diff removed current format := by
  have hsame : ∀ c ∈ before.diff removed current format, r.formatCommand? c = some c := by
    intro c hc
    rcases List.mem_append.1 hc with hc | hc
    · obtain ⟨p, -, rfl⟩ := List.mem_map.1 hc
      rfl
    · obtain ⟨⟨p, data⟩, hp, hwrite⟩ := List.mem_filterMap.1 hc
      exact formatCommand?_of_write? hstable hgrown hbefore hcurrent hp hwrite
  calc r.formatCommands (before.diff removed current format)
      = (before.diff removed current format).filterMap some := List.filterMap_congr hsame
    _ = before.diff removed current format := List.filterMap_some

end

end Snapshot

end BulkEdit
