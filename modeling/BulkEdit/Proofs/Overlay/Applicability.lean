import BulkEdit.Proofs.Command.Commutation
import BulkEdit.Proofs.FileTree.Walk
import BulkEdit.Proofs.Overlay.Commands

/-!
# Carrying out the commands of an overlay

The files that are there in the end may be such that no file stands above another and none where the tree
has a folder (`Coherent`). Then only one thing can stop the commands: a file of the tree that is to be
deleted, but still stands where a new file needs its folder. Commands are given in the order of the first
changes, so they can be carried out exactly if the deletion was asked for before the new file
(`commands_applicable`); with all deletions first they always can. A new file that comes too early fails
(`commands_not_applicable`).
-/

namespace BulkEdit

/-! ### Commands about places -/

theorem Route.IsPlace.folder?_toPath {r : Route} (hr : r.IsPlace) :
    r.toPath.folder?.map Path.route = r.folder? := by
  cases hf : r.toPath.folder? with
  | none =>
    have hnone := (Path.route_of_folder?_none hf).1
    rw [hr.route_toPath] at hnone
    exact hnone.symm
  | some folder =>
    have hplace : Route.IsPlace r.toPath.components := by rwa [hr.components_toPath]
    have hfolder := Path.folder?_of_isPlace hplace hf
    rw [hr.components_toPath] at hfolder
    exact hfolder.symm

namespace FileCommand

variable {r : Route} {data : String} {format : Bool}

theorem base?_create (hr : r.IsPlace) : (create r.toPath data format).base? = r.folder? :=
  hr.folder?_toPath

theorem makes_create (hr : r.IsPlace) : (create r.toPath data format).makes = r.ancestors := by
  unfold makes
  rw [base?_create hr]
  cases hf : r.folder? with
  | none => exact (hr.ancestors_of_folder?_none hf).symm
  | some folder => exact (Route.ancestors_of_folder? hf).symm

end FileCommand

namespace Overlay

open FileCommand (carryOut)

variable {base t t' : FileTree} {o : Overlay} {log : Log} {format : Bool} {r : Route}

/-! ### Coherent overlays -/

/-- A file is there in the end. -/
def Log.Live (log : Log) (base : FileTree) (r : Route) : Prop :=
  log.content base r ≠ none

/-- A file is new: it is there in the end, and the tree does not have it. -/
def Log.Creates (log : Log) (base : FileTree) (r : Route) : Prop :=
  log.Live base r ∧ r ∉ base.files

/-- **The files that are there in the end fit together and into the tree.** -/
structure Coherent (base : FileTree) (log : Log) : Prop where
  /-- No file stands above another. -/
  apart : ∀ r a, log.Live base r → log.Live base a → a ∉ r.ancestors
  /-- No file was written where the tree has a folder. -/
  free : ∀ r data, log.last? r = some (.written data) → r ∉ base.folders

def Log.liveFiles (log : Log) (base : FileTree) : List Route :=
  (log.firstChanges ++ base.files.keys).filter fun r => (log.content base r).isSome

theorem Log.mem_liveFiles : r ∈ log.liveFiles base ↔ log.Live base r := by
  rw [liveFiles, List.mem_filter, List.mem_append, mem_firstChanges, Std.ExtTreeMap.mem_keys, Live,
    Option.isSome_iff_ne_none]
  refine ⟨And.right, fun hlive => ⟨?_, hlive⟩⟩
  by_contra hnot
  rw [not_or, not_not] at hnot
  exact hlive (by rw [content, hnot.1, Std.ExtTreeMap.getElem?_eq_none hnot.2])

def Log.isCoherent (log : Log) (base : FileTree) : Bool :=
  (log.liveFiles base).all (fun r => (log.liveFiles base).all fun a => !r.ancestors.contains a) &&
    log.firstChanges.all fun r => log.last? r == some .deleted || !base.folders.contains r

theorem Log.isCoherent_iff : log.isCoherent base = true ↔ Coherent base log := by
  unfold isCoherent
  rw [Bool.and_eq_true, List.all_eq_true, List.all_eq_true]
  constructor
  · rintro ⟨hapart, hfree⟩
    refine ⟨fun r a hr ha => ?_, fun r data hlast => ?_⟩
    · simpa using List.all_eq_true.1 (hapart r (mem_liveFiles.2 hr)) a (mem_liveFiles.2 ha)
    · have hchanged : r ∈ log.firstChanges := by
        rw [mem_firstChanges, hlast]
        nofun
      rw [← Std.ExtTreeSet.contains_iff_mem, Bool.not_eq_true]
      simpa [hlast] using hfree r hchanged
  · intro h
    refine ⟨fun r hr => List.all_eq_true.2 fun a ha => ?_, fun r hr => ?_⟩
    · simpa using h.apart r a (mem_liveFiles.1 hr) (mem_liveFiles.1 ha)
    · rcases hlast : log.last? r with _ | data | _
      · exact absurd hlast (mem_firstChanges.1 hr)
      · have hfree := h.free r data hlast
        rw [← Std.ExtTreeSet.contains_iff_mem, Bool.not_eq_true] at hfree
        simp [hfree]
      · simp

instance (base : FileTree) (log : Log) : Decidable (Coherent base log) :=
  decidable_of_iff _ Log.isCoherent_iff

theorem Log.Creates.written (h : log.Creates base r) : ∃ data, log.last? r = some (.written data) := by
  obtain ⟨hlive, hnew⟩ := h
  unfold Live content at hlive
  split at hlive
  · rename_i data hlast
    exact ⟨data, hlast⟩
  · exact absurd rfl hlive
  · exact absurd (Std.ExtTreeMap.getElem?_eq_none hnew) hlive

/-! ### On the way -/

/-- **The tree after the commands for some of the files**: those files are as they will be in the end, and
the folders above the new ones are there. -/
structure Halfway (base : FileTree) (log : Log) (done : List Route) (t : FileTree) : Prop where
  closed : t.Closed
  files : ∀ q : Route, t.files[q]? = if q ∈ done then log.content base q else base.files[q]?
  folders : ∀ a, a ∈ t.folders ↔
    a ∈ base.folders ∨ ∃ r ∈ done, log.Creates base r ∧ a ∈ r.ancestors

theorem halfway_start (hclosed : base.Closed) : Halfway base log [] base :=
  ⟨hclosed, by simp, by simp⟩

namespace Halfway

variable {done : List Route}

theorem mem_files (h : Halfway base log done t) {q : Route} :
    q ∈ t.files ↔ if q ∈ done then log.Live base q else q ∈ base.files := by
  rw [Std.ExtTreeMap.mem_iff_isSome_getElem?, h.files]
  split
  · rw [Log.Live, Option.isSome_iff_ne_none]
  · rw [Std.ExtTreeMap.mem_iff_isSome_getElem?]

/-- No folder is ever made in the way of a file that will be there. -/
theorem not_mem_folders (h : Halfway base log done t) (hcoherent : Coherent base log)
    (hlive : log.Live base r) (hfree : r ∉ base.folders) : r ∉ t.folders := by
  rw [h.folders]
  rintro (hin | ⟨q, -, hq, hup⟩)
  · exact hfree hin
  · exact hcoherent.apart q r hq.1 hlive hup

theorem files_next (h : Halfway base log done t)
    (hfiles : ∀ q : Route, t'.files[q]? = if r = q then log.content base r else t.files[q]?) (q : Route) :
    t'.files[q]? = if q ∈ r :: done then log.content base q else base.files[q]? := by
  rw [hfiles, h.files]
  by_cases hq : r = q
  · subst hq
    simp
  · simp [hq, Ne.symm hq]

/-- A file that is not new is done without a change of the folders. -/
theorem next_old (h : Halfway base log done t) (hold : ¬ log.Creates base r)
    (hfolders : t'.folders = t.folders)
    (hfiles : ∀ q : Route, t'.files[q]? = if r = q then log.content base r else t.files[q]?) :
    Halfway base log (r :: done) t' := by
  refine ⟨fun folder hin a ha => ?_, h.files_next hfiles, fun a => ?_⟩
  · rw [hfolders] at hin ⊢
    exact h.closed folder hin a ha
  · rw [hfolders, h.folders]
    simp [hold]

/-- A file that needs no command is as it will be. -/
theorem keep (h : Halfway base log done t) (hnew : r ∉ done) (hnone : log.command? base format r = none) :
    Halfway base log (r :: done) t := by
  have hsame : log.content base r = base.files[r]? := by
    rcases log.command?_cases base format r with ⟨-, hsame⟩ | ⟨c, hc, -⟩
    · exact hsame
    · rw [hnone] at hc
      cases hc
  have hold : ¬ log.Creates base r := by
    rintro hr
    have hlive := hr.1
    rw [Log.Live, hsame] at hlive
    exact hlive (Std.ExtTreeMap.getElem?_eq_none hr.2)
  refine h.next_old hold rfl fun q => ?_
  by_cases hq : r = q
  · subst hq
    rw [if_pos rfl, h.files, if_neg hnew, hsame]
  · rw [if_neg hq]

/-- **A new file can be created** exactly if no file of the tree is left where its folder will be. -/
theorem create_iff (h : Halfway base log done t) (hcoherent : Coherent base log) (hr : r.IsPlace)
    (hcreates : log.Creates base r) (data : String) :
    (∃ t', (FileCommand.create r.toPath data format).applyWet t = (.ok (), t')) ↔
      ∀ folder, r.folder? = some folder → folder ∈ base.files → folder ∈ done := by
  have hwrites : (FileCommand.create r.toPath data format).Writes t := trivial
  have hplace : (FileCommand.create r.toPath data format).place = r := hr.route_toPath
  have hlive := hcreates.1
  have hfree : r ∉ t.folders := by
    obtain ⟨data', hlast⟩ := hcreates.written
    exact h.not_mem_folders hcoherent hlive (hcoherent.free r data' hlast)
  have hway : ∀ folder, r.folder? = some folder →
      (folder ∉ t.files ↔ (folder ∈ base.files → folder ∈ done)) := by
    intro folder hfolder
    -- what stands above a file that will be there is gone once its turn is over
    have hgone : ¬ log.Live base folder := fun hup =>
      hcoherent.apart r folder hlive hup (Route.mem_ancestors_of_folder? hfolder)
    rw [h.mem_files]
    by_cases hdone : folder ∈ done <;> simp [hdone, hgone]
  simp only [FileCommand.applyWet_eq_ok h.closed hwrites, FileCommand.base?_create hr,
    FileCommand.makes_create hr, hplace, exists_and_left, exists_eq, and_true]
  constructor
  · rintro ⟨hbase, -⟩ folder hfolder
    exact (hway folder hfolder).1 (hbase folder hfolder)
  · intro hall
    exact ⟨fun folder hfolder => (hway folder hfolder).2 (hall folder hfolder), hfree,
      Route.not_mem_ancestors_self r⟩

theorem next_create (h : Halfway base log done t) (hr : r.IsPlace) (hcreates : log.Creates base r)
    {data : String} (hdata : log.content base r = some data)
    (hc : (FileCommand.create r.toPath data format).applyWet t = (.ok (), t')) :
    Halfway base log (r :: done) t' := by
  have hwrites : (FileCommand.create r.toPath data format).Writes t := trivial
  obtain ⟨-, -, -, rfl⟩ := (FileCommand.applyWet_eq_ok h.closed hwrites).1 hc
  rw [FileCommand.makes_create hr]
  have hplace : (FileCommand.create r.toPath data format).place = r := hr.route_toPath
  have hcontent : (FileCommand.create r.toPath data format).content = data := rfl
  rw [hplace, hcontent]
  refine ⟨h.closed.grow fun a ha b hb => Route.mem_ancestors_trans hb ha, h.files_next fun q => ?_,
    fun a => ?_⟩
  · simp [FileTree.grow, Std.ExtTreeMap.getElem?_insert, hdata]
  · rw [FileTree.mem_folders_grow, h.folders]
    simp only [List.mem_cons, exists_eq_or_imp, hcreates, true_and]
    rw [or_assoc, or_comm (b := a ∈ r.ancestors)]

/-- A file of the tree that will be there can be written anew. -/
theorem update (h : Halfway base log done t) (hcoherent : Coherent base log) (hhoused : base.Housed)
    (hunhidden : base.Unhidden) (hr : r.IsPlace) (hin : r ∈ base.files) {old data : String}
    (hdata : log.content base r = some data) :
    ∃ t', (FileCommand.update r.toPath old data format).applyWet t = (.ok (), t') ∧
      Halfway base log (r :: done) t' := by
  have hlive : log.Live base r := by simp [Log.Live, hdata]
  have hfree := h.not_mem_folders hcoherent hlive (hunhidden r hin)
  have hfolder : ∀ folder, r.folder? = some folder → folder ∈ t.folders := fun folder hf =>
    (h.folders folder).2 (Or.inl (hhoused r hin folder hf))
  have hwrite : t.write r.toPath data = .ok { t with files := t.files.insert r data } :=
    FileTree.write_eq_ok.2 (by rw [hr.route_toPath]; exact ⟨hfolder, hfree, rfl⟩)
  refine ⟨_, FileCommand.applyWet_update.2 hwrite, h.next_old (fun hnew => hnew.2 hin) rfl fun q => ?_⟩
  simp [Std.ExtTreeMap.getElem?_insert, hdata]

theorem delete (h : Halfway base log done t) (hr : r.IsPlace) (hnew : r ∉ done) (hin : r ∈ base.files)
    (hnone : log.content base r = none) :
    ∃ t', (FileCommand.delete r.toPath).applyWet t = (.ok (), t') ∧ Halfway base log (r :: done) t' := by
  have hthere : r ∈ t.files := h.mem_files.2 (by rwa [if_neg hnew])
  have hremove : t.remove r.toPath = .ok { t with files := t.files.erase r } :=
    FileTree.remove_eq_ok.2 (by rw [hr.route_toPath]; exact ⟨hthere, rfl⟩)
  refine ⟨_, FileCommand.applyWet_delete.2 hremove, h.next_old (fun hc => hc.2 hin) rfl fun q => ?_⟩
  simp [Std.ExtTreeMap.getElem?_erase, hnone]

/-- **The command for one file** can be carried out exactly if the file is not new or nothing is in the way
of its folder, and leads on. -/
theorem step (h : Halfway base log done t) (hcoherent : Coherent base log) (hhoused : base.Housed)
    (hunhidden : base.Unhidden) (hr : r.IsPlace) (hnew : r ∉ done) {c : FileCommand}
    (hc : log.command? base format r = some c) :
    ((∃ t', c.applyWet t = (.ok (), t')) ↔ (log.Creates base r →
        ∀ folder, r.folder? = some folder → folder ∈ base.files → folder ∈ done)) ∧
      ∀ t', c.applyWet t = (.ok (), t') → Halfway base log (r :: done) t' := by
  obtain ⟨hpath, htells⟩ : c.primaryPath = r.toPath ∧
      Tells format base.files[r]? (log.content base r) c := by
    rcases log.command?_cases base format r with ⟨hnone, -⟩ | ⟨c', hc', hpath, -, htells⟩
    · rw [hnone] at hc
      cases hc
    · obtain rfl := Option.some.inj (hc'.symm.trans hc)
      exact ⟨hpath, htells⟩
  -- a command for a file of the tree succeeds whatever was done before
  have hsteady : r ∈ base.files → (∃ t', c.applyWet t = (.ok (), t') ∧ Halfway base log (r :: done) t') →
      ((∃ t', c.applyWet t = (.ok (), t')) ↔ (log.Creates base r →
        ∀ folder, r.folder? = some folder → folder ∈ base.files → folder ∈ done)) ∧
      ∀ t', c.applyWet t = (.ok (), t') → Halfway base log (r :: done) t' := by
    rintro hin ⟨t₁, ht₁, hnext⟩
    refine ⟨⟨fun _ hcreates => absurd hin hcreates.2, fun _ => ⟨t₁, ht₁⟩⟩, fun t' ht' => ?_⟩
    obtain ⟨-, rfl⟩ := Prod.mk.inj (ht₁.symm.trans ht')
    exact hnext
  cases c with
  | create p data f =>
    obtain rfl : p = r.toPath := hpath
    obtain ⟨rfl, hbefore, hdata⟩ := htells
    have hcreates : log.Creates base r := by
      refine ⟨by simp [Log.Live, hdata], fun hin => ?_⟩
      rw [Std.ExtTreeMap.mem_iff_isSome_getElem?, hbefore] at hin
      cases hin
    refine ⟨?_, fun t' ht' => h.next_create hr hcreates hdata ht'⟩
    rw [h.create_iff hcoherent hr hcreates data]
    exact ⟨fun hall _ => hall, fun hall => hall hcreates⟩
  | update p old data f =>
    obtain rfl : p = r.toPath := hpath
    obtain ⟨rfl, hbefore, hdata, -⟩ := htells
    have hin := FileTree.mem_files_of_getElem? hbefore
    exact hsteady hin (h.update hcoherent hhoused hunhidden hr hin hdata)
  | delete p =>
    obtain rfl : p = r.toPath := hpath
    obtain ⟨hbefore, hdata⟩ := htells
    have hin : r ∈ base.files := Std.ExtTreeMap.mem_iff_isSome_getElem?.2 hbefore
    exact hsteady hin (h.delete hr hnew hin hdata)
  | move p q => exact absurd htells id
  | copy p q => exact absurd htells id

end Halfway

/-! ### In any order -/

theorem not_pair_sublist_head {folder q : Route} {rest : List Route} (h : q ∉ rest) :
    ¬ [folder, q].Sublist (q :: rest) := by
  intro hsub
  rcases List.sublist_cons_iff.1 hsub with hsub | ⟨tail, htail, hsub⟩
  · exact h (hsub.subset (by simp))
  · obtain ⟨-, rfl⟩ := List.cons.inj htail
    exact h (hsub.subset (by simp))

/-- What comes before a later one of a list is the first, or comes before it in the rest. -/
theorem pair_sublist_cons {folder q : Route} {rest : List Route} (h : r ∈ rest) :
    [folder, r].Sublist (q :: rest) ↔ folder = q ∨ [folder, r].Sublist rest := by
  rw [List.sublist_cons_iff]
  constructor
  · rintro (hsub | ⟨tail, htail, -⟩)
    · exact Or.inr hsub
    · exact Or.inl (List.cons.inj htail).1
  · rintro (rfl | hsub)
    · exact Or.inr ⟨[r], rfl, List.singleton_sublist.2 h⟩
    · exact Or.inl hsub

/-- **The commands for some files can be carried out in a given order** exactly if each file of the tree
that stands where a new file needs its folder has its turn before. -/
theorem Halfway.carryOut_iff (hcoherent : Coherent base log) (hhoused : base.Housed)
    (hunhidden : base.Unhidden) {done routes : List Route} (h : Halfway base log done t)
    (hplaces : ∀ r ∈ routes, r.IsPlace) (hnodup : routes.Nodup) (hnew : ∀ r ∈ routes, r ∉ done) :
    (∃ t', carryOut t (routes.filterMap (log.command? base format)) = .ok t') ↔
      ∀ r ∈ routes, log.Creates base r → ∀ folder, r.folder? = some folder → folder ∈ base.files →
        folder ∈ done ∨ [folder, r].Sublist routes := by
  induction routes generalizing t done with
  | nil => simp [carryOut]
  | cons q rest ih =>
    obtain ⟨hlater, hnodup⟩ := List.nodup_cons.1 hnodup
    have hq : q.IsPlace := hplaces q (List.mem_cons_self ..)
    have hqnew : q ∉ done := hnew q (List.mem_cons_self ..)
    have hplaces' : ∀ r ∈ rest, r.IsPlace := fun r hr => hplaces r (List.mem_cons_of_mem _ hr)
    have hnew' : ∀ r ∈ rest, r ∉ q :: done := by
      intro r hr hin
      rcases List.mem_cons.1 hin with rfl | hin
      · exact hlater hr
      · exact hnew r (List.mem_cons_of_mem _ hr) hin
    -- the condition, for the first file and for the others once the first is done
    have hsplit : (∀ r ∈ q :: rest, log.Creates base r → ∀ folder, r.folder? = some folder →
          folder ∈ base.files → folder ∈ done ∨ [folder, r].Sublist (q :: rest)) ↔
        (log.Creates base q → ∀ folder, q.folder? = some folder → folder ∈ base.files → folder ∈ done) ∧
        ∀ r ∈ rest, log.Creates base r → ∀ folder, r.folder? = some folder → folder ∈ base.files →
          folder ∈ q :: done ∨ [folder, r].Sublist rest := by
      have hothers : ∀ r ∈ rest, ∀ folder, (folder ∈ done ∨ [folder, r].Sublist (q :: rest)) ↔
          (folder ∈ q :: done ∨ [folder, r].Sublist rest) := by
        intro r hr folder
        rw [pair_sublist_cons hr, List.mem_cons]
        tauto
      rw [List.forall_mem_cons]
      simp only [not_pair_sublist_head hlater, or_false]
      refine and_congr_right fun _ => forall_congr' fun r => forall_congr' fun hr => ?_
      simp only [hothers r hr]
    rw [hsplit, List.filterMap_cons]
    cases hc : log.command? base format q with
    | none =>
      have hold : log.Creates base q → False := by
        intro hcreates
        obtain ⟨data, hlast⟩ := hcreates.written
        simp [Log.command?, hlast, Mutation.change, commandOf?,
          Std.ExtTreeMap.getElem?_eq_none hcreates.2] at hc
      rw [ih (h.keep hqnew hc) hplaces' hnodup hnew']
      exact ⟨fun hall => ⟨fun hcreates => absurd hcreates hold, hall⟩, And.right⟩
    | some c =>
      obtain ⟨hiff, hnext⟩ := h.step hcoherent hhoused hunhidden hq hqnew hc
      rw [← hiff]
      simp only [FileCommand.carryOut_cons_eq_ok]
      constructor
      · rintro ⟨t', t₁, ht₁, hrest⟩
        exact ⟨⟨t₁, ht₁⟩, (ih (hnext t₁ ht₁) hplaces' hnodup hnew').1 ⟨t', hrest⟩⟩
      · rintro ⟨⟨t₁, ht₁⟩, hall⟩
        obtain ⟨t', hrest⟩ := (ih (hnext t₁ ht₁) hplaces' hnodup hnew').2 hall
        exact ⟨t', t₁, ht₁, hrest⟩

/-! ### Deletions first -/

def deletes : FileCommand → Bool
  | .delete _ => true
  | _ => false

/-- The commands with all deletions first, and else in their order. -/
def deletionsFirst (commands : List FileCommand) : List FileCommand :=
  commands.filter deletes ++ commands.filter fun c => !deletes c

theorem Log.deletes_command {c : FileCommand} (h : log.command? base format r = some c) :
    deletes c = decide (log.content base r = none) := by
  rcases log.command?_cases base format r with ⟨hnone, -⟩ | ⟨c', hc', -, -, htells⟩
  · rw [hnone] at h
    cases h
  · obtain rfl := Option.some.inj (hc'.symm.trans h)
    cases c' with
    | create p data f => simp [deletes, htells.2.2]
    | update p old data f => simp [deletes, htells.2.2.1]
    | delete p => simp [deletes, htells.2]
    | move p q => exact absurd htells id
    | copy p q => exact absurd htells id

theorem Log.deletionsFirst_filterMap (routes : List Route) :
    deletionsFirst (routes.filterMap (log.command? base format)) =
      (routes.filter (fun r => decide (log.content base r = none)) ++
        routes.filter fun r => !decide (log.content base r = none)).filterMap
          (log.command? base format) := by
  unfold deletionsFirst
  rw [List.filterMap_append, List.filter_filterMap, List.filter_filterMap, List.filterMap_filter,
    List.filterMap_filter]
  congr 2
  all_goals
    funext r
    cases hc : log.command? base format r with
    | none => simp
    | some c => simp [Option.filter, Log.deletes_command hc]

/-! ### After any sequence of operations -/

/-- **The commands of a coherent overlay** can be carried out exactly if each file of the tree that stands
where a new file needs its folder was changed before the new file was; and with the deletions first they
always can. -/
theorem commands_applicable (base : FileTree) (hbase : base.Built) (hunhidden : base.Unhidden)
    (ops : List Op) (hcoherent : Coherent base (run base ops).2) (format : Bool) :
    ((∃ t, carryOut base ((run base ops).1.commands format) = .ok t) ↔
      ∀ r folder, (run base ops).2.Creates base r → r.folder? = some folder → folder ∈ base.files →
        [folder, r].Sublist (run base ops).2.firstChanges) ∧
    ∃ t, carryOut base (deletionsFirst ((run base ops).1.commands format)) = .ok t := by
  have hrecords := records_run hbase.placed ops
  generalize (run base ops).1 = o at hrecords ⊢
  generalize (run base ops).2 = log at hcoherent hrecords ⊢
  have hstart : Halfway base log [] base := halfway_start hbase.closed
  have hchanged : ∀ r, log.content base r ≠ base.files[r]? → r ∈ log.firstChanges := by
    intro r hne
    rw [Log.mem_firstChanges]
    intro hnone
    exact hne (by rw [Log.content, hnone])
  have hcreated : ∀ r, log.Creates base r → r ∈ log.firstChanges := by
    rintro r ⟨hlive, hnew⟩
    refine hchanged r ?_
    rwa [Std.ExtTreeMap.getElem?_eq_none hnew]
  rw [hrecords.commands_eq, Log.deletionsFirst_filterMap]
  refine ⟨?_, ?_⟩
  · rw [hstart.carryOut_iff hcoherent hbase.housed hunhidden (fun r hr => hrecords.isPlace hr)
      Log.nodup_firstChanges (by simp)]
    simp only [List.not_mem_nil, false_or]
    exact ⟨fun hall r folder hc hf hin => hall r (hcreated r hc) hc folder hf hin,
      fun hall r _ hc folder hf hin => hall r folder hc hf hin⟩
  · have hperm := List.filter_append_perm (fun r => decide (log.content base r = none)) log.firstChanges
    refine (hstart.carryOut_iff hcoherent hbase.housed hunhidden
      (fun r hr => hrecords.isPlace (hperm.mem_iff.1 hr))
      (hperm.nodup_iff.2 Log.nodup_firstChanges) (by simp)).2 ?_
    intro r _ hc folder hf hin
    -- what stands above a new file is gone in the end, so its command is among the first
    have hgone : log.content base folder = none := by
      by_contra hlive
      exact hcoherent.apart r folder hc.1 hlive (Route.mem_ancestors_of_folder? hf)
    have hold : folder ∈ log.firstChanges := by
      refine hchanged folder ?_
      rw [hgone]
      exact fun hnone => absurd hin (by simpa using hnone.symm)
    have hfirst : folder ∈ log.firstChanges.filter fun r => decide (log.content base r = none) :=
      List.mem_filter.2 ⟨hold, by simpa using hgone⟩
    have hlater : r ∈ log.firstChanges.filter fun r => !decide (log.content base r = none) :=
      List.mem_filter.2 ⟨hcreated r hc, by simpa [Log.Live] using hc.1⟩
    exact Or.inr ((List.singleton_sublist.2 hfirst).append (List.singleton_sublist.2 hlater))

/-- A file gives way to a folder of its name, and another is moved into that folder: the deletion was asked
for first, so the commands can be carried out as they are. -/
theorem commands_applicable_replaced :
    let base := FileTree.ofFiles [(⟨"/a"⟩, "x"), (⟨"/b"⟩, "y")]
    let ops : List Op := [.delete ⟨"/a"⟩, .write ⟨"/a/c"⟩ "z", .move ⟨"/b"⟩ ⟨"/a/./b"⟩]
    base.Built ∧ base.Unhidden ∧ Coherent base (run base ops).2 ∧
      (carryOut base ((run base ops).1.commands false)).isOk = true ∧
      (∀ r folder, (run base ops).2.Creates base r → r.folder? = some folder → folder ∈ base.files →
        [folder, r].Sublist (run base ops).2.firstChanges) ∧
      ∃ t, carryOut base (deletionsFirst ((run base ops).1.commands false)) = .ok t := by
  intro base ops
  have hunhidden : base.Unhidden := by decide +kernel
  have hcoherent : Coherent base (run base ops).2 := by decide +kernel
  have hok : (carryOut base ((run base ops).1.commands false)).isOk = true := by decide +kernel
  obtain ⟨hiff, hfirst⟩ := commands_applicable base (.ofFiles _) hunhidden ops hcoherent false
  refine ⟨.ofFiles _, hunhidden, hcoherent, hok, hiff.1 ?_, hfirst⟩
  cases hcarried : carryOut base ((run base ops).1.commands false) with
  | ok t => exact ⟨t, rfl⟩
  | error e =>
    rw [hcarried] at hok
    cases hok

/-- **A new file can come too early.** A file is written into a folder whose place a file of the tree has, and
then that file is deleted: the commands stop at the first of them. -/
theorem commands_not_applicable :
    let base := FileTree.ofFiles [(⟨"/a"⟩, "x")]
    let ops : List Op := [.write ⟨"/a/b"⟩ "y", .delete ⟨"/a"⟩]
    base.Unhidden ∧ Coherent base (run base ops).2 ∧
      (run base ops).1.commands false = [.create ⟨"/a/b"⟩ "y" false, .delete ⟨"/a"⟩] ∧
      (carryOut base ((run base ops).1.commands false)).isOk = false := by
  decide +kernel

end Overlay

end BulkEdit
