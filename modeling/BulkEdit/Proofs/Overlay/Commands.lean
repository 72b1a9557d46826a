import BulkEdit.Proofs.Overlay.History
import BulkEdit.Proofs.Run.Application

/-!
# The commands of an overlay

The commands that are read off an overlay say what has become of each file, whatever happened to it on
the way (`Denotes`): each changed file is named once, in the order of the first changes, with the
content of the tree as the old one; and where the commands can be carried out, the files are then
those of the overlay.
-/

namespace BulkEdit.Overlay

variable {base : FileTree} {o : Overlay} {log : Log} {format : Bool}

/-- The content of a file after what the log says: what was written last, nothing after a deletion,
and else the content of the tree. -/
def Log.content (log : Log) (base : FileTree) (r : Route) : Option String :=
  match log.last? r with
  | some (.written data) => some data
  | some .deleted => none
  | none => base.files[r]?

/-- What a command says of the content of a file before and after it. -/
def Tells (format : Bool) (before after : Option String) : FileCommand → Prop
  | .create _ newData f => f = format ∧ before = none ∧ after = some newData
  | .update _ oldData newData f =>
    f = format ∧ before = some oldData ∧ after = some newData ∧ newData ≠ oldData
  | .delete _ => before.isSome ∧ after = none
  | _ => False

/-- **The commands denote the overlay.** -/
structure Denotes (base : FileTree) (log : Log) (format : Bool) (commands : List FileCommand) :
    Prop where
  /-- No file is named twice, and the files are named in the order of their first changes. -/
  nodup : (commands.map fun c => c.primaryPath.route).Nodup
  in_order : (commands.map fun c => c.primaryPath.route).Sublist log.firstChanges
  /-- Paths are spelled in normal form. -/
  normal : ∀ c ∈ commands, c.primaryPath.normalize = c.primaryPath
  /-- Each command tells of what the tree holds and of what has become of it. -/
  tells : ∀ c ∈ commands, Tells format base.files[c.primaryPath.route]?
    (log.content base c.primaryPath.route) c
  /-- Exactly those files are named whose content is no longer that of the tree. -/
  named_iff : ∀ r, r ∈ commands.map (fun c => c.primaryPath.route) ↔
    log.content base r ≠ base.files[r]?
  /-- Where the commands can be applied to the tree, they leave the contents of the overlay. -/
  applied : ∀ (digest : String) (w w' : World) (previews : List Preview), w.tree = base →
    Run.applyAll (.wet digest) commands w = .ok previews w' →
      ∀ r, w'.tree.files[r]? = log.content base r

def Log.command? (log : Log) (base : FileTree) (format : Bool) (r : Route) : Option FileCommand :=
  (log.last? r).bind fun m => commandOf? format r (m.change base.files[r]?)

theorem Records.commands_eq (h : Records base o log) :
    o.commands format = log.firstChanges.filterMap (log.command? base format) := by
  unfold commands Log.command?
  rw [h.order_eq]
  congr 1
  funext r
  rw [h.changes_eq]
  cases log.last? r <;> rfl

theorem Log.mem_firstChanges {r : Route} : r ∈ log.firstChanges ↔ log.last? r ≠ none := by
  unfold firstChanges
  rw [List.mem_eraseDups, ne_eq, last?_eq_none, not_not]

theorem Log.nodup_firstChanges : log.firstChanges.Nodup := by
  unfold firstChanges
  generalize log.mutations.map Prod.fst = routes
  induction hn : routes.length using Nat.strongRecOn generalizing routes with
  | _ n ih =>
    cases routes with
    | nil => simp
    | cons r rest =>
      rw [List.eraseDups_cons, List.nodup_cons]
      refine ⟨by simp [List.mem_eraseDups], ih _ ?_ _ rfl⟩
      have hle := List.length_filter_le (fun s => !(s == r)) rest
      grind

theorem Records.isPlace (h : Records base o log) {r : Route} (hr : r ∈ log.firstChanges) :
    r.IsPlace := by
  obtain ⟨e, he, rfl⟩ := List.mem_map.1 (List.mem_eraseDups.1 hr)
  exact h.places e he

/-- There is a command for a file exactly if its content has changed, and it tells so. -/
theorem Log.command?_cases (log : Log) (base : FileTree) (format : Bool) (r : Route) :
    (log.command? base format r = none ∧ log.content base r = base.files[r]?) ∨
      ∃ c, log.command? base format r = some c ∧ c.primaryPath = r.toPath ∧
        log.content base r ≠ base.files[r]? ∧ Tells format base.files[r]? (log.content base r) c := by
  unfold command? content
  rcases log.last? r with _ | _ | _
  · exact Or.inl ⟨rfl, rfl⟩
  · rename_i data
    cases hb : base.files[r]? with
    | none => exact Or.inr ⟨.create r.toPath data format, rfl, rfl, by simp, rfl, rfl, rfl⟩
    | some old =>
      by_cases he : old = data
      · exact Or.inl ⟨by simp [Mutation.change, commandOf?, he], by simp [he]⟩
      · refine Or.inr ⟨.update r.toPath old data format, ?_, rfl, ?_, rfl, rfl, rfl, Ne.symm he⟩
        · simp [Mutation.change, commandOf?, he]
        · simpa using Ne.symm he
  · cases hb : base.files[r]? with
    | none => exact Or.inl ⟨rfl, rfl⟩
    | some old => exact Or.inr ⟨.delete r.toPath, rfl, rfl, by simp, rfl, rfl⟩

theorem getElem?_effect_of_tells {before after : Option String} {c : FileCommand}
    (h : Tells format before after c) (files : Std.ExtTreeMap Route String) (q : Route) :
    (c.effect files)[q]? = if c.primaryPath.route = q then after else files[q]? := by
  cases c with
  | create p data f =>
    obtain ⟨-, -, rfl⟩ := h
    by_cases hq : p.route = q <;>
      simp [FileCommand.effect, FileCommand.primaryPath, Std.ExtTreeMap.getElem?_insert, hq]
  | update p old data f =>
    obtain ⟨-, -, rfl, -⟩ := h
    by_cases hq : p.route = q <;>
      simp [FileCommand.effect, FileCommand.primaryPath, Std.ExtTreeMap.getElem?_insert, hq]
  | delete p =>
    obtain ⟨-, rfl⟩ := h
    by_cases hq : p.route = q <;>
      simp [FileCommand.effect, FileCommand.primaryPath, Std.ExtTreeMap.getElem?_erase, hq]
  | move p q => exact absurd h id
  | copy p q => exact absurd h id

/-- The effects of the commands for some files, one after the other: each sets its own file only. -/
theorem getElem?_effects {routes : List Route} (hplaces : ∀ r ∈ routes, r.IsPlace)
    (hnodup : routes.Nodup) (files : Std.ExtTreeMap Route String)
    (hfiles : ∀ r ∈ routes, files[r]? = base.files[r]?) (q : Route) :
    ((routes.filterMap (log.command? base format)).foldl FileCommand.effect files)[q]? =
      if q ∈ routes then log.content base q else files[q]? := by
  induction routes generalizing files with
  | nil => simp
  | cons r rest ih =>
    obtain ⟨hnew, hnodup⟩ := List.nodup_cons.1 hnodup
    have hplaces' : ∀ r ∈ rest, r.IsPlace := fun s hs => hplaces s (List.mem_cons_of_mem _ hs)
    have hr : files[r]? = base.files[r]? := hfiles r (List.mem_cons_self ..)
    rw [List.filterMap_cons]
    rcases log.command?_cases base format r with ⟨hc, hsame⟩ | ⟨c, hc, hpath, -, htells⟩
    · rw [hc, ih hplaces' hnodup files fun s hs => hfiles s (List.mem_cons_of_mem _ hs)]
      by_cases hq : q = r
      · subst hq
        simp [hnew, hr, hsame]
      · simp [hq]
    · have hroute : c.primaryPath.route = r := by
        rw [hpath, (hplaces r (List.mem_cons_self ..)).route_toPath]
      have heffect := getElem?_effect_of_tells htells files
      rw [hroute] at heffect
      rw [hc, List.foldl_cons, ih hplaces' hnodup]
      · rw [heffect]
        by_cases hq : q = r
        · subst hq
          simp [hnew]
        · simp [hq, Ne.symm hq]
      · intro s hs
        have hne : r ≠ s := fun he => hnew (he ▸ hs)
        rw [heffect, if_neg hne]
        exact hfiles s (List.mem_cons_of_mem _ hs)

theorem Records.map_route_commands (h : Records base o log) (format : Bool) :
    (o.commands format).map (fun c => c.primaryPath.route) =
      log.firstChanges.filter fun r => log.content base r ≠ base.files[r]? := by
  have hplaces : ∀ r ∈ log.firstChanges, r.IsPlace := fun r hr => h.isPlace hr
  rw [h.commands_eq]
  generalize log.firstChanges = routes at hplaces ⊢
  induction routes with
  | nil => rfl
  | cons r rest ih =>
    have hrest := ih fun s hs => hplaces s (List.mem_cons_of_mem _ hs)
    rw [List.filterMap_cons, List.filter_cons]
    rcases log.command?_cases base format r with ⟨hc, hsame⟩ | ⟨c, hc, hpath, hne, -⟩
    · simp [hc, hsame, hrest]
    · have hroute : c.primaryPath.route = r := by
        rw [hpath, (hplaces r (List.mem_cons_self ..)).route_toPath]
      simp [hc, hne, hrest, hroute]

theorem Records.tells_of_mem (h : Records base o log) {c : FileCommand}
    (hc : c ∈ o.commands format) :
    ∃ r : Route, r.IsPlace ∧ c.primaryPath = r.toPath ∧
      Tells format base.files[r]? (log.content base r) c := by
  rw [h.commands_eq] at hc
  obtain ⟨r, hr, hc⟩ := List.mem_filterMap.1 hc
  rcases log.command?_cases base format r with ⟨hnone, -⟩ | ⟨c', hc', hpath, -, htells⟩
  · rw [hnone] at hc
    cases hc
  · obtain rfl := Option.some.inj (hc'.symm.trans hc)
    exact ⟨r, h.isPlace hr, hpath, htells⟩

theorem Records.denotes (h : Records base o log) (format : Bool) :
    Denotes base log format (o.commands format) := by
  have hroutes := h.map_route_commands format
  refine ⟨?_, ?_, ?_, ?_, ?_, ?_⟩
  · rw [hroutes]
    exact Log.nodup_firstChanges.filter _
  · rw [hroutes]
    exact List.filter_sublist
  · intro c hc
    obtain ⟨r, hr, hpath, -⟩ := h.tells_of_mem hc
    rw [hpath, Path.normalize, hr.route_toPath]
  · intro c hc
    obtain ⟨r, hr, hpath, htells⟩ := h.tells_of_mem hc
    rwa [hpath, hr.route_toPath]
  · intro r
    rw [hroutes, List.mem_filter, decide_eq_true_eq, Log.mem_firstChanges]
    refine ⟨And.right, fun hne => ⟨fun hnone => hne ?_, hne⟩⟩
    rw [Log.content, hnone]
  · rintro digest w w' previews rfl happly r
    obtain ⟨-, t, ht, rfl⟩ := Run.applyAll_wet_eq_ok.1 happly
    rw [FileCommand.files_of_carryOut ht, h.commands_eq,
      getElem?_effects (fun s hs => h.isPlace hs) Log.nodup_firstChanges _ fun s _ => rfl]
    split
    · rfl
    · rename_i hr
      rw [Log.mem_firstChanges, not_not] at hr
      rw [Log.content, hr]

/-- **The commands of an overlay denote it**, after any sequence of operations over any tree. -/
theorem commands_denote (base : FileTree) (hbase : base.Built) (ops : List Op) (format : Bool) :
    Denotes base (run base ops).2 format ((run base ops).1.commands format) :=
  (records_run hbase.placed ops).denotes format

/-- A file is rewritten and then given its old content back, another is created and deleted, and a
third one is deleted, written again and moved. -/
theorem commands_denote_rewritten :
    (FileTree.ofFiles [(⟨"/a"⟩, "x"), (⟨"/b"⟩, "y")]).Built ∧
      Denotes (FileTree.ofFiles [(⟨"/a"⟩, "x"), (⟨"/b"⟩, "y")])
        (run (.ofFiles [(⟨"/a"⟩, "x"), (⟨"/b"⟩, "y")])
          [.write ⟨"/a"⟩ "z", .write ⟨"/c"⟩ "c", .delete ⟨"/b"⟩, .write ⟨"/a"⟩ "x", .delete ⟨"/c"⟩,
            .write ⟨"/b"⟩ "w", .move ⟨"/b"⟩ ⟨"/d"⟩]).2 true
        ((run (.ofFiles [(⟨"/a"⟩, "x"), (⟨"/b"⟩, "y")])
          [.write ⟨"/a"⟩ "z", .write ⟨"/c"⟩ "c", .delete ⟨"/b"⟩, .write ⟨"/a"⟩ "x", .delete ⟨"/c"⟩,
            .write ⟨"/b"⟩ "w", .move ⟨"/b"⟩ ⟨"/d"⟩]).1.commands true) :=
  ⟨.ofFiles _, commands_denote _ (.ofFiles _) _ _⟩

end BulkEdit.Overlay
