import Mathlib.Data.List.Forall2
import BulkEdit.Proofs.FileTree.Walk
import BulkEdit.Proofs.Run.Snapshot

/-!
# Differences of snapshots

A snapshot is a map of contents by path, and a command changes such a map (`FileCommand.patch`). The
difference of two snapshots turns the first into the second, and says no more than that takes
(`diff_exact`): each command brings its own path to what the second snapshot has there (`Needed.patch`),
and where the two differ there is a command.

Of the paths that were removed on the way nothing depends but how a deleted path is spelled.
-/

namespace BulkEdit

theorem Path.sameAs_iff {p q : Path} : p.sameAs q ↔ p.components = q.components :=
  beq_iff_eq

namespace FileCommand

/-- What a command makes of a map of contents by path. -/
def patch (s : Snapshot) : FileCommand → Snapshot
  | create p data _ => s.insert p data
  | update p _ data _ => s.insert p data
  | delete p => s.erase p
  | move p q => (s.insert q (s.getD p "")).erase p
  | copy p q => s.insert q (s.getD p "")

/-- A command that has a reason in two snapshots: a file is created that the first does not have, it is
updated from what the first has to something else, or it is deleted because the second does not have
it. -/
def Needed (before current : Snapshot) (format : Bool) : FileCommand → Prop
  | create p data f => p ∉ before ∧ current[p]? = some data ∧ f = format
  | update p old data f =>
    before[p]? = some old ∧ current[p]? = some data ∧ old ≠ data ∧ f = format
  | delete p => p ∈ before ∧ p ∉ current
  | move _ _ => False
  | copy _ _ => False

/-- Two commands that differ in the spelling of their paths at most. -/
def SameAs : FileCommand → FileCommand → Prop
  | create p data f, create q data' f' => p.sameAs q ∧ data = data' ∧ f = f'
  | update p old data f, update q old' data' f' => p.sameAs q ∧ old = old' ∧ data = data' ∧ f = f'
  | delete p, delete q => p.sameAs q
  | move p p', move q q' => p.sameAs q ∧ p'.sameAs q'
  | copy p p', copy q q' => p.sameAs q ∧ p'.sameAs q'
  | _, _ => False

theorem SameAs.refl (c : FileCommand) : c.SameAs c := by
  cases c <;> simp [SameAs, Path.sameAs_iff]

variable {before current s : Snapshot} {format : Bool} {c : FileCommand} {p : Path}

/-- **Step:** a command that has a reason brings its path to the second snapshot. -/
theorem Needed.patch (h : c.Needed before current format) (s : Snapshot) (p : Path) :
    (c.patch s)[p]? = if c.primaryPath.components = p.components then current[p]? else s[p]? := by
  have hinsert {q : Path} {data : String} (hdata : current[q]? = some data) :
      (s.insert q data)[p]? = if q.components = p.components then current[p]? else s[p]? := by
    rw [Std.ExtTreeMap.getElem?_insert]
    by_cases hq : q.components = p.components
    · rw [if_pos (Path.compare_eq_eq.2 hq), if_pos hq, ← hdata,
        Std.ExtTreeMap.getElem?_congr (Path.compare_eq_eq.2 hq)]
    · rw [if_neg (mt Path.compare_eq_eq.1 hq), if_neg hq]
  cases c with
  | create q data f => exact hinsert h.2.1
  | update q old data f => exact hinsert h.2.1
  | delete q =>
    rw [FileCommand.patch, primaryPath, Std.ExtTreeMap.getElem?_erase]
    by_cases hq : q.components = p.components
    · rw [if_pos (Path.compare_eq_eq.2 hq), if_pos hq,
        ← Std.ExtTreeMap.getElem?_congr (Path.compare_eq_eq.2 hq),
        Std.ExtTreeMap.getElem?_eq_none h.2]
    · rw [if_neg (mt Path.compare_eq_eq.1 hq), if_neg hq]
  | move => exact h.elim
  | copy => exact h.elim

/-- A command that has a reason stands where the two snapshots differ. -/
theorem Needed.differ (h : c.Needed before current format) :
    before[c.primaryPath]? ≠ current[c.primaryPath]? := by
  cases c with
  | create q data f =>
    obtain ⟨hnew, hdata, -⟩ := h
    simp [primaryPath, hdata, Std.ExtTreeMap.getElem?_eq_none hnew]
  | update q old data f =>
    obtain ⟨hold, hdata, hne, -⟩ := h
    simp [primaryPath, hold, hdata, hne]
  | delete q =>
    obtain ⟨hold, hgone⟩ := h
    rw [Std.ExtTreeMap.mem_iff_isSome_getElem?] at hold
    rw [primaryPath, Std.ExtTreeMap.getElem?_eq_none hgone]
    exact fun he => by simp [he] at hold
  | move => exact h.elim
  | copy => exact h.elim

/-- **Run:** commands that have reasons bring all their paths to the second snapshot. -/
theorem foldl_patch {commands : List FileCommand}
    (h : ∀ c ∈ commands, c.Needed before current format) (s : Snapshot) (p : Path) :
    (commands.foldl FileCommand.patch s)[p]? =
      if p.components ∈ commands.map (fun c => c.primaryPath.components) then current[p]? else s[p]? := by
  induction commands generalizing s with
  | nil => simp
  | cons c rest ih =>
    rw [List.foldl_cons, ih (fun d hd => h d (List.mem_cons_of_mem _ hd)),
      (h c (List.mem_cons_self ..)).patch, List.map_cons]
    by_cases hp : c.primaryPath.components = p.components
    · simp [hp]
    · simp [hp, Ne.symm hp]

end FileCommand

namespace Snapshot

variable {before current : Snapshot} {removed : Std.ExtTreeSet Path} {format : Bool} {p : Path}

/-! ### What is missing -/

theorem mem_filter_gone : (before.contains p && !current.contains p) = true ↔ p ∈ before ∧ p ∉ current := by
  rw [Bool.and_eq_true, Bool.not_eq_true', ← Bool.not_eq_true, Std.ExtTreeMap.contains_iff_mem,
    Std.ExtTreeMap.contains_iff_mem]

theorem mem_congr {s : Snapshot} {q : Path} (h : p.components = q.components) : p ∈ s ↔ q ∈ s :=
  Std.ExtTreeMap.mem_congr (Path.compare_eq_eq.2 h)

theorem of_mem_missing (h : p ∈ missing before removed current) : p ∈ before ∧ p ∉ current := by
  unfold missing at h
  obtain ⟨e, he, hcomponents⟩ := mem_ofList.1 (Std.ExtTreeMap.mem_of_mem_keys h)
  obtain ⟨q, hq, rfl⟩ := List.mem_map.1 he
  have hgone := mem_filter_gone.1 (List.mem_filter.1 hq).2
  rwa [mem_congr hcomponents, mem_congr hcomponents] at hgone

theorem exists_mem_missing (removed : Std.ExtTreeSet Path) (hbefore : p ∈ before) (hcurrent : p ∉ current) :
    ∃ q ∈ missing before removed current, q.components = p.components := by
  obtain ⟨q, data, hq, hcomponents⟩ := exists_mem_toList hbefore
  have hkey : q ∈ before.keys := by
    rw [← Std.ExtTreeMap.map_fst_toList_eq_keys]
    exact List.mem_map.2 ⟨_, hq, rfl⟩
  have hlisted : q ∈ (before.keys ++ removed.toList).filter fun path =>
      before.contains path && !current.contains path := by
    refine List.mem_filter.2 ⟨List.mem_append_left _ hkey, mem_filter_gone.2 ?_⟩
    rw [mem_congr hcomponents, mem_congr hcomponents]
    exact ⟨hbefore, hcurrent⟩
  have hmem : p ∈ (Std.ExtTreeMap.ofList (((before.keys ++ removed.toList).filter fun path =>
      before.contains path && !current.contains path).map fun path => (path, ())) :
      Std.ExtTreeMap Path Unit) :=
    mem_ofList.2 ⟨(q, ()), List.mem_map.2 ⟨q, hlisted, rfl⟩, hcomponents⟩
  obtain ⟨r, u, hr, hsame⟩ := exists_mem_toList hmem
  refine ⟨r, ?_, hsame⟩
  unfold missing
  rw [← Std.ExtTreeMap.map_fst_toList_eq_keys]
  exact List.mem_map.2 ⟨_, hr, rfl⟩

theorem components_ne_of_ascending {l : List Path} (h : l.Pairwise fun p q => compare p q = .lt) :
    l.Pairwise fun p q => p.components ≠ q.components := by
  refine h.imp fun {p q} hlt he => ?_
  rw [Path.compare_eq_eq.2 he] at hlt
  cases hlt

theorem ascending_missing (before current : Snapshot) (removed : Std.ExtTreeSet Path) :
    (missing before removed current).Pairwise fun p q => compare p q = .lt :=
  Std.ExtTreeMap.ordered_keys

/-- Of the paths that were removed on the way only spellings depend. -/
theorem map_components_missing (before current : Snapshot) (removed removed' : Std.ExtTreeSet Path) :
    (missing before removed current).map Path.components =
      (missing before removed' current).map Path.components := by
  have hascending : ∀ removed, ((missing before removed current).map Path.components).Pairwise
      fun a b => compare a b = .lt := fun removed =>
    List.pairwise_map.2 (ascending_missing before current removed)
  have hsub : ∀ removed removed', ∀ r ∈ (missing before removed current).map Path.components,
      r ∈ (missing before removed' current).map Path.components := by
    intro removed removed' r hr
    obtain ⟨p, hp, rfl⟩ := List.mem_map.1 hr
    obtain ⟨hbefore, hcurrent⟩ := of_mem_missing hp
    obtain ⟨q, hq, hsame⟩ := exists_mem_missing removed' hbefore hcurrent
    exact List.mem_map.2 ⟨q, hq, hsame⟩
  exact Route.eq_of_ascending (hascending removed) (hascending removed')
    fun r => ⟨hsub _ _ r, hsub _ _ r⟩

/-! ### What is written -/

def writes (before current : Snapshot) (format : Bool) : List FileCommand :=
  current.toList.filterMap fun (path, data) => write? before format path data

theorem diff_eq : before.diff removed current format =
    (missing before removed current).map .delete ++ writes before current format := rfl

/-- New contents are a file to create or one to update. -/
theorem write?_eq_some {data : String} {c : FileCommand} (h : write? before format p data = some c) :
    (p ∉ before ∧ c = .create p data format) ∨
      ∃ old, before[p]? = some old ∧ old ≠ data ∧ c = .update p old data format := by
  unfold write? at h
  split at h
  · rename_i hold
    refine Or.inl ⟨fun hin => ?_, (Option.some.inj h).symm⟩
    rw [Std.ExtTreeMap.mem_iff_isSome_getElem?, hold] at hin
    cases hin
  · rename_i old hold
    split at h
    · cases h
    · rename_i hne
      exact Or.inr ⟨old, hold, hne, (Option.some.inj h).symm⟩

theorem primaryPath_of_write? {data : String} {c : FileCommand}
    (h : write? before format p data = some c) : c.primaryPath = p := by
  obtain ⟨-, rfl⟩ | ⟨old, -, -, rfl⟩ := write?_eq_some h <;> rfl

theorem needed_of_write? {data : String} {c : FileCommand} (hcurrent : current[p]? = some data)
    (h : write? before format p data = some c) : c.Needed before current format := by
  obtain ⟨hnew, rfl⟩ | ⟨old, hold, hne, rfl⟩ := write?_eq_some h
  · exact ⟨hnew, hcurrent, rfl⟩
  · exact ⟨hold, hcurrent, hne, rfl⟩

theorem write?_eq_none {data : String} : write? before format p data = none ↔ before[p]? = some data := by
  unfold write?
  cases before[p]? with
  | none => simp
  | some old => by_cases h : old = data <;> simp [h]

theorem getElem?_of_mem_toList {data : String} (h : (p, data) ∈ current.toList) :
    current[p]? = some data :=
  (Std.ExtTreeMap.mem_toList_iff_getKey?_eq_some_and_getElem?_eq_some.1 h).2

theorem ascending_writes (before current : Snapshot) (format : Bool) :
    ((writes before current format).map FileCommand.primaryPath).Pairwise fun p q => compare p q = .lt := by
  have hsub : ((writes before current format).map FileCommand.primaryPath).Sublist
      (current.toList.map Prod.fst) := by
    unfold writes
    generalize current.toList = items
    induction items with
    | nil => simp
    | cons e rest ih =>
      obtain ⟨q, data⟩ := e
      rw [List.filterMap_cons]
      split
      · exact ih.cons _
      · rename_i c hc
        rw [List.map_cons, List.map_cons, primaryPath_of_write? hc]
        exact ih.cons_cons _
  rw [Std.ExtTreeMap.map_fst_toList_eq_keys] at hsub
  exact Std.ExtTreeMap.ordered_keys.sublist hsub

theorem not_delete_of_mem_writes {c : FileCommand} (h : c ∈ writes before current format) (q : Path) :
    c ≠ .delete q := by
  obtain ⟨⟨p, data⟩, -, hc⟩ := List.mem_filterMap.1 h
  obtain ⟨-, rfl⟩ | ⟨old, -, -, rfl⟩ := write?_eq_some hc <;> exact FileCommand.noConfusion

/-! ### The whole difference -/

theorem needed_of_mem_diff {c : FileCommand} (h : c ∈ before.diff removed current format) :
    c.Needed before current format := by
  rcases List.mem_append.1 h with h | h
  · obtain ⟨p, hp, rfl⟩ := List.mem_map.1 h
    exact of_mem_missing hp
  · obtain ⟨⟨p, data⟩, hp, hc⟩ := List.mem_filterMap.1 h
    exact needed_of_write? (getElem?_of_mem_toList hp) hc

theorem exists_delete_mem_diff (removed : Std.ExtTreeSet Path) (format : Bool) (hbefore : p ∈ before)
    (hcurrent : p ∉ current) :
    ∃ q : Path, q.components = p.components ∧ .delete q ∈ before.diff removed current format := by
  obtain ⟨q, hq, hsame⟩ := exists_mem_missing removed hbefore hcurrent
  exact ⟨q, hsame, List.mem_append_left _ (List.mem_map_of_mem hq)⟩

theorem exists_write_mem_diff (removed : Std.ExtTreeSet Path) (format : Bool) {data : String}
    (hbefore : before[p]? ≠ some data) (hcurrent : current[p]? = some data) :
    ∃ q : Path, q.components = p.components ∧
      ∃ c ∈ before.diff removed current format, write? before format q data = some c := by
  obtain ⟨q, other, hq, hsame⟩ :=
    exists_mem_toList (Std.ExtTreeMap.mem_iff_isSome_getElem?.2 (Option.isSome_of_mem hcurrent))
  have hcompare : compare q p = .eq := Path.compare_eq_eq.2 hsame
  have hother := getElem?_of_mem_toList hq
  rw [Std.ExtTreeMap.getElem?_congr hcompare, hcurrent] at hother
  obtain rfl := Option.some.inj hother
  rw [← Std.ExtTreeMap.getElem?_congr hcompare] at hbefore
  obtain ⟨c, hc⟩ := Option.ne_none_iff_exists'.1 (mt write?_eq_none.1 hbefore)
  exact ⟨q, hsame, c, List.mem_append_right _ (List.mem_filterMap.2 ⟨_, hq, hc⟩), hc⟩

theorem exists_mem_diff (removed : Std.ExtTreeSet Path) (format : Bool) (h : before[p]? ≠ current[p]?) :
    ∃ c ∈ before.diff removed current format, c.primaryPath.components = p.components := by
  cases hcurrent : current[p]? with
  | none =>
    rw [hcurrent, Option.ne_none_iff_isSome, ← Std.ExtTreeMap.mem_iff_isSome_getElem?] at h
    have hgone : p ∉ current := by simp [Std.ExtTreeMap.mem_iff_isSome_getElem?, hcurrent]
    obtain ⟨q, hsame, hq⟩ := exists_delete_mem_diff removed format h hgone
    exact ⟨_, hq, hsame⟩
  | some data =>
    rw [hcurrent] at h
    obtain ⟨q, hsame, c, hc, hwrite⟩ := exists_write_mem_diff removed format h hcurrent
    exact ⟨c, hc, by rw [primaryPath_of_write? hwrite, hsame]⟩

/-- What a list of commands has to be in order to be the difference of two snapshots. -/
structure IsDifference (before current : Snapshot) (format : Bool) (commands : List FileCommand) :
    Prop where
  /-- The commands turn the first snapshot into the second. -/
  rebuilds : ∀ p : Path, (commands.foldl FileCommand.patch before)[p]? = current[p]?
  once : commands.Pairwise fun c d => c.primaryPath.components ≠ d.primaryPath.components
  ordered : ∃ gone : List Path, ∃ written : List FileCommand, commands = gone.map .delete ++ written ∧
    (∀ c ∈ written, ∀ p, c ≠ .delete p) ∧ (gone.Pairwise fun p q => compare p q = .lt) ∧
    (written.map FileCommand.primaryPath).Pairwise fun p q => compare p q = .lt
  needed : ∀ c ∈ commands, c.Needed before current format
  eq_nil_iff : commands = [] ↔ ∀ p : Path, before[p]? = current[p]?

theorem diff_eq_nil_iff : before.diff removed current format = [] ↔
    ∀ p : Path, before[p]? = current[p]? := by
  constructor
  · intro h p
    by_contra hne
    obtain ⟨c, hc, -⟩ := exists_mem_diff removed format hne
    rw [h] at hc
    cases hc
  · intro h
    refine List.eq_nil_iff_forall_not_mem.2 fun c hc => ?_
    exact (needed_of_mem_diff hc).differ (h _)

theorem isDifference_diff (before current : Snapshot) (removed : Std.ExtTreeSet Path) (format : Bool) :
    IsDifference before current format (before.diff removed current format) where
  rebuilds p := by
    rw [FileCommand.foldl_patch fun c hc => needed_of_mem_diff hc]
    split
    · rfl
    · rename_i hout
      by_contra hne
      obtain ⟨c, hc, hsame⟩ := exists_mem_diff removed format hne
      exact hout (List.mem_map.2 ⟨c, hc, hsame⟩)
  once := by
    have hgone := components_ne_of_ascending (ascending_missing before current removed)
    have hwritten := List.pairwise_map.1
      (components_ne_of_ascending (ascending_writes before current format))
    rw [diff_eq, List.pairwise_append]
    refine ⟨List.pairwise_map.2 hgone, hwritten, fun c hc d hd hsame => ?_⟩
    -- what is deleted is no longer there, and what is written is
    obtain ⟨p, hp, rfl⟩ := List.mem_map.1 hc
    obtain ⟨⟨q, data⟩, hq, hwrite⟩ := List.mem_filterMap.1 hd
    rw [primaryPath_of_write? hwrite] at hsame
    refine (of_mem_missing hp).2 ((mem_congr hsame).2 ?_)
    rw [Std.ExtTreeMap.mem_iff_isSome_getElem?, getElem?_of_mem_toList hq]
    rfl
  ordered := ⟨_, _, diff_eq, fun _ hc => not_delete_of_mem_writes hc,
    ascending_missing before current removed, ascending_writes before current format⟩
  needed _ hc := needed_of_mem_diff hc
  eq_nil_iff := diff_eq_nil_iff

/-- **The difference of two snapshots is exact.** Its commands turn the first into the second, each path
has one command at most, deletions come first and then new contents, each in path order, and there is
none without a reason. The paths that were removed on the way make no difference. -/
theorem diff_exact (before current : Snapshot) (removed removed' : Std.ExtTreeSet Path)
    (format : Bool) :
    IsDifference before current format (before.diff removed current format) ∧
      List.Forall₂ FileCommand.SameAs (before.diff removed current format)
        (before.diff removed' current format) := by
  refine ⟨isDifference_diff before current removed format, ?_⟩
  have hsame := map_components_missing before current removed removed'
  rw [← List.forall₂_eq_eq_eq, List.forall₂_map_left_iff, List.forall₂_map_right_iff] at hsame
  have hgone : List.Forall₂ FileCommand.SameAs ((missing before removed current).map .delete)
      ((missing before removed' current).map .delete) := by
    rw [List.forall₂_map_left_iff, List.forall₂_map_right_iff]
    exact hsame.imp fun _ _ => Path.sameAs_iff.2
  rw [diff_eq, diff_eq]
  exact List.rel_append hgone (List.forall₂_same.2 fun c _ => FileCommand.SameAs.refl c)

end Snapshot

end BulkEdit
