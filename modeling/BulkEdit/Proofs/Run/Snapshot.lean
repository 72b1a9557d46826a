import BulkEdit.Proofs.Command.Effect
import BulkEdit.Run.Snapshot

/-!
# Snapshots of trees

A snapshot shows a tree if it has the contents of its files (`Shows`). Capturing all files of a tree that
is made of files gives a snapshot that shows it and a copy of the tree (`capture_keys`).
-/

namespace BulkEdit

theorem Path.compare_eq_eq {p q : Path} : compare p q = .eq ↔ p.components = q.components :=
  Std.compare_eq_iff_eq (a := p.components) (b := q.components)

theorem Path.route_of_isPlace {p : Path} (h : Route.IsPlace p.components) : p.route = p.components :=
  h.foldl_step

namespace Snapshot

variable {before : Snapshot} {t : FileTree} {p : Path}

/-- The snapshot has the contents of the tree's files, each under any spelling of its route. -/
def Shows (s : Snapshot) (t : FileTree) : Prop :=
  ∀ p : Path, s[p]? = t.files[p.components]?

theorem Shows.mem_iff (h : before.Shows t) : p ∈ before ↔ p.components ∈ t.files := by
  rw [Std.ExtTreeMap.mem_iff_isSome_getElem?, Std.ExtTreeMap.mem_iff_isSome_getElem?, h p]

theorem mem_ofList {α : Type} {entries : List (Path × α)} :
    p ∈ (Std.ExtTreeMap.ofList entries : Std.ExtTreeMap Path α) ↔
      ∃ e ∈ entries, e.1.components = p.components := by
  let _ : BEq Path := ⟨Path.sameAs⟩
  have hlawful : Std.LawfulBEqCmp (compare : Path → Path → Ordering) :=
    ⟨fun {a b} => by rw [Path.compare_eq_eq]; exact beq_iff_eq.symm⟩
  rw [Std.ExtTreeMap.mem_ofList, List.contains_iff_exists_mem_beq]
  simp only [List.mem_map, exists_exists_and_eq_and]
  refine exists_congr fun e => and_congr_right fun _ => ?_
  exact (beq_iff_eq (a := p.components) (b := e.1.components)).trans eq_comm

theorem exists_mem_toList {α : Type} {m : Std.ExtTreeMap Path α} (h : p ∈ m) :
    ∃ q a, (q, a) ∈ m.toList ∧ q.components = p.components := by
  obtain ⟨a, ha⟩ := Option.isSome_iff_exists.1 (Std.ExtTreeMap.mem_iff_isSome_getElem?.1 h)
  obtain ⟨q, hq, hlisted⟩ :=
    Std.ExtTreeMap.getElem?_eq_some_iff_exists_compare_eq_eq_and_mem_toList.1 ha
  exact ⟨q, a, hlisted, (Path.compare_eq_eq.1 hq).symm⟩

theorem shows_ofTree (h : t.Placed) : (ofTree t).Shows t := by
  intro p
  have hspelled : ∀ r ∈ t.files, r.toPath.components = r :=
    fun r hr => (h.files r hr).components_toPath
  have hmem : ∀ e ∈ t.files.toList, e.1 ∈ t.files := fun e he =>
    FileTree.mem_files_of_getElem? (Std.ExtTreeMap.mem_toList_iff_getElem?_eq_some.1 he)
  unfold ofTree FileTree.fileList
  cases hp : t.files[p.components]? with
  | none =>
    refine Std.ExtTreeMap.getElem?_eq_none fun hin => ?_
    obtain ⟨e, he, hcomponents⟩ := mem_ofList.1 hin
    obtain ⟨file, hfile, rfl⟩ := List.mem_map.1 he
    rw [hspelled file.1 (hmem file hfile)] at hcomponents
    have := hmem file hfile
    rw [hcomponents, Std.ExtTreeMap.mem_iff_isSome_getElem?, hp] at this
    cases this
  | some data =>
    have hlisted := Std.ExtTreeMap.mem_toList_iff_getElem?_eq_some.2 hp
    have hin : p.components ∈ t.files := hmem _ hlisted
    refine Std.ExtTreeMap.getElem?_ofList_of_mem (k := Route.toPath p.components) ?_ ?_ ?_
    · rw [Path.compare_eq_eq, hspelled _ hin]
    · rw [List.pairwise_map]
      refine Std.ExtTreeMap.distinct_keys_toList.imp_of_mem fun {a b} ha hb hne => ?_
      rw [Path.compare_eq_eq, hspelled _ (hmem a ha), hspelled _ (hmem b hb)]
      exact fun he => hne (he ▸ Std.ReflCmp.compare_self)
    · exact List.mem_map.2 ⟨_, hlisted, rfl⟩

/-! ### Capturing files -/

/-- What is kept after some files of a tree have been captured. -/
theorem capture_routes (routes : List Route) (hroutes : ∀ r ∈ routes, r.IsPlace ∧ r ∈ t.files)
    (kept : Snapshot × FileTree) (hexact : kept.2.Exact) :
    (capture t kept (routes.map Route.toPath)).2.Exact ∧
      (∀ r : Route, (capture t kept (routes.map Route.toPath)).2.files[r]? =
        if r ∈ routes then t.files[r]? else kept.2.files[r]?) ∧
      ∀ p : Path, (capture t kept (routes.map Route.toPath)).1[p]? =
        if p.components ∈ routes then t.files[p.components]? else kept.1[p]? := by
  induction routes generalizing kept with
  | nil => exact ⟨hexact, by simp [capture], by simp [capture]⟩
  | cons r rest ih =>
    obtain ⟨hplace, hr⟩ := hroutes r (List.mem_cons_self ..)
    obtain ⟨data, hdata⟩ := Option.isSome_iff_exists.1 (Std.ExtTreeMap.mem_iff_isSome_getElem?.1 hr)
    have hread : t.read r.toPath = .ok data := by
      rw [FileTree.read_eq_ok, hplace.route_toPath, hdata]
    obtain ⟨hexact, hfiles, hkept⟩ := ih (fun s hs => hroutes s (List.mem_cons_of_mem _ hs))
      (kept.1.insert r.toPath data, kept.2.seed r.toPath data) (hexact.seed _ _)
    rw [List.map_cons, capture, hread]
    refine ⟨hexact, fun q => ?_, fun p => ?_⟩
    · rw [hfiles q]
      by_cases hq : q = r
      · subst hq
        simp [FileTree.seed, FileTree.addAncestors_files, hplace.route_toPath, hdata]
      · simp [FileTree.seed, FileTree.addAncestors_files, hplace.route_toPath, hq,
          Std.ExtTreeMap.getElem?_insert, Ne.symm hq]
    · rw [hkept p]
      by_cases hp : p.components = r
      · have hcompare : compare r.toPath p = .eq := by
          rw [Path.compare_eq_eq, hplace.components_toPath, hp]
        rw [Std.ExtTreeMap.getElem?_insert, if_pos hcompare, hp, hdata]
        simp
      · have hcompare : compare r.toPath p ≠ .eq := by
          rw [Ne, Path.compare_eq_eq, hplace.components_toPath]
          exact Ne.symm hp
        rw [Std.ExtTreeMap.getElem?_insert, if_neg hcompare]
        simp [hp]

/-- **Capturing all files** of a tree that is made of files copies the tree. -/
theorem capture_keys (hplaced : t.Placed) (hexact : t.Exact) :
    (capture t (∅, .empty) (t.files.keys.map Route.toPath)).2 = t ∧
      (capture t (∅, .empty) (t.files.keys.map Route.toPath)).1.Shows t := by
  have hkeys : ∀ r ∈ t.files.keys, r.IsPlace ∧ r ∈ t.files := by
    intro r hr
    have hr := Std.ExtTreeMap.mem_of_mem_keys hr
    exact ⟨hplaced.files r hr, hr⟩
  have hnone : ∀ r : Route, r ∉ t.files.keys → t.files[r]? = none := by
    intro r hr
    exact Std.ExtTreeMap.getElem?_eq_none fun hin => hr (Std.ExtTreeMap.mem_keys.2 hin)
  obtain ⟨hcopy, hfiles, hkept⟩ := capture_routes t.files.keys hkeys (∅, .empty)
    FileTree.exact_empty
  refine ⟨hcopy.ext hexact fun r => ?_, fun p => ?_⟩
  · rw [hfiles r]
    split
    · rfl
    · rename_i hr
      rw [hnone r hr]
      simp [FileTree.empty]
  · rw [hkept p]
    split
    · rfl
    · rename_i hp
      rw [hnone _ hp]
      simp

end Snapshot

end BulkEdit
