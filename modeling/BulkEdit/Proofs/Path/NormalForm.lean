import BulkEdit.Proofs.Path.Join
import BulkEdit.Worker.FileRun

/-!
# Normalized paths

Normalizing a path once is enough, since the normalized path leads to the same place (`route_normalize`), and
a path may be normalized before or after another one is joined to it (`route_normalize_join`), since the
steps of the other one start from the same place. So the key of a path does not depend on when it was
normalized, and a created file has the same key whether it is taken from the folder as it is written or from
the normalized one (`normalize_stable`).
-/

namespace BulkEdit

/-! ### The normal form -/

namespace Route

variable {r : Route}

theorem mem_head {head : Route} (hhead : head ∈ heads) {c : Component} (hc : c ∈ head) :
    c = .root ∨ c = .up := by
  have hheads : ∀ head ∈ heads, ∀ c ∈ head, c = Component.root ∨ c = .up := by decide
  exact hheads head hhead c hc

theorem IsPlace.current_not_mem (h : r.IsPlace) : .current ∉ r := by
  obtain ⟨head, names, rfl, hhead, hnames⟩ := h
  rw [List.mem_append, not_or]
  refine ⟨fun hmem => ?_, fun hmem => ?_⟩
  · rcases mem_head hhead hmem with h | h <;> cases h
  · obtain ⟨text, hname, -⟩ := hnames _ hmem
    cases hname

theorem IsPlace.no_up_after_name (h : r.IsPlace) :
    r.Pairwise fun c d => ∀ text, c = .name text → d ≠ .up := by
  obtain ⟨head, names, rfl, hhead, hnames⟩ := h
  have hfront : ∀ c ∈ head, ∀ d text, c = .name text → d ≠ Component.up := by
    rintro c hc d text rfl
    rcases mem_head hhead hc with h | h <;> cases h
  have hback : ∀ d ∈ names, d ≠ Component.up := by
    rintro d hd rfl
    obtain ⟨text, hname, -⟩ := hnames _ hd
    cases hname
  refine List.pairwise_append.2 ⟨?_, ?_, fun c hc d _ => hfront c hc d⟩
  · exact List.pairwise_of_forall_mem_list fun c hc d _ => hfront c hc d
  · exact List.pairwise_of_forall_mem_list fun c _ d hd _ _ => hback d hd

end Route

namespace Path

variable {p q : Path}

theorem route_normalize (p : Path) : p.normalize.route = p.route :=
  p.route_isPlace.route_toPath

/-- Two paths have the same key, whatever is taken for it: the place, the normalized path or the
fingerprint. -/
structure SameKey (p q : Path) : Prop where
  route_eq : p.route = q.route
  normalize_eq : p.normalize = q.normalize
  digest_eq : p.digest = q.digest

/-- The place decides about the other keys. -/
theorem sameKey_of_route_eq (h : p.route = q.route) : SameKey p q := by
  have hnormal : p.normalize = q.normalize := by rw [normalize, normalize, h]
  exact ⟨h, hnormal, by rw [digest, digest, hnormal]⟩

/-! ### Joining before and after -/

theorem route_normalize_join (p q : Path) : (p.normalize.join q).route = (p.join q).route := by
  cases hq : q.isAbsolute with
  | true => simp only [join, hq, if_true]
  | false => rw [route_join hq, route_join hq, route_normalize]

/-! ### Created files -/

/-- The folder of a path; the empty path stands for it where the path names none. -/
def folder (p : Path) : Path :=
  p.folder?.getD ⟨""⟩

theorem createdPath_eq (file created : Path) :
    FileRun.createdPath file created = (folder file).join created := by
  unfold FileRun.createdPath folder
  cases habsolute : created.isAbsolute with
  | true => simp only [join, habsolute, if_true]
  | false =>
    rw [if_neg (by simp)]
    cases file.folder? with
    | some parent => rfl
    | none => exact (join_of_empty habsolute rfl).symm

theorem route_of_fileName? {text : String} (h : p.fileName? = some text) :
    p.route = p.folder.route ++ [.name text] := by
  have hlast : p.components.getLast? = some (.name text) := by
    unfold fileName? at h
    split at h
    · rename_i name hname
      rw [hname, Option.some.inj h]
    · cases h
  unfold folder
  cases hfolder : p.folder? with
  | some parent =>
    rcases route_of_folder? hfolder with ⟨c, -, hc, hroute⟩ | ⟨hup, -⟩
    · rw [hlast] at hc
      rw [hroute, Option.some.inj hc]
      rfl
    · rw [hlast] at hup
      cases hup
  | none =>
    have hshort := length_components_of_folder?_eq_none hfolder
    have hcomponents : p.components = [.name text] := by
      obtain ⟨before, hbefore⟩ := List.getLast?_eq_some_iff.1 hlast
      rw [hbefore, List.length_append, List.length_singleton] at hshort
      rw [hbefore, List.length_eq_zero_iff.1 (by omega : before.length = 0), List.nil_append]
    rw [route, hcomponents]
    rfl

/-- The folder of a normalized path is at the place of the folder of the path, if the path ends in a name. -/
theorem route_folder_normalize (h : p.fileName? ≠ none) : p.normalize.folder.route = p.folder.route := by
  obtain ⟨text, htext⟩ := Option.ne_none_iff_exists'.1 h
  have hroute := route_of_fileName? htext
  have hname : p.normalize.fileName? = some text := by
    rw [fileName?_normalize, hroute, Route.fileName?, List.getLast?_concat]
  have hnormal := route_of_fileName? hname
  rw [route_normalize, hroute] at hnormal
  exact (List.append_cancel_right hnormal).symm

/-- A file may be created for a normalized path as well as for the path itself, if this ends in a name. -/
theorem route_createdPath_normalize (h : p.fileName? ≠ none) (created : Path) :
    (FileRun.createdPath p.normalize created).route = (FileRun.createdPath p created).route := by
  have hfolder : p.normalize.folder.normalize = p.folder.normalize :=
    (sameKey_of_route_eq (route_folder_normalize h)).normalize_eq
  rw [createdPath_eq, createdPath_eq, ← route_normalize_join, hfolder, route_normalize_join]

/-- **Keys do not change when they are normalized again.** A normalized path is its own normalized path; it
has no component that stands for the folder itself, and no step up after a name. Joining a path to another
one leads to the same normalized path whether the other one was normalized before or not. So a normalized
path has the key of the path, and so have joined paths; in particular a created file has the same key
whether the folder that it is taken from is normalized or not, and also whether the path of the file that it
is created for is, provided that this ends in a name. -/
theorem normalize_stable (p q : Path) :
    p.normalize.normalize = p.normalize ∧
      .current ∉ p.normalize.components ∧
      (p.normalize.components.Pairwise fun c d => ∀ text, c = .name text → d ≠ .up) ∧
      (p.join q).normalize = (p.normalize.join q).normalize ∧
      SameKey p.normalize p ∧ SameKey (p.normalize.join q) (p.join q) ∧
      SameKey (p.folder.normalize.join q) (FileRun.createdPath p q) ∧
      (p.fileName? ≠ none →
        SameKey (FileRun.createdPath p.normalize q) (FileRun.createdPath p q)) := by
  have hself : SameKey p.normalize p := sameKey_of_route_eq (route_normalize p)
  have hjoined : SameKey (p.normalize.join q) (p.join q) :=
    sameKey_of_route_eq (route_normalize_join p q)
  have hcreated : SameKey (p.folder.normalize.join q) (FileRun.createdPath p q) := by
    rw [createdPath_eq]
    exact sameKey_of_route_eq (route_normalize_join p.folder q)
  refine ⟨hself.normalize_eq, ?_, ?_, hjoined.normalize_eq.symm, hself, hjoined, hcreated, ?_⟩
  · rw [components_normalize]
    exact p.route_isPlace.current_not_mem
  · rw [components_normalize]
    exact p.route_isPlace.no_up_after_name
  · exact fun hname => sameKey_of_route_eq (route_createdPath_normalize hname q)

end Path

end BulkEdit
