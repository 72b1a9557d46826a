import BulkEdit.Disk.Basic
import BulkEdit.Proofs.Path.Join
import BulkEdit.Proofs.Run.Patch

/-!
# Untouched simulations

A simulation remembers its files as they were spelled, and copies each to the place that its spelling
leads to. Where the files come from a tree in memory, they are spelled as their places. A disk spells
them as it was asked to, so that both have to be compared for any source of files (`captureFrom`).

A file that is not spelled as its place has gone astray: the untouched simulation previews that it is
deleted, and that another one is created at its place. This is all that it previews (`untouched_exact`),
also when the files are captured from a tree (`untouched_files`). Those that are found there have not
gone astray, so nothing is previewed (`untouched_walk`). On a disk it depends on how the folder was
spelled that the files are in (`untouched_disk`).
-/

namespace BulkEdit

namespace Snapshot

variable {read : Path → Except TreeError String} {kept : Snapshot × FileTree} {paths : List Path}
  {p q : Path} {data : String}

/-- Copies files from anywhere into a scratch tree and remembers their contents. -/
def captureFrom (read : Path → Except TreeError String) :
    Snapshot × FileTree → List Path → Snapshot × FileTree
  | kept, [] => kept
  | (snapshot, scratch), path :: rest =>
    match read path with
    | .error _ => captureFrom read (snapshot, scratch) rest
    | .ok data => captureFrom read (snapshot.insert path data, scratch.seed path data) rest

theorem capture_eq (tree : FileTree) (kept : Snapshot × FileTree) (paths : List Path) :
    capture tree kept paths = captureFrom tree.read kept paths := by
  induction paths generalizing kept with
  | nil => rfl
  | cons p rest ih =>
    rw [capture, captureFrom]
    cases tree.read p with
    | error e => exact ih _
    | ok data => exact ih _

theorem captureFrom_cons_of_ok (h : read p = .ok data) (rest : List Path) :
    captureFrom read kept (p :: rest) =
      captureFrom read (kept.1.insert p data, kept.2.seed p data) rest := by
  rw [captureFrom, h]

theorem captureFrom_cons_of_error {e : TreeError} (h : read p = .error e) (rest : List Path) :
    captureFrom read kept (p :: rest) = captureFrom read kept rest := by
  rw [captureFrom, h]

/-- The path can be read, and leads elsewhere than it is spelled. -/
def Astray (read : Path → Except TreeError String) (p : Path) : Prop :=
  (∃ data, read p = .ok data) ∧ p.components ≠ p.route

theorem built_captureFrom (h : kept.2.Built) : (captureFrom read kept paths).2.Built := by
  induction paths generalizing kept with
  | nil => exact h
  | cons p rest ih =>
    cases hread : read p with
    | error e => exact captureFrom_cons_of_error hread rest ▸ ih h
    | ok data => exact captureFrom_cons_of_ok hread rest ▸ ih (h.seed p data)

/-- What is remembered are the files that can be read. -/
theorem mem_captureFrom : q ∈ (captureFrom read kept paths).1 ↔
    q ∈ kept.1 ∨ ∃ p ∈ paths, (∃ data, read p = .ok data) ∧ p.components = q.components := by
  induction paths generalizing kept with
  | nil => simp [captureFrom]
  | cons p rest ih =>
    cases hread : read p with
    | error e => simp [captureFrom_cons_of_error hread, ih, hread]
    | ok data =>
      rw [captureFrom_cons_of_ok hread, ih, Std.ExtTreeMap.mem_insert, Path.compare_eq_eq]
      simp [hread, or_assoc, or_left_comm]

/-- A place that only paths with one content lead to has that content in the copy. -/
theorem files_captureFrom {r : Route} (hsame : ∀ p ∈ paths, p.route = r → read p = .ok data)
    (hled : kept.2.files[r]? = some data ∨ ∃ p ∈ paths, p.route = r) :
    (captureFrom read kept paths).2.files[r]? = some data := by
  induction paths generalizing kept with
  | nil => simpa [captureFrom] using hled
  | cons p rest ih =>
    have hsame' : ∀ p ∈ rest, p.route = r → read p = .ok data := fun p hp =>
      hsame p (List.mem_cons_of_mem _ hp)
    by_cases hp : p.route = r
    · have hread := hsame p (List.mem_cons_self ..) hp
      rw [captureFrom_cons_of_ok hread]
      exact ih hsame' (Or.inl (by simp [FileTree.seed, hp]))
    · have hled' : kept.2.files[r]? = some data ∨ ∃ p ∈ rest, p.route = r := by
        simpa [hp] using hled
      cases hread : read p with
      | error e =>
        rw [captureFrom_cons_of_error hread]
        exact ih hsame' hled'
      | ok other =>
        rw [captureFrom_cons_of_ok hread]
        refine ih hsame' (hled'.imp_left fun hkept => ?_)
        simpa [FileTree.seed, FileTree.addAncestors_files, Std.ExtTreeMap.getElem?_insert, hp] using hkept

/-- What is remembered and what is copied agree at each path that no astray one is spelled as or leads
to. -/
theorem captureFrom_agrees (hkept : kept.1[q]? = kept.2.files[q.components]?)
    (hout : ∀ p ∈ paths, Astray read p → p.components ≠ q.components ∧ p.route ≠ q.components) :
    (captureFrom read kept paths).1[q]? = (captureFrom read kept paths).2.files[q.components]? := by
  induction paths generalizing kept with
  | nil => exact hkept
  | cons p rest ih =>
    have hout' := fun p hp => hout p (List.mem_cons_of_mem _ hp)
    cases hread : read p with
    | error e =>
      rw [captureFrom_cons_of_error hread]
      exact ih hkept hout'
    | ok data =>
      rw [captureFrom_cons_of_ok hread]
      refine ih ?_ hout'
      simp only [FileTree.seed, FileTree.addAncestors_files, Std.ExtTreeMap.getElem?_insert,
        Path.compare_eq_eq, Std.compare_eq_iff_eq]
      by_cases hplace : p.components = p.route
      · rw [← hplace, hkept]
      · obtain ⟨hspelled, hled⟩ := hout p (List.mem_cons_self ..) ⟨⟨data, hread⟩, hplace⟩
        rw [if_neg hspelled, if_neg hled, hkept]

/-- The commands of a simulation in which nothing was done. -/
def untouched (read : Path → Except TreeError String) (paths : List Path) (format : Bool) :
    List FileCommand :=
  let kept := captureFrom read (∅, .empty) paths
  kept.1.diff ∅ (.ofTree kept.2) format

variable {format : Bool}

/-- What was remembered of an astray file is not in the copy under this spelling. -/
theorem exists_delete_untouched (format : Bool) (hp : p ∈ paths) (h : Astray read p) :
    ∃ q : Path, q.components = p.components ∧ .delete q ∈ untouched read paths format := by
  have hplaced : (captureFrom read (∅, .empty) paths).2.Placed := (built_captureFrom .empty).placed
  refine exists_delete_mem_diff _ format (mem_captureFrom.2 (Or.inr ⟨p, hp, h.1, rfl⟩)) fun hin => ?_
  have hfile := (shows_ofTree hplaced).mem_iff.1 hin
  exact h.2 (Path.route_of_isPlace (hplaced.files _ hfile)).symm

/-- What was copied of an astray file is not remembered under this spelling, unless it is that of
another file. -/
theorem exists_create_untouched (hp : p ∈ paths) (h : Astray read p)
    (halone : ∀ q ∈ paths, q.route = p.route → q = p) :
    ∃ q : Path, q.components = p.route ∧
      ∃ data, read p = .ok data ∧ .create q data format ∈ untouched read paths format := by
  obtain ⟨data, hread⟩ := h.1
  have hplaced : (captureFrom read (∅, .empty) paths).2.Placed := (built_captureFrom .empty).placed
  have hnew : p.normalize ∉ (captureFrom read (∅, .empty) paths).1 := by
    intro hin
    obtain hin | ⟨q, hq, -, hspelled⟩ := mem_captureFrom.1 hin
    · simp at hin
    · -- A path that is spelled as the place leads there, so it would be this one.
      rw [Path.components_normalize] at hspelled
      have hled : q.route = p.route :=
        (Path.route_of_isPlace (hspelled ▸ p.route_isPlace)).trans hspelled
      obtain rfl := halone q hq hled
      exact h.2 hspelled
  have hcopied : (ofTree (captureFrom read (∅, .empty) paths).2)[p.normalize]? = some data := by
    rw [shows_ofTree hplaced, Path.components_normalize]
    exact files_captureFrom (fun q hq hled => halone q hq hled ▸ hread) (Or.inr ⟨p, hp, rfl⟩)
  have hother : (captureFrom read (∅, .empty) paths).1[p.normalize]? ≠ some data := by
    rw [Std.ExtTreeMap.getElem?_eq_none hnew]
    simp
  obtain ⟨q, hsame, c, hc, hwrite⟩ := exists_write_mem_diff ∅ format hother hcopied
  have hnew' := mt (mem_congr hsame).1 hnew
  obtain ⟨-, rfl⟩ | ⟨old, hold, -⟩ := write?_eq_some hwrite
  · exact ⟨q, hsame.trans (Path.components_normalize p), data, hread, hc⟩
  · exact absurd (Std.ExtTreeMap.mem_iff_isSome_getElem?.2 (Option.isSome_of_mem hold)) hnew'

/-- Nothing else is previewed. -/
theorem astray_of_mem_untouched {c : FileCommand} (hc : c ∈ untouched read paths format) :
    ∃ p ∈ paths, Astray read p ∧
      (p.components = c.primaryPath.components ∨ p.route = c.primaryPath.components) := by
  by_contra hnone
  refine (needed_of_mem_diff hc).differ ?_
  rw [shows_ofTree (built_captureFrom .empty).placed]
  refine captureFrom_agrees (by simp [FileTree.empty]) fun p hp hastray => ?_
  exact not_or.1 fun hor => hnone ⟨p, hp, hastray, hor⟩

theorem untouched_eq_nil_iff : untouched read paths format = [] ↔ ∀ p ∈ paths, ¬ Astray read p := by
  constructor
  · intro hnil p hp hastray
    obtain ⟨q, -, hq⟩ := exists_delete_untouched format hp hastray
    rw [hnil] at hq
    cases hq
  · intro hnone
    refine List.eq_nil_iff_forall_not_mem.2 fun c hc => ?_
    obtain ⟨p, hp, hastray, -⟩ := astray_of_mem_untouched hc
    exact hnone p hp hastray

/-- **What an untouched simulation previews** is what has gone astray, and so nothing if every file that
can be read is spelled as its place. Each file that has gone astray is previewed as deleted, and as
created at its place if no other path leads there. -/
theorem untouched_exact (read : Path → Except TreeError String) (paths : List Path) (format : Bool) :
    (untouched read paths format = [] ↔
        ∀ p ∈ paths, (∃ data, read p = .ok data) → p.components = p.route) ∧
      (∀ p ∈ paths, Astray read p →
        ∃ q : Path, q.components = p.components ∧ .delete q ∈ untouched read paths format) ∧
      (∀ p ∈ paths, Astray read p → (∀ q ∈ paths, q.route = p.route → q = p) →
        ∃ q : Path, q.components = p.route ∧
          ∃ data, read p = .ok data ∧ .create q data format ∈ untouched read paths format) ∧
      ∀ c ∈ untouched read paths format, ∃ p ∈ paths, Astray read p ∧
        (p.components = c.primaryPath.components ∨ p.route = c.primaryPath.components) := by
  refine ⟨untouched_eq_nil_iff.trans (forall₂_congr fun p _ => ?_),
    fun _ => exists_delete_untouched format, fun _ => exists_create_untouched,
    fun _ => astray_of_mem_untouched⟩
  rw [Astray, not_and, not_ne_iff]

/-- The folder of a disk that is spelled `.` has its files behind it, and they are copied without it. -/
theorem untouched_disk_astray :
    let d : Disk := { nodes := .ofList [(["a.ts"], DiskNode.file [97])] }
    d.walk ⟨"."⟩ = .ok [⟨"./a.ts"⟩] ∧ d.read ⟨"./a.ts"⟩ = .ok "a" ∧
      untouched d.read [⟨"./a.ts"⟩] false = [.delete ⟨"./a.ts"⟩, .create ⟨"a.ts"⟩ "a" false] := by
  intro d
  have hsegments : Disk.segments "." = ["."] ∧ Disk.segments "./a.ts" = [".", "a.ts"] := by
    decide +kernel
  have htop : ∀ follow, d.resolve follow ⟨"."⟩ = .ok (.found [] .folder) := by
    intro follow
    rw [Disk.resolve, if_neg (by decide +kernel), hsegments.1, Disk.walkTo, Disk.walkTo]
    decide +kernel
  have hfile : d.resolve true ⟨"./a.ts"⟩ = .ok (.found ["a.ts"] (.file [97])) := by
    rw [Disk.resolve, if_neg (by decide +kernel), hsegments.2, Disk.walkTo,
      Disk.walkTo.eq_4 _ _ _ _ _ _ _ (by decide) (by decide)]
    decide +kernel
  have hread : d.read ⟨"./a.ts"⟩ = .ok "a" := by
    rw [Disk.read, Disk.look, hfile]
    decide +kernel
  refine ⟨?_, hread, ?_⟩
  · rw [Disk.walk, Disk.look, htop, htop]
    decide +kernel
  · rw [untouched, captureFrom_cons_of_ok hread]
    decide +kernel

end Snapshot

/-! ### Files of a tree -/

namespace FileTree

open Snapshot (Astray)

variable {t : FileTree} {p : Path} {paths : List Path}

/-- The commands of a simulation on captured files of a tree in which nothing was done. -/
def untouched (t : FileTree) (paths : List Path) (format : Bool) : List FileCommand :=
  let kept := Snapshot.capture t (∅, .empty) paths
  kept.1.diff ∅ (.ofTree kept.2) format

theorem untouched_eq (t : FileTree) (paths : List Path) (format : Bool) :
    t.untouched paths format = Snapshot.untouched t.read paths format := by
  rw [untouched, Snapshot.capture_eq, Snapshot.untouched]

theorem astray_read_iff : Astray t.read p ↔ p.route ∈ t.files ∧ p.components ≠ p.route := by
  simp only [Astray, read_eq_ok]
  rw [Std.ExtTreeMap.mem_iff_isSome_getElem?, Option.isSome_iff_exists]

/-- **What an untouched simulation on files of a tree previews** are again those of them that have gone
astray: each is previewed as deleted, and as created at its place if no other path leads there. -/
theorem untouched_files (t : FileTree) (paths : List Path) (format : Bool) :
    (t.untouched paths format = [] ↔ ∀ p ∈ paths, p.route ∈ t.files → p.components = p.route) ∧
      (∀ p ∈ paths, p.route ∈ t.files → p.components ≠ p.route →
        ∃ q : Path, q.components = p.components ∧ .delete q ∈ t.untouched paths format) ∧
      (∀ p ∈ paths, p.route ∈ t.files → p.components ≠ p.route →
        (∀ q ∈ paths, q.route = p.route → q = p) →
        ∃ q : Path, q.components = p.route ∧
          ∃ data, t.read p = .ok data ∧ .create q data format ∈ t.untouched paths format) ∧
      ∀ c ∈ t.untouched paths format, ∃ p ∈ paths, p.route ∈ t.files ∧ p.components ≠ p.route ∧
        (p.components = c.primaryPath.components ∨ p.route = c.primaryPath.components) := by
  rw [untouched_eq]
  refine ⟨Snapshot.untouched_eq_nil_iff.trans (forall₂_congr fun p _ => ?_),
    fun p hp hfile hne => Snapshot.exists_delete_untouched format hp (astray_read_iff.2 ⟨hfile, hne⟩),
    fun p hp hfile hne => Snapshot.exists_create_untouched hp (astray_read_iff.2 ⟨hfile, hne⟩),
    fun c hc => ?_⟩
  · rw [astray_read_iff, not_and, not_ne_iff]
  · obtain ⟨p, hp, hastray, hpath⟩ := Snapshot.astray_of_mem_untouched hc
    obtain ⟨hfile, hne⟩ := astray_read_iff.1 hastray
    exact ⟨p, hp, hfile, hne, hpath⟩

/-- **A simulation on files that were found in a tree previews nothing**, as long as nothing is done in
it. -/
theorem untouched_walk (hplaced : t.Placed) {root : Path} {routes : List Route}
    (hwalk : t.walk root = .ok routes) (hpaths : paths ⊆ routes.map Route.toPath) (format : Bool) :
    t.untouched paths format = [] := by
  obtain ⟨-, rfl⟩ := walk_eq_ok.1 hwalk
  rw [untouched_eq, Snapshot.untouched_eq_nil_iff]
  intro p hp hastray
  obtain ⟨r, hr, rfl⟩ := List.mem_map.1 (hpaths hp)
  have hplace := hplaced.files r (mem_filesBelow.1 hr).1
  exact hastray.2 (hplace.components_toPath.trans hplace.route_toPath.symm)

end FileTree

/-! ### Files of a disk -/

namespace Disk

variable {d : Disk} {p q : Path} {paths : List Path}

/-- The names on a disk can stand between separators. -/
def Named (d : Disk) : Prop :=
  ∀ place ∈ d.nodes, ∀ name ∈ place, (Component.name name).IsName

theorem Named.of_mem_children (h : d.Named) {place : Place} {name : String} {node : DiskNode}
    (hchild : (name, node) ∈ d.children place) : (Component.name name).IsName := by
  obtain ⟨⟨seat, node'⟩, hlisted, hname⟩ := List.mem_filterMap.1 hchild
  have hseat : seat ∈ d.nodes :=
    Std.ExtTreeMap.mem_iff_isSome_getElem?.2
      (Option.isSome_of_mem (Std.ExtTreeMap.mem_toList_iff_getElem?_eq_some.1 hlisted))
  simp only [Option.ite_none_right_eq_some, Option.map_eq_some_iff, Prod.mk.injEq] at hname
  obtain ⟨-, last, hlast, rfl, -⟩ := hname
  exact h seat hseat last (List.mem_of_getLast? hlast)

/-- The path goes on from another one with names. -/
def GoesOn (p q : Path) : Prop :=
  ∃ names, q.components = p.components ++ names ∧ ∀ c ∈ names, c.IsName

theorem GoesOn.join {name : String} (hname : (Component.name name).IsName)
    (h : GoesOn (p.join ⟨name⟩) q) : GoesOn p q := by
  obtain ⟨names, hspelled, hnames⟩ := h
  rw [Path.components_join_name hname, List.append_assoc] at hspelled
  exact ⟨_, hspelled, by simpa [hname] using hnames⟩

theorem GoesOn.refl (p : Path) : GoesOn p p := ⟨[], by simp⟩

theorem Named.goesOn_filesBelow (h : d.Named) {depth : Nat} {place : Place}
    (hq : q ∈ d.filesBelow depth place p) : GoesOn p q := by
  induction depth generalizing place p with
  | zero => cases hq
  | succ depth ih =>
    obtain ⟨⟨name, node⟩, hchild, hq⟩ := List.mem_flatMap.1 hq
    have hname := h.of_mem_children hchild
    cases node with
    | file bytes =>
      obtain rfl := List.mem_singleton.1 hq
      exact (GoesOn.refl _).join hname
    | folder => exact (ih hq).join hname
    | link target => cases hq
    | device => cases hq

theorem Named.goesOn_walk (h : d.Named) (hwalk : d.walk p = .ok paths) (hq : q ∈ paths) :
    GoesOn p q := by
  unfold walk at hwalk
  split at hwalk
  · cases hwalk
  · obtain rfl := Except.ok.inj hwalk
    exact h.goesOn_filesBelow hq
  · obtain rfl := Except.ok.inj hwalk
    cases hq
  · obtain rfl := Except.ok.inj hwalk
    obtain rfl := List.mem_singleton.1 hq
    exact GoesOn.refl q
  · obtain rfl := Except.ok.inj hwalk
    cases hq

/-- A path that goes on from another one is spelled as its place if the other one is. -/
theorem GoesOn.spelled_iff (h : GoesOn p q) :
    q.components = q.route ↔ p.components = p.route := by
  obtain ⟨names, hspelled, hnames⟩ := h
  constructor
  · intro hq
    have hplace : Route.IsPlace p.components :=
      (hq ▸ q.route_isPlace).of_initial (hspelled ▸ List.prefix_append _ _)
    exact (Path.route_of_isPlace hplace).symm
  · intro hp
    obtain ⟨head, before, hplace, hhead, hbefore⟩ := p.route_isPlace
    refine (Path.route_of_isPlace ⟨head, before ++ names, ?_, hhead, ?_⟩).symm
    · rw [hspelled, hp, hplace, List.append_assoc]
    · exact fun c hc => (List.mem_append.1 hc).elim (hbefore c) (hnames c)

/-- **A simulation on files of a disk previews nothing**, as long as nothing is done in it, exactly if
the folder that the files are in was spelled as its place, or none of them can be read. -/
theorem untouched_disk (h : d.Named) (hwalk : d.walk p = .ok paths) (format : Bool) :
    Snapshot.untouched d.read paths format = [] ↔
      p.components = p.route ∨ ∀ q ∈ paths, ∀ data, d.read q ≠ .ok data := by
  rw [Snapshot.untouched_eq_nil_iff]
  constructor
  · intro hnone
    by_contra hsome
    obtain ⟨hp, hread⟩ := not_or.1 hsome
    push Not at hread
    obtain ⟨q, hq, data, hdata⟩ := hread
    exact hnone q hq ⟨⟨data, hdata⟩, mt (h.goesOn_walk hwalk hq).spelled_iff.1 hp⟩
  · rintro hor q hq ⟨⟨data, hdata⟩, hastray⟩
    rcases hor with hp | hread
    · exact hastray ((h.goesOn_walk hwalk hq).spelled_iff.2 hp)
    · exact hread q hq data hdata

end Disk

end BulkEdit
