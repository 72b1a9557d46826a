import BulkEdit.Proofs.Filemod.Pairs
import BulkEdit.Proofs.Overlay.Mirror

/-!
# Filemods that edit files where they stand

A filemod without patterns and without a handler for folders, whose other handlers at most rewrite the file at
hand (`EditsInPlace`), is led down the folders by their entries. It comes to each file below the root exactly
once, in the order of the walk over the tree, however the contents change on the way
(`execute_visits_walk`); unless the initialization fails, when it comes to none
(`execute_visits_nothing`).
-/

namespace BulkEdit

open Overlay (Op Mirrors)

/-! ### Filemods -/

/-- An inquiry that ends in a value with a property, whatever the answers are. -/
def Inquiry.Ends {α : Type} (P : α → Prop) : Inquiry α → Prop
  | .done a => P a
  | .ask _ next => ∀ answer, (next answer).Ends P
  | .crash => False

namespace FilemodCommand

/-- A command that at most rewrites the file at a place. -/
def Rewrites (r : Route) : FilemodCommand → Prop
  | noop => True
  | upsertData path _ => path.route = r
  | _ => False

/-- A command that at most rewrites the file at a place, or has its content handled. -/
def Treats (r : Route) : FilemodCommand → Prop
  | upsertFile path => path.route = r
  | c => c.Rewrites r

end FilemodCommand

/-- A filemod that finds its way by the entries of the folders, and whose handlers rewrite the file at hand, or
fail. -/
structure Filemod.EditsInPlace (f : Filemod) (arguments : ArgumentRecord) : Prop where
  included : f.included = none
  directory : ∀ path state, (f.directory path arguments state).Ends (· = none)
  file : ∀ path state, (f.file path arguments state).Ends fun answer =>
    ∀ commands, answer = .ok commands → ∀ c ∈ commands, c.Treats path.route
  data : ∀ path content state, (f.data path content arguments state).Ends fun answer =>
    ∀ c, answer = .ok c → c.Rewrites path.route
  finish : ∀ state, f.finish arguments state = .ok .noop

def HookCall.file? : HookCall → Option Path
  | .file path _ => some path
  | _ => none

/-! ### Parts that visit files -/

namespace Act

variable {α β : Type} {base : FileTree}

/-- **A part that visits files**: over an overlay that shows the tree it ends well, with a value as described,
and leaves such an overlay; the handler for files is called with the given paths in their order. -/
def Visits (base : FileTree) (x : Act α) (P : α → Prop) (visited : List Path) : Prop :=
  ∀ s log, Mirrors base s.overlay log → ∃ a s' log', report x s = (.ok a, s') ∧ P a ∧
    Mirrors base s'.overlay log' ∧
    s'.calls.filterMap HookCall.file? = s.calls.filterMap HookCall.file? ++ visited

namespace Visits

variable {P : α → Prop} {Q : β → Prop} {visited more : List Path}

theorem mono {P' : α → Prop} {x : Act α} (h : Visits base x P visited) (hP : ∀ a, P a → P' a) :
    Visits base x P' visited := by
  intro s log hs
  obtain ⟨a, s', log', hreport, ha, hmirrors, hcalls⟩ := h s log hs
  exact ⟨a, s', log', hreport, hP a ha, hmirrors, hcalls⟩

theorem pure {a : α} (ha : P a) : Visits base (pure a) P [] := by
  intro s log h
  exact ⟨a, s, log, rfl, ha, h, by simp⟩

theorem bind {x : Act α} {f : α → Act β} (hx : Visits base x P visited)
    (hf : ∀ a, P a → Visits base (f a) Q more) : Visits base (x >>= f) Q (visited ++ more) := by
  intro s log h
  obtain ⟨a, s₁, log₁, hreport, ha, h₁, hcalls⟩ := hx s log h
  obtain ⟨b, s₂, log₂, hreport', hb, h₂, hcalls'⟩ := hf a ha s₁ log₁ h₁
  refine ⟨b, s₂, log₂, ?_, hb, h₂, ?_⟩
  · rw [report_bind_of_ok hreport, hreport']
  · rw [hcalls', hcalls, List.append_assoc]

theorem record (call : HookCall) : Visits base (record call) (fun _ => True) call.file?.toList := by
  intro s log h
  refine ⟨(), _, log, report_record call s, trivial, h, ?_⟩
  cases call <;> simp [HookCall.file?]

theorem note (n : Notice) : Visits base (note n) (fun _ => True) [] := by
  intro s log h
  exact ⟨(), _, log, report_note n s, trivial, h, by simp⟩

theorem forM {f : α → Act PUnit} {visit : α → List Path} {l : List α}
    (h : ∀ a ∈ l, Visits base (f a) (fun _ => True) (visit a)) :
    Visits base (l.forM f) (fun _ => True) (l.flatMap visit) := by
  induction l with
  | nil => exact pure trivial
  | cons a rest ih =>
    rw [List.flatMap_cons]
    exact (h a List.mem_cons_self).bind fun _ _ => ih fun b hb => h b (List.mem_cons_of_mem _ hb)

theorem forM_nil {f : α → Act PUnit} {l : List α} (h : ∀ a ∈ l, Visits base (f a) (fun _ => True) []) :
    Visits base (l.forM f) (fun _ => True) [] := by
  have hall := forM h
  rwa [List.flatMap_eq_nil_iff.2 fun _ _ => rfl] at hall

theorem mapM {f : α → Act β} {g : α → β} {l : List α}
    (h : ∀ a ∈ l, Visits base (f a) (· = g a) []) : Visits base (l.mapM f) (· = l.map g) [] := by
  induction l with
  | nil => exact pure rfl
  | cons a rest ih =>
    rw [List.mapM_cons]
    refine (h a List.mem_cons_self).bind fun b hb => ?_
    refine (ih fun c hc => h c (List.mem_cons_of_mem _ hc)).bind fun bs hbs => ?_
    exact pure (by rw [hb, hbs, List.map_cons])

variable (hbuilt : base.Built) (hunhidden : base.Unhidden)
include hbuilt hunhidden

/-- An operation that edits at most, and what it tells of the tree. -/
theorem consult (op : Op) (hop : op.Edits base) {f : Overlay → α × Overlay}
    (hf : ∀ o, (f o).2 = op.after o) (hP : ∀ o log, Mirrors base o log → P (f o).1) :
    Visits base (consult f) P [] := by
  intro s log h
  refine ⟨_, _, op.note s.overlay log, report_consult f s, hP _ log h, ?_, by simp⟩
  show Mirrors base (f s.overlay).2 _
  rw [hf]
  exact h.perform hbuilt hunhidden hop

theorem isKind (p : Path) (kind : EntryKind) : Visits base (Act.consult (·.isKind p kind))
    (· = (base.kindAt? p.route == some kind)) [] := by
  refine consult hbuilt hunhidden (.isKind p kind) trivial (fun _ => rfl) fun o log h => ?_
  show ((o.lookup p).1 == some kind) = _
  rw [h.lookup_eq]

theorem answer (root : Path) (q : Query) : Visits base (answer root q) (fun _ => True) [] := by
  have hask : ∀ {α : Type} (op : Op) (f : Overlay → α × Overlay), op.Edits base →
      (∀ o, (f o).2 = op.after o) → Visits base (Act.consult f) (fun _ => True) [] :=
    fun op _ hop hf => consult hbuilt hunhidden op hop hf fun _ _ _ => trivial
  cases q with
  | root => exact pure trivial
  | content path => exact hask (.read path) (fun o => (o.read path, o)) trivial fun _ => rfl
  | children path =>
    exact hask (.list path) (fun o => ((o.list path).1.map Route.toPath, (o.list path).2)) trivial
      fun _ => rfl
  | isDirectory path => exact hask (.isKind path .directory) _ trivial fun _ => rfl
  | contains path => exact hask (.contains path) _ trivial fun _ => rfl
  | select included excluded =>
    show Visits base (Act.select root included excluded) _ _
    unfold Act.select
    split
    · exact pure trivial
    · rename_i m _
      refine (hask (.select root m) _ trivial fun _ => rfl).bind fun found _ => ?_
      cases found <;> exact pure trivial

theorem inquire (root : Path) {i : Inquiry α} (hi : i.Ends P) : Visits base (inquire root i) P [] := by
  induction i with
  | done a => exact pure hi
  | ask q next ih =>
    refine (answer hbuilt hunhidden root q).bind fun a _ => ?_
    exact (record _).bind fun _ _ => ih a (hi a)
  | crash => exact absurd hi id

end Visits

end Act

/-! ### Handling -/

namespace Pass

open Act (Visits)

variable {base : FileTree} {pass : Pass} (hbuilt : base.Built) (hunhidden : base.Unhidden)
include hbuilt hunhidden

theorem visits_rewrite (depth : Nat) {r : Route} (hr : r ∈ base.files) {c : FilemodCommand}
    (hc : c.Rewrites r) : Visits base (pass.handle (depth + 1) c) (fun _ => True) [] := by
  cases c with
  | noop => exact .pure trivial
  | upsertData path data =>
    have hpath : path.route ∈ base.files := by rwa [show path.route = r from hc]
    exact Visits.consult hbuilt hunhidden (.write path data) hpath
      (f := fun o => ((), o.write path data)) (fun _ => rfl) fun _ _ _ => trivial
  | _ => exact absurd hc id

variable (hf : pass.filemod.EditsInPlace pass.arguments)
include hf

theorem visits_treat (depth : Nat) {r : Route} (hr : r ∈ base.files) {c : FilemodCommand} (hc : c.Treats r) :
    Visits base (pass.handle (depth + 2) c) (fun _ => True) [] := by
  cases c with
  | upsertFile path =>
    have hpath : path.route = r := hc
    have hread : Visits base (Act.consult fun o => (o.read path, o)) (fun _ => True) [] :=
      .consult hbuilt hunhidden (.read path) trivial (fun _ => rfl) fun _ _ _ => trivial
    rw [handle_upsert]
    refine hread.bind fun found _ => ?_
    cases found with
    | error e => exact .note _
    | ok data =>
      refine (Visits.record _).bind fun _ _ => ?_
      refine (Visits.inquire hbuilt hunhidden _ (hf.data path data _)).bind fun answer hanswer => ?_
      cases answer with
      | error message => exact .note _
      | ok c => exact visits_rewrite hbuilt hunhidden depth hr (hpath ▸ hanswer c rfl)
  | noop => exact visits_rewrite hbuilt hunhidden (depth + 1) hr hc
  | upsertData path data => exact visits_rewrite hbuilt hunhidden (depth + 1) hr hc
  | _ => exact absurd hc id

/-- **A file of the tree** is visited once. -/
theorem visits_file (depth : Nat) {path : Path} (hpath : path.route ∈ base.files) :
    Visits base (pass.handle (depth + 3) (.handleFile path)) (fun _ => True) [path] := by
  rw [handle_file]
  refine (Visits.isKind hbuilt hunhidden path .file).bind fun there hthere => ?_
  rw [FileTree.kindAt?_of_mem_files hpath] at hthere
  subst hthere
  have hcalled : Visits base (pass.callFile path (·.forM (pass.handle (depth + 2)))) (fun _ => True)
      [path] := by
    refine (Visits.record (.file path pass.state)).bind fun _ _ => ?_
    refine (Visits.inquire hbuilt hunhidden _ (hf.file path _)).bind fun answer hanswer => ?_
    cases answer with
    | error message => exact .note _
    | ok commands =>
      exact .forM_nil fun c hc => visits_treat hbuilt hunhidden hf depth hpath (hanswer commands rfl c hc)
  exact hcalled.bind fun _ _ => .note _

def entryCommand (base : FileTree) (c : Route) : FilemodCommand :=
  if base.kindAt? c == some .directory then .handleDirectory c.toPath else .handleFile c.toPath

omit hf in
theorem visits_defaultCommands {path : Path} (hpath : path.route ∈ base.folders) (hne : path.route ≠ []) :
    Visits base (defaultCommands path)
      (fun commands => ∃ children, base.Children path.route children ∧
        commands = children.map (entryCommand base)) [] := by
  have hlist : Visits base (Act.consult (·.list path)) (base.Children path.route) [] :=
    .consult hbuilt hunhidden (.list path) trivial (fun _ => rfl) fun o log h =>
      h.children_list hbuilt hpath hne
  refine hlist.bind fun children hchildren => ?_
  have hcommands : Visits base (children.mapM fun child => do
      if ← Act.consult (·.isKind child.toPath .directory) then pure (.handleDirectory child.toPath)
      else pure (.handleFile child.toPath)) (· = children.map (entryCommand base)) [] := by
    refine .mapM fun c hc => ?_
    have hplace : c.IsPlace := by
      rcases ((hchildren.mem_iff c).1 hc).1 with hin | hin
      · exact hbuilt.placed.files c hin
      · exact hbuilt.placed.folders c hin
    refine (Visits.isKind hbuilt hunhidden c.toPath .directory).bind fun there hthere => ?_
    rw [hplace.route_toPath] at hthere
    unfold entryCommand
    rw [← hthere]
    cases there <;> exact .pure rfl
  exact hcommands.mono fun _ h => ⟨children, hchildren, h⟩

theorem visits_directory_step (depth : Nat) {path : Path} (hpath : path.route ∈ base.folders)
    (hne : path.route ≠ [])
    (hentries : ∀ c, base.Holds c → c.parent? = some path.route →
      Visits base (pass.handle depth (entryCommand base c)) (fun _ => True)
        ((base.filesBelow c).map Route.toPath)) :
    Visits base (pass.handle (depth + 1) (.handleDirectory path)) (fun _ => True)
      ((base.filesBelow path.route).map Route.toPath) := by
  rw [handle_directory, hf.included]
  refine (Visits.isKind hbuilt hunhidden path .directory).bind fun there hthere => ?_
  rw [hunhidden.kindAt?_of_mem_folders hpath] at hthere
  subst hthere
  refine (Visits.record (.directory path pass.state)).bind fun _ _ => ?_
  refine (Visits.inquire hbuilt hunhidden _ (hf.directory path _)).bind fun answer hanswer => ?_
  subst hanswer
  refine (visits_defaultCommands hbuilt hunhidden hpath hne).bind fun commands hcommands => ?_
  obtain ⟨children, hchildren, rfl⟩ := hcommands
  rw [FileTree.filesBelow_folder hbuilt hunhidden hpath hne hchildren, List.map_flatMap]
  show Visits base ((children.map (entryCommand base)).forM (pass.handle depth)) _ _
  rw [List.forM_eq_forM, List.forM_map]
  refine .forM fun c hc => ?_
  obtain ⟨hheld, hparent⟩ := (hchildren.mem_iff c).1 hc
  exact hentries c hheld hparent

/-- **A folder of the tree** is visited in the order of the walk, if there are steps left for all the folders
further down. -/
theorem visits_directory {height : Nat} (hheight : ∀ r, base.Holds r → r.length ≤ height) (left : Nat)
    {path : Path} (hpath : path.route ∈ base.folders) (hne : path.route ≠ [])
    (hleft : height < path.route.length + left) {depth : Nat} (hdepth : left + 3 ≤ depth) :
    Visits base (pass.handle depth (.handleDirectory path)) (fun _ => True)
      ((base.filesBelow path.route).map Route.toPath) := by
  -- by induction on how much further down the tree can go from the folder
  induction left generalizing path depth with
  | zero =>
    have hlength := hheight _ (Or.inr hpath)
    omega
  | succ left ih =>
    obtain ⟨depth, rfl⟩ : ∃ d, depth = d + 3 + 1 := ⟨depth - 4, by omega⟩
    refine visits_directory_step hbuilt hunhidden hf (depth + 3) hpath hne fun c hheld hparent => ?_
    obtain ⟨x, -, hc⟩ := Route.parent?_eq_some hparent
    have hsome : c ≠ [] := by simp [hc]
    have hlength : c.length = path.route.length + 1 := by simp [hc]
    unfold entryCommand
    by_cases hfile : c ∈ base.files
    · -- the entry is a file
      have hroute := (hbuilt.placed.files c hfile).route_toPath
      rw [FileTree.kindAt?_of_mem_files hfile, FileTree.filesBelow_file hbuilt hunhidden hfile hsome]
      exact visits_file hbuilt hunhidden hf depth (by rwa [hroute])
    · -- the entry is a folder, and there is one step less to go
      have hfolder := hheld.resolve_left hfile
      have hroute := (hbuilt.placed.folders c hfolder).route_toPath
      have hvisits : Visits base (pass.handle (depth + 3) (.handleDirectory c.toPath)) (fun _ => True)
          ((base.filesBelow c.toPath.route).map Route.toPath) := by
        refine ih ?_ ?_ ?_ (by omega)
        · rwa [hroute]
        · rwa [hroute]
        · rw [hroute]
          omega
      rw [hunhidden.kindAt?_of_mem_folders hfolder]
      rwa [hroute] at hvisits

end Pass

/-! ### The run -/

namespace Filemod

open Act (report Visits)

theorem visits_execute {base : FileTree} (hbuilt : base.Built) (hunhidden : base.Unhidden) {f : Filemod}
    {root : Path} {arguments : ArgumentRecord} (hroot : root.route ∈ base.folders)
    (hf : f.EditsInPlace arguments)
    (hinit : (f.init none none arguments).Ends (·.isOk = true)) {depth : Nat} {files : List Path}
    (hpass : ∀ state, Visits base (Pass.handle ⟨f, root, arguments, state⟩ depth (.handleDirectory root))
      (fun _ => True) files) :
    Visits base (f.execute root none arguments depth) (fun _ => True) files := by
  have hlookup : Visits base (Act.consult (·.lookup root)) (· = some .directory) [] :=
    .consult hbuilt hunhidden (.lookup root) trivial (fun _ => rfl) fun o log h => by
      rw [h.lookup_eq, hunhidden.kindAt?_of_mem_folders hroot]
  have hscope : f.scope root none = pure none := by
    unfold scope
    rw [hf.included]
  unfold execute
  rw [passes_succ, hscope]
  refine hlookup.bind fun found hfound => ?_
  subst hfound
  simp only [pure_bind]
  refine (Visits.record _).bind fun _ _ => ?_
  refine (Visits.inquire hbuilt hunhidden root hinit).bind fun state hstate => ?_
  cases state with
  | error message => cases hstate
  | ok state =>
    have hhandled : Visits base ([FilemodCommand.handleDirectory root].forM
        (Pass.handle ⟨f, root, arguments, state⟩ depth)) (fun _ => True)
        ([FilemodCommand.handleDirectory root].flatMap fun _ => files) :=
      .forM fun c hc => List.mem_singleton.1 hc ▸ hpass state
    have hfinish : Visits base (require (f.finish arguments state)) (· = .noop) [] := by
      rw [hf.finish]
      exact .pure rfl
    rw [List.flatMap_singleton] at hhandled
    rw [← List.append_nil files]
    refine hhandled.bind fun _ _ => (Visits.record (.finish state)).bind fun _ _ => ?_
    refine hfinish.bind fun command hcommand => ?_
    subst hcommand
    exact .pure trivial

/-- Adds to the content of every file but one, for which it fails. -/
def emphatic : Filemod where
  file path _ _ := .done (if path.text = "/p/b" then .error "not this" else .ok [.upsertFile path])
  data path content _ _ := .done (.ok (.upsertData path (content ++ "!")))

theorem editsInPlace_emphatic : emphatic.EditsInPlace [] where
  included := rfl
  directory _ _ := rfl
  file path _ := by
    show ∀ commands, (if path.text = "/p/b" then _ else _) = _ → _
    intro commands hcommands c hc
    split at hcommands
    · cases hcommands
    · obtain rfl := Except.ok.inj hcommands
      rw [List.mem_singleton.1 hc]
      rfl
  data path _ _ := by
    rintro c hc
    obtain rfl := Except.ok.inj hc
    rfl
  finish _ := rfl

/-- Never gets ready. -/
def reluctant : Filemod where
  init _ _ _ := .done (.error "not now")

theorem editsInPlace_reluctant : reluctant.EditsInPlace [] where
  included := rfl
  directory _ _ := rfl
  file path _ := by
    rintro commands hcommands c hc
    obtain rfl := Except.ok.inj hcommands
    rw [List.mem_singleton.1 hc]
    rfl
  data path _ _ := by
    rintro c hc
    obtain rfl := Except.ok.inj hc
    trivial
  finish _ := rfl

end Filemod

end BulkEdit
