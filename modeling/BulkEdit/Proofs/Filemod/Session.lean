import BulkEdit.Filemod.Run
import BulkEdit.Proofs.Overlay.Commands

/-!
# Parts of a filemod's run

A property of parts of a run that the smallest parts have, and that parts put together have if each of them
does, is a property of a command with all commands it leads to (`Partwise.handle`), and of the whole run
(`Partwise.execute`). A run touches its overlay by operations on overlays only, so what all operations keep
is kept by the whole run, however it ends; in particular the commands of a run denote what became of the
files (`Filemod.outcome_denotes`).
-/

namespace BulkEdit

open Overlay (Op)

namespace Act

variable {α β : Type} {s : Session}

/-! ### How a part ends -/

/-- How a part of a run ends, and the session that it leaves. -/
def report (x : Act α) (s : Session) : Except Halt α × Session :=
  match x s with
  | .ok a s' => (.ok a, s')
  | .error e s' => (.error e, s')

theorem report_bind (x : Act α) (f : α → Act β) (s : Session) :
    report (x >>= f) s = match report x s with
      | (.ok a, s') => report (f a) s'
      | (.error e, s') => (.error e, s') := by
  show report (EStateM.bind x f) s = _
  unfold report EStateM.bind
  cases x s <;> rfl

@[simp] theorem report_pure (a : α) (s : Session) : report (pure a) s = (.ok a, s) := rfl

@[simp] theorem report_throw (e : Halt) (s : Session) :
    report (throw e : Act α) s = (.error e, s) := rfl

@[simp] theorem report_record (call : HookCall) (s : Session) :
    report (record call) s = (.ok (), { s with calls := s.calls ++ [call] }) := rfl

@[simp] theorem report_note (n : Notice) (s : Session) :
    report (note n) s = (.ok (), { s with notices := s.notices ++ [n] }) := rfl

@[simp] theorem report_change (f : Overlay → Overlay) (s : Session) :
    report (change f) s = (.ok (), { s with overlay := f s.overlay }) := rfl

@[simp] theorem report_consult (f : Overlay → α × Overlay) (s : Session) :
    report (consult f) s = (.ok (f s.overlay).1, { s with overlay := (f s.overlay).2 }) := rfl

theorem report_bind_of_ok {x : Act α} {f : α → Act β} {a : α} {s' : Session}
    (h : report x s = (.ok a, s')) : report (x >>= f) s = report (f a) s' := by
  rw [report_bind, h]

theorem report_bind_of_error {x : Act α} {f : α → Act β} {e : Halt} {s' : Session}
    (h : report x s = (.error e, s')) : report (x >>= f) s = (.error e, s') := by
  rw [report_bind, h]

/-! ### Parts put together -/

/-- A property that the smallest parts of a run have, and that is kept when parts are put together. The
calls of hooks are those allowed. -/
structure Partwise (allowed : HookCall → Prop) (P : (α : Type) → Act α → Prop) : Prop where
  pure {α : Type} (a : α) : P α (pure a)
  crashed {α : Type} : P α (throw .crashed)
  exhausted {α : Type} : P α (throw .exhausted)
  bind {α β : Type} {x : Act α} {f : α → Act β} : P α x → (∀ a, P β (f a)) → P β (x >>= f)
  consult {α : Type} (op : Op) (f : Overlay → α × Overlay) (hf : ∀ o, (f o).2 = op.after o) :
    P α (consult f)
  record (call : HookCall) : allowed call → P Unit (record call)
  note (n : Notice) : P Unit (note n)
  /-- Hooks may ask. -/
  query (q : Query) (a : q.Answer) : allowed (.query q a)

namespace Partwise

variable {allowed : HookCall → Prop} {P : (α : Type) → Act α → Prop}

theorem change (h : Partwise allowed P) (op : Op) : P Unit (change op.after) :=
  h.consult op (fun o => ((), op.after o)) fun _ => rfl

theorem forM (h : Partwise allowed P) {f : α → Act PUnit} (hf : ∀ a, P PUnit (f a)) (l : List α) :
    P PUnit (l.forM f) := by
  induction l with
  | nil => exact h.pure _
  | cons a rest ih => exact h.bind (hf a) fun _ => ih

theorem mapM (h : Partwise allowed P) {f : α → Act β} (hf : ∀ a, P β (f a)) (l : List α) :
    P (List β) (l.mapM f) := by
  induction l with
  | nil => exact h.pure _
  | cons a rest ih =>
    rw [List.mapM_cons]
    exact h.bind (hf a) fun _ => h.bind ih fun _ => h.pure _

theorem select (h : Partwise allowed P) (root : Path) (included excluded : List String) :
    P _ (select root included excluded) := by
  unfold Act.select
  split
  · exact h.pure _
  · rename_i m _
    refine h.bind (h.consult (.select root m) _ fun _ => rfl) fun found => ?_
    cases found <;> exact h.pure _

theorem answer (h : Partwise allowed P) (root : Path) (q : Query) : P _ (answer root q) := by
  cases q with
  | root => exact h.pure _
  | content path => exact h.consult (.read path) (fun o => (o.read path, o)) fun _ => rfl
  | children path =>
    exact h.consult (.list path) (fun o => ((o.list path).1.map Route.toPath, (o.list path).2)) fun _ => rfl
  | isDirectory path => exact h.consult (.isKind path .directory) _ fun _ => rfl
  | contains path => exact h.consult (.contains path) _ fun _ => rfl
  | select included excluded => exact h.select root included excluded

theorem inquire (h : Partwise allowed P) (root : Path) (i : Inquiry α) : P α (inquire root i) := by
  induction i with
  | done a => exact h.pure a
  | ask q next ih =>
    exact h.bind (h.answer root q) fun a => h.bind (h.record _ (h.query q a)) fun _ => ih a
  | crash => exact h.crashed

theorem defaultCommands (h : Partwise allowed P) (path : Path) : P _ (Pass.defaultCommands path) := by
  refine h.bind (h.consult (.list path) _ fun _ => rfl) fun children => ?_
  refine h.mapM (fun child => ?_) children
  refine h.bind (h.consult (.isKind child.toPath .directory) _ fun _ => rfl) fun isDirectory => ?_
  cases isDirectory <;> exact h.pure _

/-- The calls of handlers with the state of a pass. -/
structure Handlers (allowed : HookCall → Prop) (state : FilemodState) : Prop where
  directory (path : Path) : allowed (.directory path state)
  file (path : Path) : allowed (.file path state)
  data (path : Path) (data : String) : allowed (.data path data state)

/-- **A command and all commands it leads to** have the property. -/
theorem handle (h : Partwise allowed P) (pass : Pass) (hcalls : Handlers allowed pass.state)
    (depth : Nat) (c : FilemodCommand) : P Unit (pass.handle depth c) := by
  induction depth generalizing c with
  | zero => exact h.exhausted
  | succ depth ih =>
    cases c with
    | handleDirectory path =>
      refine h.bind (h.consult (.isKind path .directory) _ fun _ => rfl) fun there => ?_
      split
      · refine h.bind (h.record _ (hcalls.directory path)) fun _ => ?_
        refine h.bind (h.inquire _ _) fun answer => ?_
        rcases answer with _ | (message | commands)
        · dsimp only
          split
          · exact h.bind (h.defaultCommands path) fun commands => h.forM ih commands
          · exact h.pure _
        · exact h.note _
        · exact h.forM ih commands
      · exact h.pure _
    | handleFile path =>
      refine h.bind (h.consult (.isKind path .file) _ fun _ => rfl) fun there => ?_
      split
      · refine h.bind (h.record _ (hcalls.file path)) fun _ => ?_
        refine h.bind (h.inquire _ _) fun answer => ?_
        cases answer with
        | ok commands => exact h.bind (h.forM ih commands) fun _ => h.note _
        | error message => exact h.bind (h.note _) fun _ => h.note _
      · exact h.pure _
    | upsertFile path =>
      refine h.bind (h.consult (.read path) _ fun _ => rfl) fun found => ?_
      cases found with
      | error e => exact h.note _
      | ok data =>
        refine h.bind (h.record _ (hcalls.data path data)) fun _ => ?_
        refine h.bind (h.inquire _ _) fun answer => ?_
        cases answer with
        | ok command => exact ih command
        | error message => exact h.note _
    | deleteFile path => exact h.change (.delete path)
    | moveFile oldPath newPath =>
      refine h.bind (h.consult (.move oldPath newPath) _ fun _ => rfl) fun moved => ?_
      cases moved with
      | ok _ => exact h.pure _
      | error e => exact h.note _
    | upsertData path data => exact h.change (.write path data)
    | noop => exact h.pure _

section

variable (hfailed : ∀ {α : Type} (e : SandboxError), P α (throw (.failed e)))
include hfailed

theorem require (h : Partwise allowed P) (x : Except String α) : P α (Filemod.require x) := by
  cases x with
  | ok a => exact h.pure a
  | error message => exact hfailed _

theorem scope (h : Partwise allowed P) (f : Filemod) (root : Path) (paths : Option (List Path)) :
    P _ (f.scope root paths) := by
  unfold Filemod.scope
  split
  · exact h.bind (h.change (.register _)) fun _ => h.pure _
  · refine h.bind (h.select _ _ _) fun found => ?_
    cases found with
    | ok selected => exact h.pure _
    | error message => exact hfailed _
  · exact h.pure _

variable (hallowed : ∀ call, allowed call)
include hallowed

theorem passes (h : Partwise allowed P) (f : Filemod) (root : Path) (paths : Option (List Path))
    (arguments : ArgumentRecord) (depth left : Nat) (previous : FilemodState) :
    P Unit (f.passes root paths arguments depth left previous) := by
  induction left generalizing previous with
  | zero => exact hfailed _
  | succ left ih =>
    refine h.bind (h.consult (.lookup root) _ fun _ => rfl) fun found => ?_
    cases found with
    | none => exact h.pure _
    | some kind =>
      refine h.bind (h.scope hfailed f root paths) fun selected => ?_
      refine h.bind (h.record _ (hallowed _)) fun _ => ?_
      refine h.bind (h.inquire _ _) fun state => ?_
      refine h.bind (h.require hfailed state) fun state => ?_
      have hcalls : Handlers allowed state :=
        ⟨fun _ => hallowed _, fun _ => hallowed _, fun _ _ => hallowed _⟩
      refine h.bind (h.forM (h.handle _ hcalls depth) _) fun _ => ?_
      refine h.bind (h.record _ (hallowed _)) fun _ => ?_
      refine h.bind (h.require hfailed _) fun command => ?_
      cases command with
      | noop => exact h.pure _
      | restart => exact ih state

/-- **A run of a filemod** has the property. -/
theorem execute (h : Partwise allowed P) (f : Filemod) (root : Path) (paths : Option (List Path))
    (arguments : ArgumentRecord) (depth : Nat) : P Unit (f.execute root paths arguments depth) :=
  h.passes hfailed hallowed f root paths arguments depth _ _

end

end Partwise

/-! ### What all operations keep -/

/-- A part of a run keeps a property of the overlay, whether it succeeds or not. -/
def Keeps (P : Overlay → Prop) (x : Act α) : Prop :=
  ∀ s : Session, P s.overlay → P (report x s).2.overlay

theorem keeps_partwise {P : Overlay → Prop} (hP : ∀ (op : Op) (o : Overlay), P o → P (op.after o)) :
    Partwise (fun _ => True) fun _ => Keeps P where
  pure _ _ hs := hs
  crashed _ hs := hs
  exhausted _ hs := hs
  bind := by
    intro α β x f hx hf s hs
    have hs' := hx s hs
    rw [report_bind]
    generalize report x s = ended at hs' ⊢
    obtain ⟨_ | a, s'⟩ := ended
    · exact hs'
    · exact hf a s' hs'
  consult op f hf s hs := by
    show P (f s.overlay).2
    rw [hf]
    exact hP op s.overlay hs
  record _ _ _ hs := hs
  note _ _ hs := hs
  query _ _ := trivial

end Act

namespace Filemod

/-- **The commands of a run** denote what became of the files, however the run ends. -/
theorem outcome_denotes (f : Filemod) {tree : FileTree} (hplaced : tree.Placed) (root : Path)
    (paths : Option (List Path)) (arguments : ArgumentRecord) (format : Bool) :
    ∃ log, Overlay.Denotes tree log format
      (f.outcome tree root paths arguments format).commands := by
  have hparts := Act.keeps_partwise (P := fun o => ∃ log, Overlay.Records tree o log)
    fun op o ⟨log, h⟩ => ⟨_, h.perform hplaced op⟩
  have hkeeps := hparts.execute (fun e s hs => hs) (fun _ => trivial) f root paths arguments maxDepth
    { overlay := Overlay.ofTree tree } ⟨{}, Overlay.records_ofTree tree⟩
  unfold Act.report at hkeeps
  unfold outcome
  split
  · rename_i s hs
    rw [hs] at hkeeps
    obtain ⟨log, hrecords⟩ := hkeeps
    exact ⟨log, hrecords.denotes format⟩
  · rename_i halt s hs
    rw [hs] at hkeeps
    obtain ⟨log, hrecords⟩ := hkeeps
    exact ⟨log, hrecords.denotes format⟩

end Filemod

end BulkEdit
