import BulkEdit.Proofs.Filemod.Passes

/-!
# Runs of filemods side by side

Two filemods that differ in their handlers only are compared part by part (`Paired`): what is related in the
calls of handlers is related in a command with all commands it leads to, and in the whole run
(`PairedRuns.passes`). The first run has a smaller bound on how deep commands may lead than the second. With the
same filemod on both sides it follows that a run that stays within its bound stays the same with a greater
one (`execute_deeper`).
-/

namespace BulkEdit

/-! ### The calls of handlers -/

namespace Pass

/-- Calls the handler for folders; the commands that it gives are worked off. -/
def callDirectory (pass : Pass) (path : Path) (work : List FilemodCommand → Act Unit) (other : Act Unit) :
    Act Unit := do
  Act.record (.directory path pass.state)
  match ← Act.inquire pass.root (pass.filemod.directory path pass.arguments pass.state) with
  | some (.ok commands) => work commands
  | some (.error message) => Act.note (.failed path message)
  | none => other

def callFile (pass : Pass) (path : Path) (work : List FilemodCommand → Act Unit) : Act Unit := do
  Act.record (.file path pass.state)
  match ← Act.inquire pass.root (pass.filemod.file path pass.arguments pass.state) with
  | .ok commands => work commands
  | .error message => Act.note (.failed path message)

def callData (pass : Pass) (path : Path) (data : String) (work : FilemodCommand → Act Unit) :
    Act Unit := do
  Act.record (.data path data pass.state)
  match ← Act.inquire pass.root (pass.filemod.data path data pass.arguments pass.state) with
  | .ok command => work command
  | .error message => Act.note (.failed path message)

theorem handle_directory (pass : Pass) (depth : Nat) (path : Path) :
    pass.handle (depth + 1) (.handleDirectory path) = (do
      if ← Act.consult (·.isKind path .directory) then
        pass.callDirectory path (·.forM (pass.handle depth)) (if pass.filemod.included.isNone then do
          (← defaultCommands path).forM (pass.handle depth) else pure ())) := rfl

theorem handle_file (pass : Pass) (depth : Nat) (path : Path) :
    pass.handle (depth + 1) (.handleFile path) = (do
      if ← Act.consult (·.isKind path .file) then
        pass.callFile path (·.forM (pass.handle depth))
        Act.note (.handled path)) := by
  rw [handle]
  congr 1
  funext there
  cases there with
  | false => rfl
  | true =>
    simp only [callFile, bind_assoc, if_true]
    congr 1
    funext _
    congr 1
    funext answer
    cases answer <;> rfl

theorem handle_upsert (pass : Pass) (depth : Nat) (path : Path) :
    pass.handle (depth + 1) (.upsertFile path) = (do
      match ← Act.consult fun o => (o.read path, o) with
      | .error e => Act.note (.failed path e.message)
      | .ok data => pass.callData path data (pass.handle depth)) := rfl

end Pass

/-! ### Parts of two runs -/

namespace Act

variable {α β : Type}

/-- A relation between parts of two runs that is kept when the parts are put together, and that holds of
the calls of handlers if it holds of what is done with their commands. Nothing is asked of a first part that
leads too deep. -/
structure Paired (R : (α : Type) → Act α → Act α → Prop) (pass pass' : Pass) : Prop where
  pure {α : Type} (a : α) : R α (pure a) (pure a)
  exhausted {α : Type} (y : Act α) : R α (throw .exhausted) y
  bind {α β : Type} {x y : Act α} {f g : α → Act β} : R α x y → (∀ a, R β (f a) (g a)) →
    R β (x >>= f) (y >>= g)
  consult {α : Type} (f : Overlay → α × Overlay) : R α (consult f) (consult f)
  note (n : Notice) : R Unit (note n) (note n)
  included : pass'.filemod.included = pass.filemod.included
  directory (path : Path) {work work' : List FilemodCommand → Act Unit} {other other' : Act Unit} :
    (∀ cs, R Unit (work cs) (work' cs)) → work' [] = Pure.pure () → R Unit other other' →
      R Unit (pass.callDirectory path work other) (pass'.callDirectory path work' other')
  file (path : Path) {work work' : List FilemodCommand → Act Unit} :
    (∀ cs, R Unit (work cs) (work' cs)) → work' [] = Pure.pure () →
      R Unit (pass.callFile path work) (pass'.callFile path work')
  data (path : Path) (data : String) {work work' : FilemodCommand → Act Unit} :
    (∀ c, R Unit (work c) (work' c)) → work' .noop = Pure.pure () →
      R Unit (pass.callData path data work) (pass'.callData path data work')

namespace Paired

variable {R : (α : Type) → Act α → Act α → Prop} {pass pass' : Pass}

theorem change (h : Paired R pass pass') (f : Overlay → Overlay) : R Unit (change f) (change f) :=
  h.consult fun o => ((), f o)

theorem forM (h : Paired R pass pass') {f g : α → Act PUnit} (hf : ∀ a, R PUnit (f a) (g a))
    (l : List α) : R PUnit (l.forM f) (l.forM g) := by
  induction l with
  | nil => exact h.pure _
  | cons a rest ih => exact h.bind (hf a) fun _ => ih

theorem mapM (h : Paired R pass pass') {f : α → Act β} (hf : ∀ a, R β (f a) (f a)) (l : List α) :
    R (List β) (l.mapM f) (l.mapM f) := by
  induction l with
  | nil => exact h.pure _
  | cons a rest ih =>
    rw [List.mapM_cons]
    exact h.bind (hf a) fun _ => h.bind ih fun _ => h.pure _

theorem defaultCommands (h : Paired R pass pass') (path : Path) :
    R _ (Pass.defaultCommands path) (Pass.defaultCommands path) := by
  refine h.bind (h.consult _) fun children => h.mapM (fun child => ?_) children
  refine h.bind (h.consult _) fun isDirectory => ?_
  cases isDirectory <;> exact h.pure _

/-- **A command and all commands it leads to**, in two runs. -/
theorem handle (h : Paired R pass pass') {depth deeper : Nat} (hdepth : depth < deeper)
    (c : FilemodCommand) : R Unit (pass.handle depth c) (pass'.handle deeper c) := by
  induction depth generalizing deeper c with
  | zero => exact h.exhausted _
  | succ depth ih =>
    obtain ⟨deeper, rfl⟩ := Nat.exists_eq_succ_of_ne_zero (Nat.ne_of_gt (Nat.zero_lt_of_lt hdepth))
    have hless : depth < deeper := Nat.lt_of_succ_lt_succ hdepth
    have ih := ih hless
    cases c with
    | handleDirectory path =>
      rw [Pass.handle_directory, Pass.handle_directory]
      refine h.bind (h.consult _) fun there => ?_
      split
      · refine h.directory path (h.forM ih) rfl ?_
        rw [h.included]
        split
        · exact h.bind (h.defaultCommands path) (h.forM ih)
        · exact h.pure _
      · exact h.pure _
    | handleFile path =>
      rw [Pass.handle_file, Pass.handle_file]
      refine h.bind (h.consult _) fun there => ?_
      split
      · exact h.bind (h.file path (h.forM ih) rfl) fun _ => h.note _
      · exact h.pure _
    | upsertFile path =>
      rw [Pass.handle_upsert, Pass.handle_upsert]
      refine h.bind (h.consult _) fun found => ?_
      cases found with
      | error e => exact h.note _
      | ok data =>
        -- the second run has a step left to do nothing
        obtain ⟨deeper, rfl⟩ := Nat.exists_eq_succ_of_ne_zero (Nat.ne_of_gt (Nat.zero_lt_of_lt hless))
        exact h.data path data ih rfl
    | deleteFile path => exact h.change _
    | moveFile oldPath newPath =>
      refine h.bind (h.consult _) fun moved => ?_
      cases moved with
      | ok _ => exact h.pure _
      | error e => exact h.note _
    | upsertData path data => exact h.change _
    | noop => exact h.pure _

theorem select (h : Paired R pass pass') (root : Path) (included excluded : List String) :
    R _ (select root included excluded) (select root included excluded) := by
  unfold Act.select
  split
  · exact h.pure _
  · refine h.bind (h.consult _) fun found => ?_
    cases found <;> exact h.pure _

theorem scope (h : Paired R pass pass') (hfailed : ∀ {α : Type} (e : SandboxError),
      R α (throw (.failed e)) (throw (.failed e))) (f : Filemod) (root : Path) (paths : Option (List Path)) :
    R _ (f.scope root paths) (f.scope root paths) := by
  unfold Filemod.scope
  split
  · exact h.bind (h.change _) fun _ => h.pure _
  · refine h.bind (h.select _ _ _) fun found => ?_
    cases found with
    | ok selected => exact h.pure _
    | error message => exact hfailed _
  · exact h.pure _

end Paired

/-- A relation between parts of the runs of two filemods that differ in their handlers only. -/
structure PairedRuns (R : (α : Type) → Act α → Act α → Prop) (f g : Filemod) (root : Path)
    (arguments : ArgumentRecord) : Prop where
  pass (state : FilemodState) : Paired R ⟨f, root, arguments, state⟩ ⟨g, root, arguments, state⟩
  excluded : g.excluded = f.excluded
  finish : g.finish = f.finish
  failed {α : Type} (e : SandboxError) : R α (throw (.failed e)) (throw (.failed e))
  begun (previous : FilemodState) (selected : Option (List Path))
    {next next' : Except String FilemodState → Act Unit} : (∀ a, R Unit (next a) (next' a)) →
      R Unit (do record (.init previous selected arguments)
                 next (← inquire root (f.init previous selected arguments)))
        (do record (.init previous selected arguments)
            next' (← inquire root (g.init previous selected arguments)))
  ended (state : FilemodState) : R Unit (record (.finish state)) (record (.finish state))

namespace PairedRuns

variable {R : (α : Type) → Act α → Act α → Prop} {f g : Filemod} {root : Path} {arguments : ArgumentRecord}

theorem afterInit (h : PairedRuns R f g root arguments) {depth deeper : Nat} (hdepth : depth < deeper)
    (commands : List FilemodCommand) {next next' : Act Unit} (hnext : R Unit next next')
    (state : FilemodState) :
    R Unit (f.afterInit root arguments depth commands next state)
      (g.afterInit root arguments deeper commands next' state) := by
  have hpass := h.pass state
  refine hpass.bind (hpass.forM (hpass.handle hdepth) commands) fun _ => ?_
  refine hpass.bind (h.ended state) fun _ => ?_
  have hrequire : R _ (Filemod.require (f.finish arguments state))
      (Filemod.require (g.finish arguments state)) := by
    rw [h.finish]
    cases f.finish arguments state with
    | error message => exact h.failed _
    | ok command => exact hpass.pure command
  refine hpass.bind hrequire fun command => ?_
  cases command with
  | noop => exact hpass.pure _
  | restart => exact hnext

theorem passes (h : PairedRuns R f g root arguments) (paths : Option (List Path)) {depth deeper : Nat}
    (hdepth : depth < deeper) (left : Nat) (previous : FilemodState) :
    R Unit (f.passes root paths arguments depth left previous)
      (g.passes root paths arguments deeper left previous) := by
  have hpass := h.pass previous
  have hscope : g.scope root paths = f.scope root paths := by
    unfold Filemod.scope
    rw [show g.included = f.included from hpass.included, h.excluded]
  induction left generalizing previous with
  | zero => exact h.failed _
  | succ left ih =>
    rw [Filemod.passes_succ, Filemod.passes_succ, hscope]
    refine hpass.bind (hpass.consult _) fun found => ?_
    cases found with
    | none => exact hpass.pure _
    | some kind =>
      refine hpass.bind (hpass.scope h.failed f root paths) fun selected => ?_
      refine h.begun previous selected fun state => ?_
      cases state with
      | error message => exact h.failed _
      | ok state => exact h.afterInit hdepth _ (ih state (h.pass state)) state

end PairedRuns

/-! ### A greater bound -/

/-- The second part does what the first does, if that does not lead too deep. -/
def Deepens (x y : Act α) : Prop :=
  ∀ s, (report x s).1 ≠ .error .exhausted → report y s = report x s

namespace Deepens

theorem refl (x : Act α) : Deepens x x := fun _ _ => rfl

theorem bind {x y : Act α} {f g : α → Act β} (hx : Deepens x y) (hf : ∀ a, Deepens (f a) (g a)) :
    Deepens (x >>= f) (y >>= g) := by
  intro s hends
  rcases hfirst : report x s with ⟨e | a, s'⟩
  · rw [report_bind_of_error hfirst] at hends ⊢
    exact report_bind_of_error ((hx s (by simpa [hfirst] using hends)).trans hfirst)
  · rw [report_bind_of_ok hfirst] at hends ⊢
    rw [report_bind_of_ok ((hx s (by simp [hfirst])).trans hfirst)]
    exact hf a s' hends

theorem paired (pass : Pass) : Paired (fun _ => Deepens) pass pass where
  pure _ := refl _
  exhausted _ _ h := absurd rfl h
  bind := bind
  consult _ := refl _
  note _ := refl _
  included := rfl
  directory := by
    intro path work work' other other' hwork _ hother
    refine (refl _).bind fun _ => (refl _).bind fun answer => ?_
    rcases answer with _ | (message | commands)
    · exact hother
    · exact refl _
    · exact hwork commands
  file := by
    intro path work work' hwork _
    refine (refl _).bind fun _ => (refl _).bind fun answer => ?_
    cases answer with
    | error message => exact refl _
    | ok commands => exact hwork commands
  data := by
    intro path data work work' hwork _
    refine (refl _).bind fun _ => (refl _).bind fun answer => ?_
    cases answer with
    | error message => exact refl _
    | ok command => exact hwork command

theorem pairedRuns (f : Filemod) (root : Path) (arguments : ArgumentRecord) :
    PairedRuns (fun _ => Deepens) f f root arguments where
  pass _ := paired _
  excluded := rfl
  finish := rfl
  failed _ := refl _
  begun _ _ _ _ hnext := (refl _).bind fun _ => (refl _).bind hnext
  ended _ := refl _

end Deepens

end Act

namespace Filemod

open Act (report)

/-- **A run that stays within its bound** stays the same with a greater one. -/
theorem execute_deeper (f : Filemod) (root : Path) (paths : Option (List Path)) (arguments : ArgumentRecord)
    {depth deeper : Nat} (hdepth : depth < deeper) (s : Session)
    (hends : (report (f.execute root paths arguments depth) s).1 ≠ .error .exhausted) :
    report (f.execute root paths arguments deeper) s = report (f.execute root paths arguments depth) s :=
  (Act.Deepens.pairedRuns f root arguments).passes paths hdepth _ none s hends

end Filemod

end BulkEdit
