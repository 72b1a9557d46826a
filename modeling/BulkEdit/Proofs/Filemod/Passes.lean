import BulkEdit.Proofs.Filemod.Session

/-!
# The passes of a filemod's run

A run of a filemod that ends is a row of passes (`Lifecycle`): each begins with the initialization, which is
given the state of the pass before; then handlers are called with the state of the pass, and then the
finish. A further pass begins only where the finish asks for it, on the overlay that the one before has left,
and there are at most 65 (`execute_lifecycle`).
-/

namespace BulkEdit

open Overlay (SameChanges)

/-! ### Calls -/

namespace HookCall

/-- The call of a hook; a question is none. -/
def isHook : HookCall → Bool
  | query _ _ => false
  | _ => true

/-- A call of a handler with the given state. -/
def Handles (state : FilemodState) : HookCall → Prop
  | directory _ given => given = state
  | file _ given => given = state
  | data _ _ given => given = state
  | _ => False

end HookCall

namespace Act

variable {α : Type}

/-- A part that fails for no other reason than that a hook breaks down or commands lead too deep. -/
def Steady (x : Act α) : Prop :=
  ∀ s e, (report x s).1 = .error e → e = .crashed ∨ e = .exhausted

/-- A part that makes calls of the allowed kind only. -/
def Makes (allowed : HookCall → Prop) (x : Act α) : Prop :=
  ∀ s, ∃ calls, (report x s).2.calls = s.calls ++ calls ∧ ∀ c ∈ calls, allowed c

theorem steady_partwise (allowed : HookCall → Prop) (hquery : ∀ q a, allowed (.query q a)) :
    Partwise allowed fun _ => Steady where
  pure _ _ _ h := by cases h
  crashed _ _ h := Or.inl (Except.error.inj h).symm
  exhausted _ _ h := Or.inr (Except.error.inj h).symm
  bind := by
    intro α β x f hx hf s e h
    have hfirst := hx s
    rw [report_bind] at h
    generalize report x s = ended at h hfirst
    obtain ⟨e' | a, s'⟩ := ended
    · exact hfirst e (by simpa using h)
    · exact hf a s' e h
  consult _ _ _ _ _ h := by cases h
  record _ _ _ _ h := by cases h
  note _ _ _ h := by cases h
  query := hquery

theorem makes_partwise (allowed : HookCall → Prop) (hquery : ∀ q a, allowed (.query q a)) :
    Partwise allowed fun _ => Makes allowed where
  pure _ _ := ⟨[], by simp, by simp⟩
  crashed _ := ⟨[], by simp, by simp⟩
  exhausted _ := ⟨[], by simp, by simp⟩
  bind := by
    intro α β x f hx hf s
    obtain ⟨calls, hcalls, hall⟩ := hx s
    rw [report_bind]
    generalize report x s = ended at hcalls ⊢
    obtain ⟨e | a, s'⟩ := ended
    · exact ⟨calls, hcalls, hall⟩
    · obtain ⟨calls', hcalls', hall'⟩ := hf a s'
      refine ⟨calls ++ calls', ?_, fun c hc => ?_⟩
      · rw [hcalls', hcalls, List.append_assoc]
      · exact (List.mem_append.1 hc).elim (hall c) (hall' c)
  consult _ _ _ _ := ⟨[], by simp, by simp⟩
  record call hc _ := ⟨[call], rfl, by simpa using hc⟩
  note _ _ := ⟨[], by simp, by simp⟩
  query := hquery

end Act

/-! ### Passes -/

/-- What can be told of a pass. -/
structure Round where
  /-- The overlay with which it begins. -/
  before : Overlay
  /-- What the initialization is given besides the arguments, and what it gives. -/
  previous : FilemodState
  selected : Option (List Path)
  state : Except String FilemodState
  /-- The sessions in which the initialization is asked and has answered, and what the handlers leave. -/
  asked : Session
  answered : Session
  left : Session
  /-- The calls of handlers. -/
  handlers : List HookCall

namespace Round

variable {f : Filemod} {root : Path} {arguments : ArgumentRecord}

/-- **The calls of a pass**: the initialization, and if it gives a state, handlers and then the finish. -/
def calls (arguments : ArgumentRecord) (r : Round) : List HookCall :=
  .init r.previous r.selected arguments ::
    match r.state with
    | .ok state => r.handlers ++ [.finish state]
    | .error _ => []

/-- A pass that comes to its finish, which gives a command. -/
def Gives (f : Filemod) (arguments : ArgumentRecord) (command : FinishCommand) (r : Round) : Prop :=
  ∃ state, r.state = .ok state ∧ f.finish arguments state = .ok command

/-- What is told of a pass is true: its state is what the initialization gives with the changes made before,
and the handlers work on from there, each with that state. -/
structure Proper (f : Filemod) (root : Path) (arguments : ArgumentRecord) (depth : Nat) (r : Round) :
    Prop where
  same : SameChanges r.before r.asked.overlay
  given : Act.report (Act.inquire root (f.init r.previous r.selected arguments)) r.asked =
    (.ok r.state, r.answered)
  stopped : ∀ message, r.state = .error message → r.left = r.answered
  worked : ∀ state, r.state = .ok state → ∃ kind, (r.before.lookup root).1 = some kind ∧
    Act.report ((Filemod.openingCommands root kind r.selected).forM
      (Pass.handle { filemod := f, root, arguments, state } depth)) r.answered = (.ok (), r.left)
  handled : ∀ state, r.state = .ok state → ∀ c ∈ r.handlers, c.Handles state

/-- A pass that follows another one: it was asked for, is given its state and goes on with its overlay. -/
def Follows (f : Filemod) (arguments : ArgumentRecord) (r next : Round) : Prop :=
  r.Gives f arguments .restart ∧ r.state = .ok next.previous ∧ next.before = r.left.overlay

theorem not_gives_of_gives {c d : FinishCommand} {r : Round} (h : r.Gives f arguments c) (hne : d ≠ c) :
    ¬ r.Gives f arguments d := by
  rintro ⟨state', hstate', hfinish'⟩
  obtain ⟨state, hstate, hfinish⟩ := h
  obtain rfl := Except.ok.inj (hstate.symm.trans hstate')
  exact hne (Except.ok.inj (hfinish'.symm.trans hfinish))

end Round

/-- The overlay that some passes leave. -/
def leftBy (o : Overlay) (rounds : List Round) : Overlay :=
  (rounds.getLast?.map fun r => r.left.overlay).getD o

/-- **The life of a filemod**: at most so many passes from a state and a session on. It ends well exactly if
the last finish wants no more, or if the root is not there when a further pass would begin. -/
structure Lifecycle (f : Filemod) (root : Path) (arguments : ArgumentRecord) (depth limit : Nat)
    (previous : FilemodState) (s : Session) (rounds : List Round) (ended : Except Halt Unit × Session) :
    Prop where
  bounded : rounds.length ≤ limit
  proper : ∀ r ∈ rounds, r.Proper f root arguments depth
  first : ∀ r ∈ rounds.head?, r.previous = previous ∧ r.before = s.overlay
  chained : rounds.IsChain (Round.Follows f arguments)
  calls : ended.2.calls.filter HookCall.isHook =
    s.calls.filter HookCall.isHook ++ rounds.flatMap (Round.calls arguments)
  same : SameChanges (leftBy s.overlay rounds) ended.2.overlay
  ok_iff : ended.1 = .ok () ↔ (∃ r ∈ rounds.getLast?, r.Gives f arguments .noop) ∨
    ((∀ r ∈ rounds, r.Gives f arguments .restart) ∧ rounds.length < limit ∧
      ((leftBy s.overlay rounds).lookup root).1 = none)
  runaway : rounds.length = limit → (∀ r ∈ rounds, r.Gives f arguments .restart) →
    ended.1 = .error (.failed (.execution "filemod restarted more than 64 times"))

namespace Lifecycle

variable {f : Filemod} {root : Path} {arguments : ArgumentRecord} {depth limit : Nat}
  {previous state : FilemodState} {s s' : Session} {r : Round} {rounds : List Round}
  {ended : Except Halt Unit × Session}

/-- A life without a pass: the root is not there, or else the run fails. -/
theorem nil (hcalls : ended.2.calls.filter HookCall.isHook = s.calls.filter HookCall.isHook)
    (hsame : SameChanges s.overlay ended.2.overlay)
    (hresult : ended.1 = .ok () ↔ 0 < limit ∧ (s.overlay.lookup root).1 = none)
    (hlimit : limit = 0 → ended.1 = .error (.failed (.execution "filemod restarted more than 64 times"))) :
    Lifecycle f root arguments depth limit previous s [] ended where
  bounded := Nat.zero_le _
  proper := by simp
  first := by simp
  chained := .nil
  calls := by simpa using hcalls
  same := hsame
  ok_iff := by simpa [leftBy] using hresult
  runaway h _ := hlimit h.symm

theorem singleton (hr : r.Proper f root arguments depth) (hprevious : r.previous = previous)
    (hbefore : r.before = s.overlay)
    (hcalls : ended.2.calls.filter HookCall.isHook =
      s.calls.filter HookCall.isHook ++ r.calls arguments)
    (hleft : ended.2.overlay = r.left.overlay) (hlast : ¬ r.Gives f arguments .restart)
    (hresult : ended.1 = .ok () ↔ r.Gives f arguments .noop) :
    Lifecycle f root arguments depth (limit + 1) previous s [r] ended where
  bounded := by simp
  proper := by simpa using hr
  first := by simpa using ⟨hprevious, hbefore⟩
  chained := .singleton r
  calls := by simpa using hcalls
  same := hleft ▸ Overlay.sameChanges_refl _
  ok_iff := by simpa [hlast] using hresult
  runaway _ h := absurd (h r (by simp)) hlast

/-- **One more pass in front** of a life that goes on from it. -/
theorem cons (h : Lifecycle f root arguments depth limit state s' rounds ended)
    (hr : r.Proper f root arguments depth) (hprevious : r.previous = previous) (hbefore : r.before = s.overlay)
    (hcalls : s'.calls.filter HookCall.isHook = s.calls.filter HookCall.isHook ++ r.calls arguments)
    (hleft : s'.overlay = r.left.overlay) (hstate : r.state = .ok state)
    (hgives : r.Gives f arguments .restart) :
    Lifecycle f root arguments depth (limit + 1) previous s (r :: rounds) ended := by
  have hleftBy : leftBy s.overlay (r :: rounds) = leftBy s'.overlay rounds := by
    cases rounds with
    | nil => exact hleft.symm
    | cons next rest =>
      unfold leftBy
      rw [List.getLast?_cons_cons]
      simp [List.getLast?_cons]
  have hlast : (∃ q ∈ (r :: rounds).getLast?, q.Gives f arguments .noop) ↔
      ∃ q ∈ rounds.getLast?, q.Gives f arguments .noop := by
    cases rounds with
    | nil => simpa using Round.not_gives_of_gives hgives (by simp)
    | cons next rest => rw [List.getLast?_cons_cons]
  exact {
    bounded := by simpa using h.bounded
    proper := by simpa using ⟨hr, h.proper⟩
    first := by simpa using ⟨hprevious, hbefore⟩
    chained := by
      cases rounds with
      | nil => exact .singleton r
      | cons next rest =>
        obtain ⟨hgiven, hgoes⟩ := h.first next rfl
        exact .cons_cons ⟨hgives, by rw [hstate, hgiven], by rw [hgoes, hleft]⟩ h.chained
    calls := by
      rw [h.calls, hcalls]
      simp
    same := hleftBy ▸ h.same
    ok_iff := by
      rw [h.ok_iff, hlast, hleftBy]
      simp [hgives]
    runaway := fun hlength hall =>
      h.runaway (by simpa using hlength) fun q hq => hall q (List.mem_cons_of_mem _ hq) }

end Lifecycle

/-! ### A pass of the run -/

namespace Filemod

open Act (report report_bind)

variable {f : Filemod} {root : Path} {paths : Option (List Path)} {arguments : ArgumentRecord}
  {s s' : Session}

theorem sameChanges_select (o : Overlay) (root : Path) (m : Matcher) :
    SameChanges o (o.select root m).2 := by
  unfold Overlay.select
  split
  · exact Overlay.sameChanges_refl o
  · exact Overlay.sameChanges_register _ o

theorem sameChanges_reportSelect (root : Path) (included excluded : List String) (s : Session) :
    SameChanges s.overlay (report (Act.select root included excluded) s).2.overlay := by
  unfold Act.select
  split
  · exact Overlay.sameChanges_refl _
  · rename_i m _
    have hsame := sameChanges_select s.overlay root m
    rw [report_bind, Act.report_consult]
    dsimp only
    generalize s.overlay.select root m = found at hsame ⊢
    obtain ⟨_ | _, o⟩ := found <;> exact hsame

theorem sameChanges_scope (f : Filemod) (root : Path) (paths : Option (List Path)) (s : Session) :
    SameChanges s.overlay (report (f.scope root paths) s).2.overlay := by
  unfold scope
  split
  · exact Overlay.sameChanges_register _ _
  · rename_i p ps _
    have hsame := sameChanges_reportSelect root (p :: ps) f.excluded s
    rw [report_bind]
    generalize report (Act.select root (p :: ps) f.excluded) s = found at hsame ⊢
    obtain ⟨_ | (_ | _), s'⟩ := found <;> exact hsame
  · exact Overlay.sameChanges_refl _

/-- Calls that are questions only. -/
abbrev Asks (c : HookCall) : Prop := c.isHook = false

theorem filter_isHook_of_asks {calls : List HookCall} (h : ∀ c ∈ calls, Asks c) :
    calls.filter HookCall.isHook = [] :=
  List.filter_eq_nil_iff.2 fun c hc => by simp [h c hc]

theorem makes_scope (f : Filemod) (root : Path) (paths : Option (List Path)) :
    Act.Makes Asks (f.scope root paths) :=
  (Act.makes_partwise Asks fun _ _ => rfl).scope (fun _ _ => ⟨[], by simp, by simp⟩) f root paths

/-- The beginning of a pass: the root is looked up, the files are found and the initialization is asked. -/
theorem opening_spec {previous : FilemodState} {selected : Option (List Path)} {s₁ s₂ s₃ : Session}
    {state : Except String FilemodState} (hlooked : s₁ = { s with overlay := (s.overlay.lookup root).2 })
    (hscope : report (f.scope root paths) s₁ = (.ok selected, s₂))
    (hinit : report (Act.inquire root (f.init previous selected arguments))
      { s₂ with calls := s₂.calls ++ [.init previous selected arguments] } = (.ok state, s₃)) :
    SameChanges s.overlay s₂.overlay ∧
      s₃.calls.filter HookCall.isHook =
        s.calls.filter HookCall.isHook ++ [.init previous selected arguments] := by
  have hsame := sameChanges_scope f root paths s₁
  obtain ⟨calls, hcalls, hasks⟩ := makes_scope f root paths s₁
  rw [hscope] at hsame hcalls
  dsimp only at hsame hcalls
  have hmakes := (Act.makes_partwise Asks fun _ _ => rfl).inquire root (f.init previous selected arguments)
  obtain ⟨calls', hcalls', hasks'⟩ := hmakes
    { s₂ with calls := s₂.calls ++ [.init previous selected arguments] }
  rw [hinit] at hcalls'
  dsimp only at hcalls'
  subst hlooked
  refine ⟨(Overlay.sameChanges_lookup s.overlay root).trans hsame, ?_⟩
  rw [hcalls', hcalls, List.filter_append, List.filter_append, List.filter_append,
    filter_isHook_of_asks hasks, filter_isHook_of_asks hasks']
  simp [HookCall.isHook]

/-- The handlers of a pass end well unless one breaks down or leads too deep, and are given its state. -/
theorem handlers_spec (pass : Pass) (depth : Nat) (commands : List FilemodCommand) :
    Act.Steady (commands.forM (pass.handle depth)) ∧
      ∀ s, ∃ handlers, (∀ c ∈ handlers, c.Handles pass.state) ∧
        (report (commands.forM (pass.handle depth)) s).2.calls.filter HookCall.isHook =
          s.calls.filter HookCall.isHook ++ handlers := by
  have hcalls : Act.Partwise.Handlers (fun c => Asks c ∨ c.Handles pass.state) pass.state :=
    ⟨fun _ => Or.inr rfl, fun _ => Or.inr rfl, fun _ _ => Or.inr rfl⟩
  have hsteady := Act.steady_partwise (fun c => Asks c ∨ c.Handles pass.state) fun _ _ => Or.inl rfl
  have hmakes := Act.makes_partwise (fun c => Asks c ∨ c.Handles pass.state) fun _ _ => Or.inl rfl
  refine ⟨hsteady.forM (hsteady.handle pass hcalls depth) commands, fun s => ?_⟩
  obtain ⟨calls, hmade, hall⟩ := hmakes.forM (hmakes.handle pass hcalls depth) commands s
  refine ⟨calls.filter HookCall.isHook, fun c hc => ?_, by rw [hmade, List.filter_append]⟩
  obtain ⟨hin, hhook⟩ := List.mem_filter.1 hc
  refine (hall c hin).resolve_left fun hasks => ?_
  rw [hasks] at hhook
  cases hhook

/-- The part of a pass after its initialization, and what follows the pass. -/
def afterInit (f : Filemod) (root : Path) (arguments : ArgumentRecord) (depth : Nat)
    (commands : List FilemodCommand) (next : Act Unit) (state : FilemodState) : Act Unit := do
  commands.forM (Pass.handle { filemod := f, root, arguments, state } depth)
  Act.record (.finish state)
  match ← require (f.finish arguments state) with
  | .noop => pure ()
  | .restart => next

theorem passes_succ (f : Filemod) (root : Path) (paths : Option (List Path)) (arguments : ArgumentRecord)
    (depth left : Nat) (previous : FilemodState) :
    f.passes root paths arguments depth (left + 1) previous = (do
      match ← Act.consult (·.lookup root) with
      | none => pure ()
      | some kind =>
        let selected ← f.scope root paths
        Act.record (.init previous selected arguments)
        match ← Act.inquire root (f.init previous selected arguments) with
        | .error message => throw (.failed (.execution message))
        | .ok state =>
          f.afterInit root arguments depth (openingCommands root kind selected)
            (f.passes root paths arguments depth left state) state) := by
  rw [passes]
  congr 1
  funext found
  cases found with
  | none => rfl
  | some kind =>
    dsimp only
    congr 1
    funext selected
    congr 1
    funext _
    congr 1
    funext state
    cases state <;> rfl

/-- The end of a part of a run that consists of at most so many passes, from a state and a session on. -/
def InPasses (f : Filemod) (root : Path) (arguments : ArgumentRecord) (depth limit : Nat)
    (previous : FilemodState) (s : Session) (ended : Except Halt Unit × Session) : Prop :=
  ended.1 ≠ .error .exhausted → ended.1 ≠ .error .crashed →
    ∃ rounds, Lifecycle f root arguments depth limit previous s rounds ended

theorem inPasses_of_error {depth limit : Nat} {previous : FilemodState} {e : Halt}
    (h : e = .crashed ∨ e = .exhausted) :
    InPasses f root arguments depth limit previous s (.error e, s') := by
  intro hends hcalm
  rcases h with rfl | rfl
  · exact absurd rfl hcalm
  · exact absurd rfl hends

/-- **A pass whose initialization gave a state**, and the passes that follow it. -/
theorem inPasses_afterInit {depth left : Nat} {kind : EntryKind} {next : Act Unit}
    {previous state : FilemodState} {selected : Option (List Path)} {s s₂ s₃ : Session}
    (hinit : report (Act.inquire root (f.init previous selected arguments)) s₂ = (.ok (.ok state), s₃))
    (hfound : (s.overlay.lookup root).1 = some kind) (hsame : SameChanges s.overlay s₂.overlay)
    (hcalls : s₃.calls.filter HookCall.isHook =
      s.calls.filter HookCall.isHook ++ [.init previous selected arguments])
    (hnext : ∀ s, InPasses f root arguments depth left state s (report next s)) :
    InPasses f root arguments depth (left + 1) previous s
      (report (f.afterInit root arguments depth (openingCommands root kind selected) next state) s₃) := by
  obtain ⟨hsteady, hmakes⟩ := handlers_spec { filemod := f, root, arguments, state } depth
    (openingCommands root kind selected)
  obtain ⟨handlers, hhandles, hcalls'⟩ := hmakes s₃
  unfold afterInit
  rcases hworked : report ((openingCommands root kind selected).forM
    (Pass.handle { filemod := f, root, arguments, state } depth)) s₃ with ⟨e | _, s₄⟩
  · rw [Act.report_bind_of_error hworked]
    exact inPasses_of_error (hsteady s₃ e (congrArg Prod.fst hworked))
  rw [hworked] at hcalls'
  rw [Act.report_bind_of_ok hworked, report_bind, Act.report_record]
  dsimp only at hcalls' ⊢
  -- the pass as a whole, and what it adds to the calls
  let r : Round := ⟨s.overlay, previous, selected, .ok state, s₂, s₃, s₄, handlers⟩
  have hproper : r.Proper f root arguments depth := {
    same := hsame
    given := hinit
    stopped := by simp [r]
    worked := fun _ h => Except.ok.inj h ▸ ⟨kind, hfound, hworked⟩
    handled := fun _ h => Except.ok.inj h ▸ hhandles }
  have htold : (s₄.calls ++ [HookCall.finish state]).filter HookCall.isHook =
      s.calls.filter HookCall.isHook ++ r.calls arguments := by
    rw [List.filter_append, hcalls', hcalls]
    simp [r, Round.calls, HookCall.isHook]
  have hgives : ∀ c, r.Gives f arguments c ↔ f.finish arguments state = .ok c := by
    simp [Round.Gives, r]
  intro hends hcalm
  rcases hfinish : f.finish arguments state with message | (_ | _)
  · refine ⟨[r], .singleton hproper rfl rfl htold rfl (by simp [hgives, hfinish]) ?_⟩
    simp [require, hgives, hfinish, report_bind]
  · refine ⟨[r], .singleton hproper rfl rfl htold rfl (by simp [hgives, hfinish]) ?_⟩
    simp [require, hgives, hfinish]
  · simp only [hfinish, require, pure_bind] at hends hcalm ⊢
    obtain ⟨rounds, hlife⟩ := hnext _ hends hcalm
    exact ⟨r :: rounds, hlife.cons hproper rfl rfl htold rfl rfl ((hgives _).2 hfinish)⟩

/-- **The passes of a run**, from a state and a session on. -/
theorem inPasses_passes (f : Filemod) (root : Path) (paths : Option (List Path))
    (arguments : ArgumentRecord) (depth left : Nat) (previous : FilemodState) (s : Session) :
    InPasses f root arguments depth left previous s
      (report (f.passes root paths arguments depth left previous) s) := by
  induction left generalizing previous s with
  | zero =>
    exact fun _ _ => ⟨[], .nil rfl (Overlay.sameChanges_refl _) (by simp [passes]) fun _ => rfl⟩
  | succ left ih =>
    have hsame := Overlay.sameChanges_lookup s.overlay root
    rw [passes_succ, report_bind, Act.report_consult]
    dsimp only
    cases hfound : (s.overlay.lookup root).1 with
    | none => exact fun _ _ => ⟨[], .nil rfl hsame (by simp [hfound]) (by simp)⟩
    | some kind =>
      generalize hlooked : ({ s with overlay := (s.overlay.lookup root).2 } : Session) = s₁
      dsimp only
      rcases hscope : report (f.scope root paths) s₁ with ⟨e | selected, s₂⟩
      · -- no files can be found for the pass
        obtain ⟨calls, hcalls, hasks⟩ := makes_scope f root paths s₁
        have hsame' := sameChanges_scope f root paths s₁
        rw [hscope] at hcalls hsame'
        rw [Act.report_bind_of_error hscope]
        subst hlooked
        refine fun _ _ => ⟨[], .nil ?_ (hsame.trans hsame') (by simp [hfound]) (by simp)⟩
        dsimp only at hcalls ⊢
        rw [hcalls, List.filter_append, filter_isHook_of_asks hasks, List.append_nil]
      rw [Act.report_bind_of_ok hscope, report_bind, Act.report_record]
      dsimp only
      rcases hinit : report (Act.inquire root (f.init previous selected arguments))
        { s₂ with calls := s₂.calls ++ [.init previous selected arguments] } with ⟨e | state, s₃⟩
      · rw [Act.report_bind_of_error hinit]
        exact inPasses_of_error ((Act.steady_partwise Asks fun _ _ => rfl).inquire root
          (f.init previous selected arguments) _ e (congrArg Prod.fst hinit))
      rw [Act.report_bind_of_ok hinit]
      obtain ⟨hsame₂, hcalls⟩ := opening_spec hlooked.symm hscope hinit
      cases state with
      | ok state => exact inPasses_afterInit hinit hfound hsame₂ hcalls (ih state)
      | error message =>
        -- the pass stops here
        let r : Round := {
          before := s.overlay, previous, selected, state := .error message
          asked := { s₂ with calls := s₂.calls ++ [.init previous selected arguments] }
          answered := s₃, left := s₃, handlers := [] }
        have hproper : r.Proper f root arguments depth :=
          ⟨hsame₂, hinit, fun _ _ => rfl, by simp [r], by simp [r]⟩
        have hgives : ∀ c, ¬ r.Gives f arguments c := by simp [Round.Gives, r]
        exact fun _ _ => ⟨[r], .singleton hproper rfl rfl hcalls rfl (hgives _) (by simp [hgives])⟩

/-- **The lifecycle of a filemod.** The calls of a run are those of at most 65 passes, the first without a
state. Each pass is the initialization, then handlers, then the finish, unless it is the last and stops at a
failing initialization; a further one begins only where the finish asks for it, with the state and the
overlay of the one before. -/
theorem execute_lifecycle (f : Filemod) (root : Path) (paths : Option (List Path))
    (arguments : ArgumentRecord) (depth : Nat) (o : Overlay)
    (hends : (report (f.execute root paths arguments depth) { overlay := o }).1 ≠ .error .exhausted)
    (hcalm : (report (f.execute root paths arguments depth) { overlay := o }).1 ≠ .error .crashed) :
    ∃ rounds, Lifecycle f root arguments depth 65 none { overlay := o } rounds
      (report (f.execute root paths arguments depth) { overlay := o }) :=
  inPasses_passes f root paths arguments depth 65 none { overlay := o } hends hcalm

/-- Counts its passes and wants a second one. -/
def twice : Filemod where
  init previous _ _ := .done (.ok (some (.bool previous.isSome)))
  finish _ state :=
    match state with
    | some (.bool true) => .ok .noop
    | _ => .ok .restart

/-- The lifecycle of a filemod that begins again once, over a tree with one file. -/
theorem execute_lifecycle_twice :
    let o := Overlay.ofTree (.ofFiles [(⟨"/p/a"⟩, "x")])
    let ended := report (twice.execute ⟨"/p"⟩ none [] 4) { overlay := o }
    ended.1 ≠ .error .exhausted ∧ ended.1 ≠ .error .crashed ∧
      ∃ rounds, Lifecycle twice ⟨"/p"⟩ [] 4 65 none { overlay := o } rounds ended := by
  intro o ended
  have hok : ended.1 = .ok () := by decide +kernel
  have hends : ended.1 ≠ .error .exhausted := by simp [hok]
  have hcalm : ended.1 ≠ .error .crashed := by simp [hok]
  exact ⟨hends, hcalm, execute_lifecycle twice ⟨"/p"⟩ none [] 4 o hends hcalm⟩

end Filemod

end BulkEdit
