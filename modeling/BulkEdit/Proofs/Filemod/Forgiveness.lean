import BulkEdit.Proofs.Filemod.Pairs

/-!
# Failing handlers

A handler that fails is noted, and nothing else comes of it: the run goes on as if the handler had given no
command. So a filemod and its forgiving variant (`Filemod.lenient`) make the same calls and the same changes
and come to the same end; what the first notes is what the second notes and, in between, one failure for each
call in the trace that failed (`execute_forgives`).
-/

namespace BulkEdit

/-! ### Failures in a trace -/

/-- The value of an inquiry whose questions have been answered as recorded. -/
def Inquiry.replay {α : Type} : Inquiry α → List HookCall → Option α
  | .done a, _ => some a
  | .ask q next, .query asked answer :: rest =>
    if h : asked = q then (next (h ▸ answer)).replay rest else none
  | .ask _ _, _ => none
  | .crash, _ => none

namespace HookCall

/-- The failure of a call, with the questions that followed it. -/
def failure? (f : Filemod) (arguments : ArgumentRecord) (queries : List HookCall) :
    HookCall → Option Notice
  | .directory path state =>
    match (f.directory path arguments state).replay queries with
    | some (some (.error message)) => some (.failed path message)
    | _ => none
  | .file path state =>
    match (f.file path arguments state).replay queries with
    | some (.error message) => some (.failed path message)
    | _ => none
  | .data path content state =>
    match (f.data path content arguments state).replay queries with
    | some (.error message) => some (.failed path message)
    | _ => none
  | _ => none

end HookCall

/-- **The failures of handlers in a trace.** The questions of a hook are those recorded after its call. -/
def failures (f : Filemod) (arguments : ArgumentRecord) : List HookCall → List Notice
  | [] => []
  | call :: rest =>
    (call.failure? f arguments (rest.takeWhile (!·.isHook))).toList ++ failures f arguments rest

/-- A trace that does not begin amid the questions of a hook. -/
def Hooked (calls : List HookCall) : Prop :=
  ∀ c ∈ calls.head?, c.isHook = true

theorem Hooked.append {calls more : List HookCall} (h : Hooked calls) (hmore : Hooked more) :
    Hooked (calls ++ more) := by
  cases calls with
  | nil => exact hmore
  | cons c rest => exact h

theorem takeWhile_append_of_hooked {calls more : List HookCall} (hmore : Hooked more) :
    (calls ++ more).takeWhile (!·.isHook) = calls.takeWhile (!·.isHook) := by
  induction calls with
  | nil =>
    cases more with
    | nil => rfl
    | cons c rest => simp [hmore c rfl]
  | cons c rest ih => simp [List.takeWhile_cons, ih]

theorem failures_append (f : Filemod) (arguments : ArgumentRecord) {calls more : List HookCall}
    (hmore : Hooked more) :
    failures f arguments (calls ++ more) = failures f arguments calls ++ failures f arguments more := by
  induction calls with
  | nil => rfl
  | cons c rest ih =>
    rw [List.cons_append, failures, failures, ih, takeWhile_append_of_hooked hmore, List.append_assoc]

theorem failures_of_asks (f : Filemod) (arguments : ArgumentRecord) {queries : List HookCall}
    (h : ∀ q ∈ queries, q.isHook = false) : failures f arguments queries = [] := by
  induction queries with
  | nil => rfl
  | cons q rest ih =>
    have hrest := ih fun c hc => h c (List.mem_cons_of_mem _ hc)
    cases q with
    | query q a => exact hrest
    | _ => exact absurd (h _ List.mem_cons_self) (by simp [HookCall.isHook])

theorem failures_call (f : Filemod) (arguments : ArgumentRecord) (call : HookCall) {queries : List HookCall}
    (h : ∀ q ∈ queries, q.isHook = false) :
    failures f arguments (call :: queries) = (call.failure? f arguments queries).toList := by
  have hall : queries.takeWhile (!·.isHook) = queries :=
    List.takeWhile_eq_self_iff.2 fun q hq => by simp [h q hq]
  rw [failures, hall, failures_of_asks f arguments h, List.append_nil]

/-! ### Interleaved notices -/

/-- A list that consists of two others, each in its order. -/
inductive Interleaves {α : Type} : (whole left right : List α) → Prop where
  | nil : Interleaves [] [] []
  | left {whole left right : List α} (a : α) :
    Interleaves whole left right → Interleaves (a :: whole) (a :: left) right
  | right {whole left right : List α} (a : α) :
    Interleaves whole left right → Interleaves (a :: whole) left (a :: right)

namespace Interleaves

variable {α : Type} {whole whole' left left' right right' : List α}

theorem append (h : Interleaves whole left right) (h' : Interleaves whole' left' right') :
    Interleaves (whole ++ whole') (left ++ left') (right ++ right') := by
  induction h with
  | nil => exact h'
  | left a _ ih => exact ih.left a
  | right a _ ih => exact ih.right a

theorem filter_eq (h : Interleaves whole left right) {p : α → Bool} (hright : ∀ a ∈ right, p a = false) :
    whole.filter p = left.filter p := by
  induction h with
  | nil => rfl
  | left a _ ih => rw [List.filter_cons, List.filter_cons, ih hright]
  | right a _ ih =>
    rw [List.filter_cons_of_neg (by simp [hright a List.mem_cons_self])]
    exact ih fun b hb => hright b (List.mem_cons_of_mem _ hb)

end Interleaves

/-! ### Forgiving a filemod -/

/-- Goes on without the failure of a hook. -/
def forgive {α : Type} (instead : α) : Except String α → Except String α
  | .ok a => .ok a
  | .error _ => .ok instead

/-- The filemod whose handlers ask the same, but give no command where they would fail. -/
def Filemod.lenient (f : Filemod) : Filemod where
  included := f.included
  excluded := f.excluded
  init := f.init
  directory path arguments state :=
    (f.directory path arguments state).bind fun answer => .done (answer.map (forgive []))
  file path arguments state :=
    (f.file path arguments state).bind fun answer => .done (forgive [] answer)
  data path data arguments state :=
    (f.data path data arguments state).bind fun answer => .done (forgive .noop answer)
  finish := f.finish

namespace Act

variable {α β : Type} {f : Filemod} {arguments : ArgumentRecord}

theorem inquire_bind (root : Path) (i : Inquiry α) (f : α → β) :
    inquire root (i.bind fun a => .done (f a)) = (do pure (f (← inquire root i))) := by
  induction i with
  | done a => rfl
  | ask q next ih =>
    simp only [Inquiry.bind, inquire, bind_assoc]
    congr 1
    funext a
    congr 1
    funext _
    exact ih a
  | crash => rfl

/-- An answer depends on the overlay only, and changes nothing else. -/
theorem report_answer (root : Path) (q : Query) (o : Overlay) :
    ∃ a o', ∀ calls notices, report (answer root q) ⟨o, calls, notices⟩ = (.ok a, ⟨o', calls, notices⟩) := by
  cases q with
  | root => exact ⟨_, _, fun _ _ => rfl⟩
  | content path => exact ⟨o.read path, o, fun _ _ => rfl⟩
  | children path => exact ⟨(o.list path).1.map Route.toPath, (o.list path).2, fun _ _ => rfl⟩
  | isDirectory path => exact ⟨(o.isKind path .directory).1, (o.isKind path .directory).2, fun _ _ => rfl⟩
  | contains path => exact ⟨(o.contains path).1, (o.contains path).2, fun _ _ => rfl⟩
  | select included excluded =>
    show ∃ a o', ∀ calls notices, report (Act.select root included excluded) ⟨o, calls, notices⟩ = _
    unfold Act.select
    split
    · exact ⟨_, _, fun _ _ => rfl⟩
    · rename_i m _
      rcases hfound : o.select root m with ⟨e | paths, o'⟩
      · exact ⟨.error e.message, o', fun _ _ => by simp [report_bind, hfound]⟩
      · exact ⟨.ok paths, o', fun _ _ => by simp [report_bind, hfound]⟩

/-- A hook asks, and the record of its questions tells its value. -/
theorem report_inquire (root : Path) (i : Inquiry α) (o : Overlay) :
    ∃ r o' queries, (∀ q ∈ queries, q.isHook = false) ∧ i.replay queries = r.toOption ∧
      ∀ calls notices, report (inquire root i) ⟨o, calls, notices⟩ = (r, ⟨o', calls ++ queries, notices⟩) := by
  induction i generalizing o with
  | done a => exact ⟨.ok a, o, [], by simp, rfl, by simp [inquire]⟩
  | crash => exact ⟨.error .crashed, o, [], by simp, rfl, by simp [inquire]⟩
  | ask q next ih =>
    obtain ⟨a, o₁, hanswer⟩ := report_answer root q o
    obtain ⟨r, o₂, queries, hasks, hreplay, hreport⟩ := ih a o₁
    refine ⟨r, o₂, .query q a :: queries, ?_, ?_, fun calls notices => ?_⟩
    · exact List.forall_mem_cons.2 ⟨rfl, hasks⟩
    · simpa [Inquiry.replay] using hreplay
    · rw [inquire, report_bind_of_ok (hanswer calls notices), report_bind, report_record]
      simp [hreport]

/-- **The second part forgives what the first notes**: it ends in the same way, with the same calls and the same
changes, and notes the same apart from the failures of the calls and those that are owed from before. -/
def Forgives (f : Filemod) (arguments : ArgumentRecord) (owed : List Notice) (x y : Act α) : Prop :=
  ∀ o calls notices notices', (report x ⟨o, calls, notices⟩).1 ≠ .error .exhausted →
    ∃ r o' made noted noted', Hooked made ∧ Interleaves noted noted' (owed ++ failures f arguments made) ∧
      report x ⟨o, calls, notices⟩ = (r, ⟨o', calls ++ made, notices ++ noted⟩) ∧
      report y ⟨o, calls, notices'⟩ = (r, ⟨o', calls ++ made, notices' ++ noted'⟩)

namespace Forgives

/-- A part without notices and calls of hooks that does the same in both runs. -/
theorem quiet {x : Act α} (h : ∀ o, ∃ r o', ∀ calls notices,
      report x ⟨o, calls, notices⟩ = (r, ⟨o', calls, notices⟩)) : Forgives f arguments [] x x := by
  intro o calls notices notices' _
  obtain ⟨r, o', hreport⟩ := h o
  exact ⟨r, o', [], [], [], by simp [Hooked], .nil, by simp [hreport], by simp [hreport]⟩

/-- A failure that only the first part notes. -/
theorem owed (n : Notice) : Forgives f arguments [n] (note n) (pure ()) := by
  intro o calls notices notices' _
  exact ⟨.ok (), o, [], [n], [], by simp [Hooked], .right n .nil, by simp, by simp⟩

theorem bind {pending : List Notice} {x y : Act α} {k k' : α → Act β}
    (hx : Forgives f arguments pending x y) (hk : ∀ a, Forgives f arguments [] (k a) (k' a)) :
    Forgives f arguments pending (x >>= k) (y >>= k') := by
  intro o calls notices notices' hends
  -- if the first part led too deep, so would the whole
  have hfirst : (report x ⟨o, calls, notices⟩).1 ≠ .error .exhausted := by
    intro h
    refine hends ?_
    rcases hx : report x ⟨o, calls, notices⟩ with ⟨e | a, s⟩
    · rw [report_bind_of_error hx]
      rw [hx] at h
      exact congrArg _ (Except.error.inj h)
    · rw [hx] at h
      cases h
  obtain ⟨r, o₁, made, noted, noted', hhooked, hnoted, hreport, hreport'⟩ := hx o calls notices notices' hfirst
  cases r with
  | error e =>
    rw [report_bind_of_error hreport, report_bind_of_error hreport']
    exact ⟨.error e, o₁, made, noted, noted', hhooked, hnoted, rfl, rfl⟩
  | ok a =>
    rw [report_bind_of_ok hreport] at hends ⊢
    rw [report_bind_of_ok hreport']
    obtain ⟨r, o₂, more, also, also', hhooked', halso, hgoes, hgoes'⟩ :=
      hk a o₁ (calls ++ made) (notices ++ noted) (notices' ++ noted') hends
    refine ⟨r, o₂, made ++ more, noted ++ also, noted' ++ also', hhooked.append hhooked', ?_, ?_, ?_⟩
    · rw [failures_append f arguments hhooked', ← List.append_assoc]
      exact hnoted.append halso
    · rw [hgoes, List.append_assoc, List.append_assoc]
    · rw [hgoes', List.append_assoc, List.append_assoc]

/-- **The call of a hook** that asks the same in both runs: what it owes by its value is noted in the first run
at once. -/
theorem hook {call : HookCall} (hcall : call.isHook = true) {root : Path} {i : Inquiry α} {i' : Inquiry β}
    {g : α → β} (hsame : inquire root i' = (do pure (g (← inquire root i)))) (owing : α → Option Notice)
    (hfails : ∀ queries, call.failure? f arguments queries = (i.replay queries).bind owing)
    {k : α → Act Unit} {k' : β → Act Unit}
    (hk : ∀ a, Forgives f arguments (owing a).toList (k a) (k' (g a))) :
    Forgives f arguments [] (do record call; k (← inquire root i)) (do record call; k' (← inquire root i')) := by
  intro o calls notices notices' hends
  obtain ⟨r, o₁, queries, hasks, hreplay, hreport⟩ := report_inquire root i o
  -- the trace of the call tells the value, and with it the failure
  have hcalled : failures f arguments (call :: queries) = (r.toOption.bind owing).toList := by
    rw [failures_call f arguments call hasks, hfails, hreplay]
  rw [hsame, report_bind, report_record]
  rw [report_bind, report_record] at hends ⊢
  simp only [bind_assoc, pure_bind] at hends ⊢
  cases r with
  | error e =>
    rw [report_bind_of_error (hreport _ _), report_bind_of_error (hreport _ _)]
    refine ⟨.error e, o₁, call :: queries, [], [], ?_, ?_, by simp, by simp⟩
    · simpa [Hooked] using hcall
    · rw [hcalled]
      exact .nil
  | ok a =>
    rw [report_bind_of_ok (hreport _ _)] at hends
    rw [report_bind_of_ok (hreport _ _), report_bind_of_ok (hreport _ _)]
    obtain ⟨r, o₂, made, noted, noted', hhooked, hnoted, hx, hy⟩ := hk a o₁ _ notices notices' hends
    refine ⟨r, o₂, call :: queries ++ made, noted, noted', ?_, ?_, ?_, ?_⟩
    · simpa [Hooked] using hcall
    · rw [failures_append f arguments hhooked, hcalled]
      exact hnoted
    · rw [hx]
      simp
    · rw [hy]
      simp

theorem throw (e : Halt) : Forgives f arguments [] (throw e : Act α) (throw e) :=
  quiet fun o => ⟨.error e, o, fun _ _ => rfl⟩

theorem note (n : Notice) : Forgives f arguments [] (note n) (note n) := by
  intro o calls notices notices' _
  exact ⟨.ok (), o, [], [n], [n], by simp [Hooked], .left n .nil, by simp, by simp⟩

theorem consult (k : Overlay → α × Overlay) : Forgives f arguments [] (consult k) (consult k) :=
  quiet fun o => ⟨.ok (k o).1, (k o).2, fun _ _ => rfl⟩

/-- What the failure of a hook owes. -/
def owing {α : Type} (path : Path) : Except String α → Option Notice
  | .ok _ => none
  | .error message => some (.failed path message)

theorem paired (f : Filemod) (root : Path) (arguments : ArgumentRecord) (state : FilemodState) :
    Paired (fun _ => Forgives f arguments []) ⟨f, root, arguments, state⟩
      ⟨f.lenient, root, arguments, state⟩ where
  pure a := quiet fun o => ⟨.ok a, o, fun _ _ => rfl⟩
  exhausted _ _ _ _ _ h := absurd rfl h
  bind := bind
  consult := consult
  note := note
  included := rfl
  directory := by
    intro path work work' other other' hwork hempty hother
    refine hook rfl (inquire_bind root (f.directory path arguments state) _)
      (fun answer => answer.bind (owing path)) (fun queries => ?_) fun answer => ?_
    · simp only [HookCall.failure?]
      rcases (f.directory path arguments state).replay queries with _ | _ | (_ | _) <;> rfl
    · rcases answer with _ | (message | commands)
      · exact hother
      · show Forgives f arguments [.failed path message] (Act.note _) (work' [])
        rw [hempty]
        exact owed _
      · exact hwork commands
  file := by
    intro path work work' hwork hempty
    refine hook rfl (inquire_bind root (f.file path arguments state) _) (owing path) (fun queries => ?_)
      fun answer => ?_
    · simp only [HookCall.failure?]
      rcases (f.file path arguments state).replay queries with _ | (_ | _) <;> rfl
    · cases answer with
      | error message =>
        show Forgives f arguments [.failed path message] (Act.note _) (work' [])
        rw [hempty]
        exact owed _
      | ok commands => exact hwork commands
  data := by
    intro path data work work' hwork hempty
    refine hook rfl (inquire_bind root (f.data path data arguments state) _) (owing path) (fun queries => ?_)
      fun answer => ?_
    · simp only [HookCall.failure?]
      rcases (f.data path data arguments state).replay queries with _ | (_ | _) <;> rfl
    · cases answer with
      | error message =>
        show Forgives f arguments [.failed path message] (Act.note _) (work' .noop)
        rw [hempty]
        exact owed _
      | ok command => exact hwork command

theorem pairedRuns (f : Filemod) (root : Path) (arguments : ArgumentRecord) :
    PairedRuns (fun _ => Forgives f arguments []) f f.lenient root arguments where
  pass := paired f root arguments
  excluded := rfl
  finish := rfl
  failed e := throw (.failed e)
  begun _ _ _ _ hnext :=
    hook rfl (bind_pure _).symm (fun _ => none) (fun _ => by simp [HookCall.failure?]) hnext
  ended state := by
    intro o calls notices notices' _
    exact ⟨.ok (), o, [.finish state], [], [], by simp [Hooked, HookCall.isHook], .nil, by simp, by simp⟩

end Forgives

end Act

/-- Whether a notice is about a file that has been handled. -/
def Notice.isHandled : Notice → Bool
  | .handled _ => true
  | .failed _ _ => false

theorem HookCall.isHandled_of_failure? {f : Filemod} {arguments : ArgumentRecord} {queries : List HookCall}
    {call : HookCall} {n : Notice} (h : call.failure? f arguments queries = some n) :
    n.isHandled = false := by
  unfold failure? at h
  split at h
  · split at h <;> cases h
    rfl
  · split at h <;> cases h
    rfl
  · split at h <;> cases h
    rfl
  · cases h

theorem isHandled_of_mem_failures {f : Filemod} {arguments : ArgumentRecord} {calls : List HookCall}
    {n : Notice} (hn : n ∈ failures f arguments calls) : n.isHandled = false := by
  induction calls with
  | nil => cases hn
  | cons call rest ih =>
    rcases List.mem_append.1 hn with hfailure | hrest
    · exact HookCall.isHandled_of_failure? (Option.mem_toList.1 hfailure)
    · exact ih hrest

namespace Filemod

open Act (report)

/-- **Handlers fail alone.** A run and the run of the forgiving filemod come to the same end, with the same
overlay, the same calls and the same files handled; the first notes, besides what the second notes, one
failure for each call that failed, at the path of the call. -/
theorem execute_forgives (f : Filemod) (root : Path) (paths : Option (List Path)) (arguments : ArgumentRecord)
    (depth : Nat) (o : Overlay)
    (hends : (report (f.execute root paths arguments depth) { overlay := o }).1 ≠ .error .exhausted)
    (deeper : Nat) (hdepth : depth < deeper) :
    let strict := report (f.execute root paths arguments deeper) { overlay := o }
    let lenient := report (f.lenient.execute root paths arguments deeper) { overlay := o }
    lenient.1 = strict.1 ∧ lenient.2.calls = strict.2.calls ∧ lenient.2.overlay = strict.2.overlay ∧
      lenient.2.notices.filter Notice.isHandled = strict.2.notices.filter Notice.isHandled ∧
      Interleaves strict.2.notices lenient.2.notices (failures f arguments strict.2.calls) := by
  intro strict lenient
  obtain ⟨r, o', made, noted, noted', -, hnoted, hreport, hreport'⟩ :=
    (Act.Forgives.pairedRuns f root arguments).passes paths hdepth _ none o [] [] [] hends
  have hstrict : strict = (r, ⟨o', made, noted⟩) :=
    (f.execute_deeper root paths arguments hdepth _ hends).trans hreport
  have hlenient : lenient = (r, ⟨o', made, noted'⟩) := hreport'
  rw [hstrict, hlenient]
  exact ⟨rfl, rfl, rfl, (hnoted.filter_eq fun _ => isHandled_of_mem_failures).symm, hnoted⟩

/-- Fails for one file, and for the content of every other one. -/
def touchy : Filemod where
  file path _ _ := .done (if path.text = "/p/a" then .error "not this" else .ok [.upsertFile path])
  data _ _ _ _ := .done (.error "nor that")

/-- A run with two failures beside the run that forgives them. -/
theorem execute_forgives_touchy :
    let o := Overlay.ofTree (.ofFiles [(⟨"/p/a"⟩, "x"), (⟨"/p/b"⟩, "y")])
    let paths := some [⟨"/p/a"⟩, ⟨"/p/b"⟩]
    let strict := report (touchy.execute ⟨"/p"⟩ paths [] 5) { overlay := o }
    let lenient := report (touchy.lenient.execute ⟨"/p"⟩ paths [] 5) { overlay := o }
    (report (touchy.execute ⟨"/p"⟩ paths [] 4) { overlay := o }).1 ≠ .error .exhausted ∧
      failures touchy [] strict.2.calls = [.failed ⟨"/p/a"⟩ "not this", .failed ⟨"/p/b"⟩ "nor that"] ∧
      lenient.1 = strict.1 ∧ lenient.2.calls = strict.2.calls ∧ lenient.2.overlay = strict.2.overlay ∧
      lenient.2.notices.filter Notice.isHandled = strict.2.notices.filter Notice.isHandled ∧
      Interleaves strict.2.notices lenient.2.notices (failures touchy [] strict.2.calls) := by
  intro o paths strict lenient
  have hends : (report (touchy.execute ⟨"/p"⟩ paths [] 4) { overlay := o }).1 ≠ .error .exhausted := by
    decide +kernel
  have hfailures : failures touchy [] strict.2.calls =
      [.failed ⟨"/p/a"⟩ "not this", .failed ⟨"/p/b"⟩ "nor that"] := by
    decide +kernel
  exact ⟨hends, hfailures, execute_forgives touchy ⟨"/p"⟩ paths [] 4 o hends 5 (by decide)⟩

end Filemod

end BulkEdit
