import BulkEdit.Worker.Pool
import Mathlib.Data.List.Perm.Basic
import Mathlib.Tactic.Common

/-!
# Worker pools under any schedule

A pool does one thing after another, in whatever order its workers, its stream and the clock decide:
`Step` lists what may happen next, and `Reachable` holds of all that can come about in this way from
idle workers and a stream of paths. Nothing gets lost on any such way (`reachable_conserved`). `Works` and
`Ran` are the same for given workers, whose results are not left open. The schedule of `Pool.start` is one
of these ways (`start_ran`, `start_reachable`).
-/

namespace BulkEdit

def Event.progress? : Event → Option Progress
  | .message (.progress p) => some p
  | _ => none

def Event.isErrorMessage : Event → Bool
  | .message (.error _ _) => true
  | _ => false

namespace PoolState

/-- A worker becomes busy, and whatever becomes of it by that. -/
def hand (st : PoolState) (job : Job) (worker : Worker) : PoolState :=
  { st with
    idle := st.idle.erase job.worker
    workers := st.workers.set job.worker worker
    busy := st.busy ++ [job] }

/-- The last message, and whether the pool gave up. -/
def finish (st : PoolState) (timedOut : Bool) : PoolState :=
  { st with
    report := { st.report with timedOut }
    events := st.events ++ [.message .finish] }

end PoolState

namespace Pool

/-! ### Steps -/

/-- A pool in the middle of its run. The stream has been taken up to `pending`, and of the taken paths
some are completed. -/
structure Stage where
  pending : List Path
  taken : List Path := []
  completed : List Path := []
  /-- Whether the end of the stream was seen. -/
  exhausted : Bool := false
  ended : Bool := false
  state : PoolState

/-- What may happen next. Which worker is given a path, whether the path can be loaded, what a busy
worker says and when, and what comes of its file is left open; time may run out at any moment. -/
inductive Step (pool : Pool) (s : Stage) : Stage → Prop
  | give {path : Path} {rest : List Path} (job : Job) (worker : Worker) :
      s.ended = false → s.exhausted = false → s.pending = path :: rest →
      job.path = path → job.worker ∈ s.state.idle →
      Step pool s { s with
        pending := rest
        taken := s.taken ++ [path]
        state := s.state.count.hand job worker }
  | fail {path : Path} {rest : List Path} (message : String) :
      s.ended = false → s.exhausted = false → s.pending = path :: rest → s.state.idle ≠ [] →
      Step pool s { s with
        pending := rest
        taken := s.taken ++ [path]
        completed := s.completed ++ [path]
        state := pool.complete s.state.count path (.error (.execution message)) }
  | exhaust : s.ended = false → s.exhausted = false → s.pending = [] → s.state.idle ≠ [] →
      Step pool s { s with exhausted := true }
  | say (job : Job) (lines : List (ConsoleKind × String)) :
      s.ended = false → job ∈ s.state.busy →
      Step pool s { s with state := s.state.say lines }
  | done (before after : List Job) (job : Job) (result : FileResult) :
      s.ended = false → s.state.busy = before ++ job :: after →
      Step pool s { s with
        completed := s.completed ++ [job.path]
        state := pool.done { s.state with busy := before ++ after } job result }
  | finish : s.ended = false → s.exhausted = true →
      s.state.idle.length = s.state.workers.length →
      Step pool s { s with ended := true, state := s.state.finish false }
  | timeout : s.ended = false →
      Step pool s { s with ended := true, state := s.state.finish true }

/-- All that can come about from idle workers and a stream of paths. -/
inductive Reachable : Pool → List Worker → List Path → Stage → Prop
  | start (pool : Pool) (workers : List Worker) (stream : List Path) :
      Reachable pool workers stream { pending := stream, state := .ofWorkers workers }
  | step {pool : Pool} {workers : List Worker} {stream : List Path} {s s' : Stage} :
      Reachable pool workers stream s → Step pool s s' → Reachable pool workers stream s'

/-! ### The figures -/

/-- The report counts what was told. -/
structure Figures (st : PoolState) : Prop where
  failed_messages : st.report.failedFiles = st.events.countP Event.isErrorMessage
  failed_errors : st.report.failedFiles = (st.events.filterMap Event.error?).length
  commands : st.report.commands = (st.events.filterMap Event.command?).length
  /-- The progress messages carry 1, 2, 3 and so on. -/
  processed : (st.events.filterMap Event.progress?).map Progress.processed =
    List.range' 1 st.report.processedFiles
  within : ∀ p ∈ st.events.filterMap Event.progress?, p.processed ≤ p.total

variable {pool : Pool} {st : PoolState} {path : Path} {result : FileResult}

theorem Figures.count (h : Figures st) : Figures st.count :=
  ⟨h.failed_messages, h.failed_errors, h.commands, h.processed, h.within⟩

theorem Figures.hand (h : Figures st) (job : Job) (worker : Worker) :
    Figures (st.hand job worker) :=
  ⟨h.failed_messages, h.failed_errors, h.commands, h.processed, h.within⟩

theorem Figures.append (h : Figures st) (events : List Event)
    (hevents : ∀ e ∈ events, e.isErrorMessage = false ∧ e.error? = none ∧ e.command? = none ∧
      e.progress? = none) :
    Figures { st with events := st.events ++ events } := by
  have hmessages : events.countP Event.isErrorMessage = 0 :=
    List.countP_eq_zero.2 fun e he => by simp [(hevents e he).1]
  have herrors : events.filterMap Event.error? = [] :=
    List.filterMap_eq_nil_iff.2 fun e he => (hevents e he).2.1
  have hcommands : events.filterMap Event.command? = [] :=
    List.filterMap_eq_nil_iff.2 fun e he => (hevents e he).2.2.1
  have hprogress : events.filterMap Event.progress? = [] :=
    List.filterMap_eq_nil_iff.2 fun e he => (hevents e he).2.2.2
  refine ⟨?_, ?_, ?_, ?_, ?_⟩
  · simp [hmessages, h.failed_messages]
  · simp [herrors, h.failed_errors]
  · simp [hcommands, h.commands]
  · simp [hprogress, h.processed]
  · simpa [hprogress] using h.within

theorem Figures.say (h : Figures st) (lines : List (ConsoleKind × String)) :
    Figures (st.say lines) := by
  refine h.append _ fun e he => ?_
  obtain ⟨⟨kind, message⟩, -, rfl⟩ := List.mem_map.1 he
  exact ⟨rfl, rfl, rfl, rfl⟩

theorem Figures.finish (h : Figures st) (timedOut : Bool) : Figures (st.finish timedOut) := by
  have happend := h.append [.message .finish]
    (by simp [Event.isErrorMessage, Event.error?, Event.command?, Event.progress?])
  exact ⟨happend.failed_messages, happend.failed_errors, happend.commands, happend.processed,
    happend.within⟩

/-! The report and the events after a result: both count it in the same way. -/

theorem tally_processedFiles (report : PoolReport) (result : FileResult) :
    (tally report result).processedFiles = report.processedFiles + 1 := by
  cases result <;> rfl

theorem tally_totalFiles (report : PoolReport) (result : FileResult) :
    (tally report result).totalFiles = report.totalFiles := by
  cases result <;> rfl

theorem tally_timedOut (report : PoolReport) (result : FileResult) :
    (tally report result).timedOut = report.timedOut := by
  cases result <;> rfl

theorem tally_commands (pool : Pool) (path : Path) (report : PoolReport) (result : FileResult) :
    (tally report result).commands =
      report.commands + ((pool.resultEvents path result).filterMap Event.command?).length := by
  cases result with
  | ok commands => simp [tally, resultEvents, List.filterMap_map, Function.comp_def, Event.command?]
  | error e => rfl

theorem tally_failedFiles (pool : Pool) (path : Path) (report : PoolReport) (result : FileResult) :
    (tally report result).failedFiles =
        report.failedFiles + (pool.resultEvents path result).countP Event.isErrorMessage ∧
      (tally report result).failedFiles =
        report.failedFiles + ((pool.resultEvents path result).filterMap Event.error?).length := by
  cases result with
  | ok commands =>
    simp [tally, resultEvents, List.countP_map, List.filterMap_map, Function.comp_def,
      Event.isErrorMessage, Event.error?]
  | error e => exact ⟨rfl, rfl⟩

theorem resultEvents_progress : (pool.resultEvents path result).filterMap Event.progress? = [] := by
  cases result with
  | ok commands => exact List.filterMap_eq_nil_iff.2 (by simp [resultEvents, Event.progress?])
  | error e => rfl

theorem finish_not_mem_resultEvents : .message .finish ∉ pool.resultEvents path result := by
  cases result with
  | ok commands => simp [resultEvents]
  | error e => simp [resultEvents, Event.failure]

theorem complete_progress (st : PoolState) :
    (pool.complete st path result).events.filterMap Event.progress? =
      st.events.filterMap Event.progress? ++ [⟨pool.codemodName, st.report.processedFiles + 1,
        st.report.totalFiles, some ((path.relativeTo? pool.target).getD path)⟩] := by
  simp [complete, progress, resultEvents_progress, Event.progress?, tally_processedFiles,
    tally_totalFiles]

theorem Figures.complete (h : Figures st)
    (hopen : st.report.processedFiles < st.report.totalFiles) :
    Figures (pool.complete st path result) := by
  obtain ⟨hmessages, herrors⟩ := tally_failedFiles pool path st.report result
  have hcommands := tally_commands pool path st.report result
  refine ⟨?_, ?_, ?_, ?_, ?_⟩
  · simp [Pool.complete, progress, hmessages, h.failed_messages, Event.isErrorMessage]
  · simp [Pool.complete, progress, herrors, h.failed_errors, Event.error?]
  · simp [Pool.complete, progress, hcommands, h.commands, Event.command?]
  · rw [complete_progress, List.map_append, h.processed, Pool.complete, tally_processedFiles,
      List.range'_1_concat, Nat.add_comm 1]
    rfl
  · rw [complete_progress]
    intro p hp
    rcases List.mem_append.1 hp with hp | hp
    · exact h.within p hp
    · rw [List.mem_singleton.1 hp]
      exact hopen

/-! ### What every step conserves -/

/-- **Nothing gets lost.** -/
structure Conserved (pool : Pool) (stream : List Path) (s : Stage) : Prop where
  /-- The stream is taken in order. -/
  stream_eq : s.taken ++ s.pending = stream
  /-- Each worker is either idle or busy with one file, and none is listed twice. -/
  workers : (s.state.idle ++ s.state.busy.map Job.worker).Perm
    (List.range s.state.workers.length)
  total_eq_taken : s.state.report.totalFiles = s.taken.length
  total_eq : s.state.report.totalFiles = s.state.report.processedFiles + s.state.busy.length
  figures : Figures s.state
  /-- Each path that was taken is either completed or with a worker, and no path is both or twice. -/
  accounted : (s.completed ++ s.state.busy.map Job.path).Perm s.taken
  /-- The progress messages name the completed paths in order. -/
  named : (s.state.events.filterMap Event.progress?).map Progress.file =
    s.completed.map fun path => some ((path.relativeTo? pool.target).getD path)

/-- The end of a run is told once, as the last thing, and does not come before the stream is through
unless time ran out. -/
structure Orderly (s : Stage) : Prop where
  exhausted : s.exhausted = true → s.pending = []
  running : s.ended = false →
    .message .finish ∉ s.state.events ∧ s.state.report.timedOut = false
  finished : s.ended = true →
    ∃ before, s.state.events = before ++ [.message .finish] ∧ .message .finish ∉ before
  through : s.ended = true → s.state.report.timedOut = false → s.pending = [] ∧ s.state.busy = []

variable {workers : List Worker} {stream : List Path} {s s' : Stage}

theorem conserved_start :
    Conserved pool stream { pending := stream, state := .ofWorkers workers } :=
  ⟨rfl, by simp [PoolState.ofWorkers], rfl, rfl, ⟨rfl, rfl, rfl, rfl, by simp [PoolState.ofWorkers]⟩,
    by simp [PoolState.ofWorkers], rfl⟩

theorem orderly_start : Orderly { pending := stream, state := .ofWorkers workers } :=
  ⟨nofun, fun _ => ⟨by simp [PoolState.ofWorkers], rfl⟩, nofun, nofun⟩

theorem named_complete
    (h : (st.events.filterMap Event.progress?).map Progress.file =
      s.completed.map fun path => some ((path.relativeTo? pool.target).getD path)) :
    ((pool.complete st path result).events.filterMap Event.progress?).map Progress.file =
      (s.completed ++ [path]).map fun path => some ((path.relativeTo? pool.target).getD path) := by
  rw [complete_progress, List.map_append, h, List.map_append]
  rfl

theorem Conserved.finish (h : Conserved pool stream s) (timedOut : Bool) :
    Conserved pool stream { s with ended := true, state := s.state.finish timedOut } := by
  refine ⟨h.stream_eq, h.workers, h.total_eq_taken, h.total_eq, h.figures.finish _, h.accounted, ?_⟩
  rw [← h.named]
  simp [PoolState.finish, Event.progress?]

theorem Conserved.step (h : Conserved pool stream s) (hs : Step pool s s') :
    Conserved pool stream s' := by
  have htotal := h.total_eq
  cases hs with
  | @give path rest job worker _ _ hpending hpath hidle =>
    refine ⟨?_, ?_, ?_, ?_, h.figures.count.hand job worker, ?_, h.named⟩
    · rw [← h.stream_eq, hpending]
      simp
    · have hmoved : (s.state.idle.erase job.worker ++ (s.state.busy ++ [job]).map Job.worker).Perm
          (s.state.idle ++ s.state.busy.map Job.worker) := by
        rw [List.map_append, ← List.append_assoc]
        refine List.perm_append_comm.trans ?_
        exact (List.perm_cons_erase hidle).symm.append_right _
      simpa [PoolState.hand, PoolState.count] using hmoved.trans h.workers
    · simp [PoolState.hand, PoolState.count, h.total_eq_taken]
    · simp only [PoolState.hand, PoolState.count, List.length_append, List.length_singleton]
      omega
    · simp only [PoolState.hand, PoolState.count, List.map_append, ← List.append_assoc]
      exact h.accounted.append (by simp [hpath])
  | @fail path rest message _ _ hpending hidle =>
    have hopen : s.state.count.report.processedFiles < s.state.count.report.totalFiles := by
      simp only [PoolState.count]
      omega
    refine ⟨?_, h.workers, ?_, ?_, h.figures.count.complete hopen, ?_, named_complete h.named⟩
    · rw [← h.stream_eq, hpending]
      simp
    · simp [complete, tally_totalFiles, PoolState.count, h.total_eq_taken]
    · simp only [complete, tally_totalFiles, tally_processedFiles, PoolState.count]
      omega
    · have hcomm : (s.completed ++ [path] ++ s.state.busy.map Job.path).Perm
          (s.completed ++ s.state.busy.map Job.path ++ [path]) := by
        rw [List.append_assoc, List.append_assoc]
        exact List.perm_append_comm.append_left _
      exact hcomm.trans (h.accounted.append_right _)
  | exhaust =>
    exact ⟨h.stream_eq, h.workers, h.total_eq_taken, h.total_eq, h.figures, h.accounted, h.named⟩
  | say job lines =>
    refine ⟨h.stream_eq, h.workers, h.total_eq_taken, h.total_eq, h.figures.say lines, h.accounted, ?_⟩
    rw [← h.named]
    simp [PoolState.say, Event.console, Event.progress?]
  | done before after job result _ hbusy =>
    have hlength : s.state.busy.length = (before ++ after).length + 1 := by
      rw [hbusy]
      simp [Nat.add_assoc]
    have hopen : s.state.report.processedFiles < s.state.report.totalFiles := by omega
    have hfreed : Figures
        { s.state with busy := before ++ after, idle := job.worker :: s.state.idle } :=
      ⟨h.figures.failed_messages, h.figures.failed_errors, h.figures.commands, h.figures.processed,
        h.figures.within⟩
    refine ⟨h.stream_eq, ?_, ?_, ?_, hfreed.complete hopen, ?_, named_complete h.named⟩
    · have hmoved : (job.worker :: s.state.idle ++ (before ++ after).map Job.worker).Perm
          (s.state.idle ++ s.state.busy.map Job.worker) := by
        rw [hbusy, List.map_append, List.map_append, List.map_cons, List.cons_append]
        refine List.Perm.trans ?_ (List.perm_middle.symm.append_left _)
        exact List.perm_middle.symm
      exact hmoved.trans h.workers
    · simp [done, complete, tally_totalFiles, h.total_eq_taken]
    · simp only [done, complete, tally_totalFiles, tally_processedFiles]
      omega
    · have hmoved : (s.completed ++ [job.path] ++ (before ++ after).map Job.path).Perm
          (s.completed ++ s.state.busy.map Job.path) := by
        rw [hbusy, List.map_append, List.map_append, List.map_cons, List.append_assoc,
          List.singleton_append]
        exact List.perm_middle.symm.append_left _
      exact hmoved.trans h.accounted
  | finish => exact h.finish false
  | timeout => exact h.finish true

theorem orderly_running (hended : s.ended = false) (hexhausted : s.exhausted = true → s.pending = [])
    (hevents : .message .finish ∉ s.state.events) (htime : s.state.report.timedOut = false) :
    Orderly s where
  exhausted := hexhausted
  running _ := ⟨hevents, htime⟩
  finished h := by simp [hended] at h
  through h := by simp [hended] at h

theorem finish_not_mem_complete (h : .message .finish ∉ st.events) :
    .message .finish ∉ (pool.complete st path result).events := by
  simp [complete, progress, h, finish_not_mem_resultEvents]

theorem Orderly.step (h : Orderly s) (hc : Conserved pool stream s) (hs : Step pool s s') :
    Orderly s' := by
  cases hs with
  | give job worker hended hexhausted =>
    obtain ⟨hevents, htime⟩ := h.running hended
    exact orderly_running hended (by simp [hexhausted]) hevents htime
  | fail message hended hexhausted =>
    obtain ⟨hevents, htime⟩ := h.running hended
    exact orderly_running hended (by simp [hexhausted]) (finish_not_mem_complete hevents) htime
  | exhaust hended hexhausted hpending =>
    obtain ⟨hevents, htime⟩ := h.running hended
    exact orderly_running hended (fun _ => hpending) hevents htime
  | say job lines hended =>
    obtain ⟨hevents, htime⟩ := h.running hended
    exact orderly_running hended h.exhausted (by simp [PoolState.say, Event.console, hevents]) htime
  | done before after job result hended =>
    obtain ⟨hevents, htime⟩ := h.running hended
    refine orderly_running hended h.exhausted (finish_not_mem_complete hevents) ?_
    exact (tally_timedOut ..).trans htime
  | finish hended hexhausted hidle =>
    have hlength := hc.workers.length_eq
    simp only [List.length_append, List.length_map, List.length_range] at hlength
    have hbusy : s.state.busy = [] := List.length_eq_zero_iff.1 (by omega)
    refine ⟨h.exhausted, nofun, fun _ => ⟨_, rfl, (h.running hended).1⟩, fun _ _ => ?_⟩
    exact ⟨h.exhausted hexhausted, hbusy⟩
  | timeout hended =>
    exact ⟨h.exhausted, nofun, fun _ => ⟨_, rfl, (h.running hended).1⟩, fun _ => nofun⟩

theorem reachable_invariant (h : Reachable pool workers stream s) :
    Conserved pool stream s ∧ Orderly s := by
  induction h with
  | start => exact ⟨conserved_start, orderly_start⟩
  | step _ hs ih => exact ⟨ih.1.step hs, ih.2.step ih.1 hs⟩

/-- **Conservation under any schedule.** Nothing gets lost at any moment. When the run has ended, the
end was told once, as the last thing; and unless time ran out, each path of the stream was completed
once, so that the figures count all of them. -/
theorem reachable_conserved (pool : Pool) (workers : List Worker) (stream : List Path) (s : Stage)
    (h : Reachable pool workers stream s) :
    Conserved pool stream s ∧
      (s.ended = true →
        (∃ before, s.state.events = before ++ [.message .finish] ∧ .message .finish ∉ before) ∧
        (s.state.report.timedOut = false → s.completed.Perm stream ∧
          s.state.report.totalFiles = stream.length ∧
          s.state.report.processedFiles = stream.length)) := by
  obtain ⟨hc, ho⟩ := reachable_invariant h
  refine ⟨hc, fun hended => ⟨ho.finished hended, fun htime => ?_⟩⟩
  obtain ⟨hpending, hbusy⟩ := ho.through hended htime
  have htaken : s.taken = stream := by
    rw [← hc.stream_eq, hpending, List.append_nil]
  have hcompleted := hc.accounted
  rw [hbusy, List.map_nil, List.append_nil, htaken] at hcompleted
  have htotal := hc.total_eq_taken
  have hprocessed := hc.total_eq
  rw [htaken] at htotal
  rw [hbusy, List.length_nil, Nat.add_zero, htotal] at hprocessed
  exact ⟨hcompleted, htotal, hprocessed.symm⟩

/-- Two workers share three files: one cannot be loaded, the later one of the others is done first and
has failed, and the other worker speaks before it is done. -/
theorem reachable_conserved_shared :
    ∃ s, Reachable ⟨⟨.tsMorph, "m", .builtin fun _ => { ending := .hangs }⟩, .empty,
        ⟨.tsMorph, [], true, .parenthesis⟩, {}, none, ⟨"/p"⟩⟩
        [.builtin fun _ => { ending := .hangs }, .builtin fun _ => { ending := .hangs }]
        [⟨"/p/a"⟩, ⟨"/p/b"⟩, ⟨"/p/c"⟩] s ∧
      s.ended = true ∧ s.state.report.timedOut = false ∧
      s.completed.Perm [⟨"/p/a"⟩, ⟨"/p/b"⟩, ⟨"/p/c"⟩] ∧ s.state.report.processedFiles = 3 := by
  let job₀ : Job := ⟨0, ⟨"/p/a"⟩, none⟩
  let job₁ : Job := ⟨1, ⟨"/p/c"⟩, none⟩
  let stuck : Worker := .builtin fun _ => { ending := .hangs }
  have hstart := Reachable.start ⟨⟨.tsMorph, "m", .builtin fun _ => { ending := .hangs }⟩, .empty,
    ⟨.tsMorph, [], true, .parenthesis⟩, {}, none, ⟨"/p"⟩⟩ [stuck, stuck]
    [⟨"/p/a"⟩, ⟨"/p/b"⟩, ⟨"/p/c"⟩]
  have hgiven := hstart.step (.give job₀ stuck rfl rfl rfl rfl (by decide))
  have hfailed := hgiven.step (.fail "gone" rfl rfl rfl (by decide))
  have hshared := hfailed.step (.give job₁ stuck rfl rfl rfl rfl (by decide))
  have hfirst := hshared.step (.done [job₀] [] job₁ (.error (.execution "no")) rfl rfl)
  have hspoken := hfirst.step (.say job₀ [(.log, "well")] rfl (by simp [done, complete]))
  have hsecond := hspoken.step (.done [] [] job₀ (.ok [.delete ⟨"/p/a"⟩]) rfl rfl)
  have hend := (hsecond.step (.exhaust rfl rfl rfl (by decide))).step (.finish rfl rfl rfl)
  obtain ⟨hcompleted, -, hprocessed⟩ := ((reachable_conserved _ _ _ _ hend).2 rfl).2 rfl
  exact ⟨_, hend, rfl, rfl, hcompleted, hprocessed⟩

/-! ### Steps of the workers at hand -/

/-- What happens next if the workers are as they are. A path that can be loaded is given to a worker, who
makes of the file what it does; one that cannot be loaded fails for the reason that the tree gives; and a
worker that is done has come to the result of its job. -/
inductive Works (pool : Pool) (s : Stage) : Stage → Prop
  | give {path : Path} {rest : List Path} {source : String} {number : Nat} {worker : Worker} :
      s.ended = false → s.exhausted = false → s.pending = path :: rest →
      pool.tree.read path = .ok source → number ∈ s.state.idle →
      s.state.workers[number]? = some worker →
      Works pool s { s with
        pending := rest
        taken := s.taken ++ [path]
        state := s.state.count.hand ⟨number, path, (pool.execute worker ⟨path, source⟩).2.1⟩
          (pool.execute worker ⟨path, source⟩).2.2 }
  | fail {path : Path} {rest : List Path} {e : TreeError} :
      s.ended = false → s.exhausted = false → s.pending = path :: rest →
      pool.tree.read path = .error e → s.state.idle ≠ [] →
      Works pool s { s with
        pending := rest
        taken := s.taken ++ [path]
        completed := s.completed ++ [path]
        state := pool.complete s.state.count path (.error (.execution e.message)) }
  | done {before after : List Job} {job : Job} {result : FileResult} :
      s.ended = false → s.state.busy = before ++ job :: after → job.result = some result →
      Works pool s { s with
        completed := s.completed ++ [job.path]
        state := pool.done { s.state with busy := before ++ after } job result }
  /-- Whatever else may happen: no path is taken, and none is completed. -/
  | other {s' : Stage} : Step pool s s' → s'.taken = s.taken → s'.completed = s.completed →
      Works pool s s'

theorem Works.step (h : Works pool s s') : Step pool s s' := by
  cases h with
  | give hended hexhausted hpending _ hidle _ =>
    exact .give _ _ hended hexhausted hpending rfl hidle
  | fail hended hexhausted hpending _ hidle => exact .fail _ hended hexhausted hpending hidle
  | done hended hbusy _ => exact .done _ _ _ _ hended hbusy
  | other h _ _ => exact h

/-- All that the workers at hand can bring about with a stream of paths. -/
inductive Ran : Pool → List Worker → List Path → Stage → Prop
  | start (pool : Pool) (workers : List Worker) (stream : List Path) :
      Ran pool workers stream { pending := stream, state := .ofWorkers workers }
  | step {pool : Pool} {workers : List Worker} {stream : List Path} {s s' : Stage} :
      Ran pool workers stream s → Works pool s s' → Ran pool workers stream s'

theorem Ran.reachable (h : Ran pool workers stream s) : Reachable pool workers stream s := by
  induction h with
  | start => exact .start ..
  | step _ hs ih => exact ih.step hs.step

theorem Ran.say (h : Ran pool workers stream s) (job : Job) (lines : List (ConsoleKind × String))
    (hended : s.ended = false) (hjob : job ∈ s.state.busy) :
    Ran pool workers stream { s with state := s.state.say lines } :=
  h.step (.other (.say job lines hended hjob) rfl rfl)

theorem Ran.finish (h : Ran pool workers stream s) (hended : s.ended = false)
    (hexhausted : s.exhausted = false) (hpending : s.pending = []) (hidle : s.state.idle ≠ [])
    (hall : s.state.idle.length = s.state.workers.length) :
    Ran pool workers stream { s with exhausted := true, ended := true, state := s.state.finish false } :=
  (h.step (.other (.exhaust hended hexhausted hpending hidle) rfl rfl)).step
    (.other (.finish hended rfl hall) rfl rfl)

/-! ### The schedule that is followed -/

theorem Conserved.worker_of_idle (h : Conserved pool stream s) {number : Nat} {idle : List Nat}
    (hidle : s.state.idle = number :: idle) : ∃ worker, s.state.workers[number]? = some worker := by
  have hmem : number ∈ List.range s.state.workers.length := h.workers.subset (by simp [hidle])
  exact ⟨_, List.getElem?_eq_getElem (List.mem_range.1 hmem)⟩

/-- What is reached when `feed` has some paths left: the run goes on, and the end of the stream was not
seen. -/
def Feeds (pool : Pool) (workers : List Worker) (stream : List Path) (st : PoolState)
    (pending : List Path) : Prop :=
  ∃ s, Ran pool workers stream s ∧ s.ended = false ∧ s.exhausted = false ∧ s.state = st ∧
    s.pending = pending

theorem Feeds.take {rest : List Path} (h : Feeds pool workers stream st (path :: rest))
    (hidle : st.idle ≠ []) : Feeds pool workers stream (pool.take st path) rest := by
  obtain ⟨s, hs, hended, hexhausted, rfl, hpending⟩ := h
  unfold Pool.take
  cases hread : pool.tree.read path with
  | error e => exact ⟨_, hs.step (.fail hended hexhausted hpending hread hidle), hended, hexhausted,
      rfl, rfl⟩
  | ok source =>
    obtain ⟨number, idle, hnumber⟩ := List.exists_cons_of_ne_nil hidle
    obtain ⟨worker, hworker⟩ := (reachable_invariant hs.reachable).1.worker_of_idle hnumber
    have hgive := hs.step (.give hended hexhausted hpending hread (by simp [hnumber]) hworker)
    -- What the worker says is told at once; on its own it could be told at any later moment.
    have hsay := hgive.say ⟨number, path, (pool.execute worker ⟨path, source⟩).2.1⟩
      (pool.execute worker ⟨path, source⟩).1 hended (by simp [PoolState.hand])
    refine ⟨_, hsay, hended, hexhausted, ?_, rfl⟩
    simp [assign, PoolState.count, hnumber, hworker, PoolState.say, PoolState.hand]

theorem firstEnding_eq_some {jobs others : List Job} {job : Job}
    (h : firstEnding jobs = some (job, result, others)) :
    job.result = some result ∧
      ∃ before after, jobs = before ++ job :: after ∧ others = before ++ after := by
  induction jobs generalizing others with
  | nil => cases h
  | cons first rest ih =>
    rw [firstEnding] at h
    split at h
    · rename_i hresult
      cases h
      exact ⟨hresult, [], rest, rfl, rfl⟩
    · obtain ⟨⟨j, r, js⟩, hrest, he⟩ := Option.map_eq_some_iff.1 h
      cases he
      obtain ⟨hresult, before, after, rfl, rfl⟩ := ih hrest
      exact ⟨hresult, first :: before, after, rfl, rfl⟩

theorem Feeds.await? {pending : List Path} {st' : PoolState}
    (h : Feeds pool workers stream st pending) (hawait : pool.await? st = some st') :
    Feeds pool workers stream st' pending := by
  obtain ⟨s, hs, hended, hexhausted, rfl, hpending⟩ := h
  obtain ⟨⟨job, result, busy⟩, hfirst, rfl⟩ := Option.map_eq_some_iff.1 hawait
  obtain ⟨hresult, before, after, hbusy, rfl⟩ := firstEnding_eq_some hfirst
  exact ⟨_, hs.step (.done hended hbusy hresult), hended, hexhausted, rfl, hpending⟩

theorem Feeds.drain {pending : List Path} (h : Feeds pool workers stream st pending)
    (count : Nat) : Feeds pool workers stream (pool.drain st count) pending := by
  induction count generalizing st with
  | zero => exact h
  | succ count ih =>
    rw [Pool.drain]
    split
    · rename_i hawait
      exact ih (h.await? hawait)
    · exact h

theorem Reachable.length_workers (h : Reachable pool workers stream s) :
    s.state.workers.length = workers.length := by
  induction h with
  | start => rfl
  | step _ hs ih =>
    rw [← ih]
    cases hs <;> simp [PoolState.hand, PoolState.count, PoolState.say, PoolState.finish, done, complete]

theorem Feeds.idle_or_busy {pending : List Path} (h : Feeds pool workers stream st pending)
    (hworkers : workers ≠ []) : st.idle ≠ [] ∨ st.busy ≠ [] := by
  obtain ⟨s, hs, -, -, rfl, -⟩ := h
  by_contra hnone
  rw [not_or, not_not, not_not] at hnone
  have hlength := (reachable_invariant hs.reachable).1.workers.length_eq
  rw [hnone.1, hnone.2, List.length_range, hs.reachable.length_workers] at hlength
  exact hworkers (List.length_eq_zero_iff.1 hlength.symm)

/-- After `feed`, all paths are taken or some workers are busy for good. -/
theorem Feeds.feed {pending : List Path} (h : Feeds pool workers stream st pending)
    (hworkers : workers ≠ []) :
    ∃ rest, Feeds pool workers stream (pool.feed st pending) rest ∧
      ((pool.feed st pending).busy = [] → rest = []) := by
  induction pending generalizing st with
  | nil => exact ⟨[], h.drain _, fun _ => rfl⟩
  | cons path rest ih =>
    rw [Pool.feed, ready?]
    by_cases hidle : st.idle = []
    · rw [hidle, List.isEmpty_nil, if_pos rfl]
      cases hawait : pool.await? st with
      | none =>
        have hbusy := (h.idle_or_busy hworkers).resolve_left (not_not.2 hidle)
        exact ⟨_, h, fun hnone => absurd hnone hbusy⟩
      | some st' =>
        have hfreed : st'.idle ≠ [] := by
          obtain ⟨⟨job, result, busy⟩, -, rfl⟩ := Option.map_eq_some_iff.1 hawait
          exact List.cons_ne_nil _ _
        exact ih ((h.await? hawait).take hfreed)
    · rw [List.isEmpty_eq_false_iff.2 hidle, if_neg (by simp)]
      exact ih (h.take hidle)

theorem length_spawnAll {m : Module} {count : Nat} (h : m.spawnAll count = .ok workers) :
    workers.length = count := by
  induction count generalizing workers with
  | zero =>
    cases h
    rfl
  | succ count ih =>
    rw [Module.spawnAll] at h
    split at h
    · cases h
    · split at h
      · cases h
      · rename_i hrest
        cases h
        simp [ih hrest]

/-- **The schedule of `Pool.start` is one of them**: what it gives is what the workers that it starts
have brought about at the end of a run. -/
theorem start_ran {threads : Nat} {report : PoolReport} {events : List Event}
    (h : pool.start threads stream = .ok (report, events)) :
    ∃ workers s, pool.module.spawnAll (max threads 1) = .ok workers ∧ Ran pool workers stream s ∧
      s.ended = true ∧ s.state.report = report ∧ s.state.events = events := by
  unfold start at h
  split at h
  · cases h
  rename_i workers hspawn
  have hlength := length_spawnAll hspawn
  have hworkers : workers ≠ [] := List.ne_nil_of_length_pos (by omega)
  have hstart : Feeds pool workers stream (.ofWorkers workers) stream :=
    ⟨_, .start .., rfl, rfl, rfl, rfl⟩
  obtain ⟨rest, ⟨s, hs, hended, hexhausted, hstate, hpending⟩, hrest⟩ := hstart.feed hworkers
  rw [← hstate] at h hrest
  by_cases hbusy : s.state.busy = []
  · rw [hrest hbusy] at hpending
    have hidle : s.state.idle.length = s.state.workers.length := by
      have := (reachable_invariant hs.reachable).1.workers.length_eq
      simpa [hbusy] using this
    have hsome : s.state.idle ≠ [] := by
      refine List.ne_nil_of_length_pos ?_
      rw [hidle, hs.reachable.length_workers]
      omega
    refine ⟨workers, _, hspawn, hs.finish hended hexhausted hpending hsome hidle, rfl, ?_⟩
    simpa [close, hbusy, PoolState.finish] using h
  · refine ⟨workers, _, hspawn, hs.step (.other (.timeout hended) rfl rfl), rfl, ?_⟩
    simpa [close, List.isEmpty_eq_false_iff.2 hbusy, PoolState.finish] using h

theorem start_reachable {threads : Nat} {report : PoolReport} {events : List Event}
    (h : pool.start threads stream = .ok (report, events)) :
    ∃ workers s, workers.length = max threads 1 ∧ Reachable pool workers stream s ∧
      s.ended = true ∧ s.state.report = report ∧ s.state.events = events := by
  obtain ⟨workers, s, hspawn, hs, hended⟩ := start_ran h
  exact ⟨workers, s, length_spawnAll hspawn, hs.reachable, hended⟩

end Pool

end BulkEdit
