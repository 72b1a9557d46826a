import BulkEdit.Proofs.Command.Growth
import BulkEdit.Proofs.Worker.Schedule

/-!
# The commands of a pool

Every command that a pool tells of is one that a worker asked for on some file of the stream, which was
read from the tree, after formatting (`start_commands`). Such commands fit the tree (`start_fits`).
-/

namespace BulkEdit

namespace Event

@[simp] theorem command?_command (c : FileCommand) : (command c).command? = some c := rfl
@[simp] theorem command?_message (m : Message) : (message m).command? = none := rfl
@[simp] theorem command?_error (e : ExecutionError) : (error e).command? = none := rfl
@[simp] theorem command?_success (s : Success) : (success s).command? = none := rfl
@[simp] theorem command?_console (kind : ConsoleKind) (text : String) :
    (console kind text).command? = none := rfl

end Event

theorem FileRun.cases_of_commands? {run : FileRun} {file : SourceFile} {e : Execution}
    {commands : List FileCommand} {c : FileCommand}
    (h : run.commands? file e = some (.ok commands)) (hc : c ∈ commands) :
    (∃ p data, c = .create p data run.format) ∨
      ∃ data, c = .update file.path file.source data run.format := by
  unfold commands? at h
  split at h
  · cases h
  · cases h
  · split at h
    · cases h
    · obtain rfl := Except.ok.inj (Option.some.inj h)
      rcases List.mem_append.1 hc with hc | hc
      · obtain ⟨⟨created, data⟩, -, rfl⟩ := List.mem_map.1 hc
        exact Or.inl ⟨_, _, rfl⟩
      · unfold updates at hc
        split at hc
        · split at hc
          · exact Or.inr ⟨_, List.mem_singleton.1 hc⟩
          · cases hc
        · cases hc
        · cases hc

namespace Pool

variable {pool : Pool} {P : FileCommand → Prop} {st : PoolState} {path : Path} {result : FileResult}

/-- All commands that were told of, and all that are still to be told of, have a property. -/
structure Sound (P : FileCommand → Prop) (st : PoolState) : Prop where
  told : ∀ c ∈ st.events.filterMap Event.command?, P c
  pending : ∀ job ∈ st.busy, ∀ commands, job.result = some (.ok commands) → ∀ c ∈ commands, P c

theorem Sound.complete (h : Sound P st) (hresult : ∀ commands, result = .ok commands →
    ∀ c ∈ commands, P c) : Sound P (pool.complete st path result) := by
  refine ⟨fun c hc => ?_, h.pending⟩
  unfold Pool.complete at hc
  simp only [List.filterMap_append, List.mem_append] at hc
  rcases hc with (hc | hc) | hc
  · exact h.told c hc
  · cases result with
    | ok commands =>
      refine hresult commands rfl c ?_
      simpa [resultEvents, List.filterMap_map, Function.comp_def] using hc
    | error e => simp [resultEvents, Event.failure] at hc
  · simp [progress] at hc

theorem Sound.say (h : Sound P st) (lines : List (ConsoleKind × String)) : Sound P (st.say lines) := by
  refine ⟨fun c hc => h.told c ?_, h.pending⟩
  simpa [PoolState.say, List.filterMap_map, Function.comp_def] using hc

/-- The commands for every file of the tree have the property. -/
def Yields (pool : Pool) (paths : List Path) (P : FileCommand → Prop) : Prop :=
  ∀ file e commands, pool.tree.read file.path = .ok file.source → file.path ∈ paths →
    pool.run.commands? file e = some (.ok commands) →
      ∀ c ∈ pool.formatters.formatCommands commands, P c

theorem Sound.assign {paths : List Path} (hyields : pool.Yields paths P) (h : Sound P st)
    (file : SourceFile) (hread : pool.tree.read file.path = .ok file.source)
    (hpath : file.path ∈ paths) : Sound P (pool.assign st file) := by
  unfold Pool.assign
  split
  · exact h
  · split
    · exact h
    · rename_i worker _
      simp only [execute]
      generalize worker.execute (pool.module.assignment file pool.run.arguments) = executed
      obtain ⟨e, worker'⟩ := executed
      refine ⟨(h.say e.console).told, fun job hjob commands hresult => ?_⟩
      rcases List.mem_append.1 hjob with hjob | hjob
      · exact h.pending job hjob commands hresult
      · obtain rfl := List.mem_singleton.1 hjob
        obtain ⟨given, hgiven, hmap⟩ := Option.map_eq_some_iff.1 hresult
        cases given with
        | error _ => cases hmap
        | ok raw =>
          obtain rfl := Except.ok.inj hmap
          exact hyields file e raw hread hpath hgiven

theorem Sound.take {paths : List Path} (hyields : pool.Yields paths P) (h : Sound P st)
    (hpath : path ∈ paths) : Sound P (pool.take st path) := by
  have hcount : Sound P st.count := ⟨h.told, h.pending⟩
  unfold Pool.take
  split
  · rename_i source hread
    exact hcount.assign hyields ⟨path, source⟩ hread hpath
  · exact hcount.complete nofun

theorem Sound.await? (h : Sound P st) {st' : PoolState} (hawait : pool.await? st = some st') :
    Sound P st' := by
  obtain ⟨⟨job, result, busy⟩, hfirst, rfl⟩ := Option.map_eq_some_iff.1 hawait
  obtain ⟨hresult, before, after, hbusy, rfl⟩ := firstEnding_eq_some hfirst
  have hfreed : Sound P { st with busy := before ++ after, idle := job.worker :: st.idle } := by
    refine ⟨h.told, fun j hj => h.pending j ?_⟩
    rw [hbusy]
    exact List.mem_append.2 ((List.mem_append.1 hj).imp id (List.mem_cons_of_mem _))
  refine hfreed.complete fun commands he => h.pending job (by simp [hbusy]) commands ?_
  rw [hresult, he]

theorem Sound.drain (h : Sound P st) (count : Nat) : Sound P (pool.drain st count) := by
  induction count generalizing st with
  | zero => exact h
  | succ count ih =>
    rw [Pool.drain]
    split
    · rename_i hawait
      exact ih (h.await? hawait)
    · exact h

theorem Sound.feed {paths : List Path} (hyields : pool.Yields paths P) (h : Sound P st)
    {pending : List Path} (hpending : ∀ p ∈ pending, p ∈ paths) : Sound P (pool.feed st pending) := by
  induction pending generalizing st with
  | nil => exact h.drain _
  | cons path rest ih =>
    rw [Pool.feed]
    split
    · rename_i st' hready
      have hst' : Sound P st' := by
        unfold ready? at hready
        split at hready
        · exact h.await? hready
        · exact Option.some.inj hready ▸ h
      exact ih (hst'.take hyields (hpending path (List.mem_cons_self ..)))
        fun p hp => hpending p (List.mem_cons_of_mem _ hp)
    · exact h

/-- **Every command of a pool** is one that some file of the stream yields. -/
theorem start_commands {threads : Nat} {paths : List Path} {report : PoolReport}
    {events : List Event} (hyields : pool.Yields paths P)
    (h : pool.start threads paths = .ok (report, events)) :
    ∀ c ∈ events.filterMap Event.command?, P c := by
  unfold start at h
  split at h
  · cases h
  · rename_i workers _
    have hstart : Sound P (.ofWorkers workers) :=
      ⟨by simp [PoolState.ofWorkers], by simp [PoolState.ofWorkers]⟩
    have hend := hstart.feed hyields fun p hp => hp
    obtain ⟨-, rfl⟩ := Prod.mk.inj (Except.ok.inj h)
    simpa using hend.told

/-- A command that some file of the stream, as it is in the tree, may ask for. -/
def Asked (pool : Pool) (paths : List Path) (c : FileCommand) : Prop :=
  (∃ p data, c = .create p data pool.run.format) ∨
    ∃ (file : SourceFile) (data : String), pool.tree.read file.path = .ok file.source ∧
      file.path ∈ paths ∧ c = .update file.path file.source data pool.run.format

/-- **The commands of a pool fit its tree**: it is the files of the stream that are updated. -/
theorem start_fits {threads : Nat} {paths : List Path} {report : PoolReport} {events : List Event}
    (hstable : pool.run.format = true → pool.formatters.Stable)
    (hnames : ∀ p ∈ paths, p.normalize.fileName? = p.fileName?)
    (h : pool.start threads paths = .ok (report, events)) :
    FileCommand.Fits pool.formatters pool.run.format pool.tree (events.filterMap Event.command?) := by
  have hyields : pool.Yields paths fun c' =>
      ∃ c, pool.Asked paths c ∧ pool.formatters.formatCommand? c = some c' := by
    intro file e commands hread hpath hcommands c' hc'
    obtain ⟨c, hc, hformat⟩ := List.mem_filterMap.1 hc'
    refine ⟨c, ?_, hformat⟩
    rcases FileRun.cases_of_commands? hcommands hc with hcreate | ⟨data, hupdate⟩
    · exact Or.inl hcreate
    · exact Or.inr ⟨file, data, hread, hpath, hupdate⟩
  refine FileCommand.fits_of_formatted hstable (pool.Asked paths) ?_ ?_ ?_
    (start_commands hyields h)
  · rintro c (⟨p, data, rfl⟩ | ⟨file, data, -, hpath, rfl⟩)
    · rfl
    · exact ⟨rfl, hnames _ hpath⟩
  · rintro p old data f (⟨_, _, ⟨⟩⟩ | ⟨file, _, hread, -, ⟨⟩⟩)
    exact FileTree.mem_files_of_read hread
  · rintro p old data f q - (⟨_, _, ⟨⟩⟩ | ⟨_, _, -, -, ⟨⟩⟩)

end Pool

end BulkEdit
