import BulkEdit.Proofs.Command.Commutation
import BulkEdit.Proofs.Run.Application
import BulkEdit.Proofs.Worker.Commands

/-!
# Runs that do not depend on the schedule

A transform that is part of the program makes the same of a file whenever it is given it. So the commands
of a pool are those of its files, one file after another in the order in which they were completed
(`Faithful`); two runs over the same paths differ in this order only. Where the commands of different files
stand apart, the order does not matter to the tree (`runs_agree`).
-/

namespace BulkEdit.Pool

variable {pool : Pool} {transform : Transform} {workers : List Worker} {stream : List Path}
  {s s' : Stage} {st : PoolState} {path : Path}

/-! ### What becomes of a file -/

/-- What becomes of a path of the stream; nothing if the transform hangs. -/
def outcome? (pool : Pool) (transform : Transform) (path : Path) : Option FileResult :=
  match pool.tree.read path with
  | .ok source => (pool.execute (.builtin transform) ⟨path, source⟩).2.1
  | .error e => some (.error (.execution e.message))

def granted : FileResult → List FileCommand
  | .ok commands => commands
  | .error _ => []

def batch (pool : Pool) (transform : Transform) (path : Path) : List FileCommand :=
  ((pool.outcome? transform path).map granted).getD []

def Stage.commands (s : Stage) : List FileCommand :=
  s.state.events.filterMap Event.command?

theorem batch_eq {result : FileResult} (h : pool.outcome? transform path = some result) :
    pool.batch transform path = granted result := by
  rw [batch, h]
  rfl

theorem commands_complete (result : FileResult) :
    (pool.complete st path result).events.filterMap Event.command? =
      st.events.filterMap Event.command? ++ granted result := by
  cases result with
  | ok commands =>
    simp [complete, progress, resultEvents, granted, List.filterMap_map, Function.comp_def]
  | error e => simp [complete, progress, resultEvents, granted, Event.failure]

/-! ### Runs of a transform -/

/-- **What is told is what the transform makes of the completed files**, and what is still to be told is
what it makes of the others. -/
structure Faithful (pool : Pool) (transform : Transform) (s : Stage) : Prop where
  workers : ∀ worker ∈ s.state.workers, worker = .builtin transform
  busy : ∀ job ∈ s.state.busy, job.result = pool.outcome? transform job.path
  told : s.commands = s.completed.flatMap (pool.batch transform)

theorem spawnAll_builtin {m : Module} (h : m.code = .builtin transform) (count : Nat) :
    m.spawnAll count = .ok (List.replicate count (.builtin transform)) := by
  induction count with
  | zero => rfl
  | succ count ih =>
    rw [Module.spawnAll, ih, Module.spawn, h]
    rfl

theorem faithful_start (hworkers : ∀ worker ∈ workers, worker = .builtin transform) :
    Faithful pool transform { pending := stream, state := .ofWorkers workers } :=
  ⟨hworkers, by simp [PoolState.ofWorkers], rfl⟩

/-- A file that is completed adds its commands. -/
theorem Faithful.told_complete (h : Faithful pool transform s) {result : FileResult}
    (houtcome : pool.outcome? transform path = some result) (hevents : st.events = s.state.events) :
    (pool.complete st path result).events.filterMap Event.command? =
      (s.completed ++ [path]).flatMap (pool.batch transform) := by
  rw [commands_complete, hevents, List.flatMap_append, ← h.told, List.flatMap_singleton,
    batch_eq houtcome]
  rfl

/-- **One step** of the workers keeps to the transform. -/
theorem Faithful.works (h : Faithful pool transform s) (hs : Works pool s s') :
    Faithful pool transform s' := by
  cases hs with
  | @give path rest source number worker _ _ _ hread _ hworker =>
    obtain rfl := h.workers worker (List.mem_of_getElem? hworker)
    refine ⟨fun w hw => ?_, fun job hjob => ?_, h.told⟩
    · rcases List.mem_or_eq_of_mem_set hw with hw | rfl
      · exact h.workers w hw
      · rfl
    · rcases List.mem_append.1 hjob with hjob | hjob
      · exact h.busy job hjob
      · obtain rfl := List.mem_singleton.1 hjob
        simp only [outcome?, hread]
  | @fail path rest e _ _ _ hread _ =>
    have houtcome : pool.outcome? transform path = some (.error (.execution e.message)) := by
      simp only [outcome?, hread]
    exact ⟨h.workers, h.busy, h.told_complete houtcome rfl⟩
  | @done before after job result _ hbusy hresult =>
    have hjob : ∀ j ∈ before ++ after, j ∈ s.state.busy := by
      rw [hbusy]
      grind
    have houtcome : pool.outcome? transform job.path = some result := by
      rw [← h.busy job (by simp [hbusy]), hresult]
    exact ⟨h.workers, fun j hj => h.busy j (hjob j hj), h.told_complete houtcome rfl⟩
  | other hs htaken hcompleted =>
    cases hs with
    | give => simp at htaken
    | fail => simp at htaken
    | exhaust => exact ⟨h.workers, h.busy, h.told⟩
    | say job lines =>
      refine ⟨h.workers, h.busy, ?_⟩
      rw [← h.told]
      simp [Stage.commands, PoolState.say, List.filterMap_map, Function.comp_def]
    | done => simp at hcompleted
    | finish =>
      refine ⟨h.workers, h.busy, ?_⟩
      rw [← h.told]
      simp [Stage.commands, PoolState.finish]
    | timeout =>
      refine ⟨h.workers, h.busy, ?_⟩
      rw [← h.told]
      simp [Stage.commands, PoolState.finish]

/-- **A whole run** keeps to the transform. -/
theorem Ran.faithful (h : Ran pool workers stream s)
    (hworkers : ∀ worker ∈ workers, worker = .builtin transform) : Faithful pool transform s := by
  induction h with
  | start => exact faithful_start hworkers
  | step _ hs ih => exact ih.works hs

/-- **The commands of a run** that has ended in time are those of its files, one file after another. -/
theorem Ran.exists_order (h : Ran pool workers stream s)
    (hworkers : ∀ worker ∈ workers, worker = .builtin transform) (hended : s.ended = true)
    (htime : s.state.report.timedOut = false) :
    ∃ order : List Path, order.Perm stream ∧ s.commands = order.flatMap (pool.batch transform) := by
  obtain ⟨hconserved, horderly⟩ := reachable_invariant h.reachable
  obtain ⟨hpending, hbusy⟩ := horderly.through hended htime
  have hcompleted := hconserved.accounted
  have htaken := hconserved.stream_eq
  rw [hbusy, List.map_nil, List.append_nil] at hcompleted
  rw [hpending, List.append_nil] at htaken
  exact ⟨s.completed, htaken ▸ hcompleted, (h.faithful hworkers).told⟩

theorem writes_of_mem_batch (hhoused : pool.tree.Housed) {c : FileCommand}
    (hc : c ∈ pool.batch transform path) : c.Writes pool.tree := by
  unfold batch outcome? at hc
  cases hread : pool.tree.read path with
  | error e => simp [hread, granted] at hc
  | ok source =>
    simp only [hread, execute, Option.map_map] at hc
    generalize Worker.execute _ _ = executed at hc
    cases hcommands : pool.run.commands? ⟨path, source⟩ executed.1 with
    | none => simp [hcommands] at hc
    | some result =>
      cases result with
      | error e => simp [hcommands, granted, Except.map] at hc
      | ok commands =>
        simp only [hcommands, Option.map_some, Function.comp_apply, Except.map, granted,
          Option.getD_some] at hc
        obtain ⟨raw, hraw, hformat⟩ := List.mem_filterMap.1 hc
        rcases FileRun.cases_of_commands? hcommands hraw with ⟨p, data, rfl⟩ | ⟨data, rfl⟩
        · obtain rfl := Option.some.inj hformat
          exact trivial
        · simp only [FormatterRegistry.formatCommand?] at hformat
          split at hformat
          · cases hformat
          · obtain rfl := Option.some.inj hformat
            exact hhoused path.route (FileTree.mem_files_of_read hread)

/-- **The result of a run does not depend on the schedule.** Two runs of a transform over the same paths,
with any numbers of workers and in any order, that end in time give the same commands, up to the order of
the files. If the commands of different files stand apart, both lists can be applied or neither, and they
leave the same tree. -/
theorem runs_agree (pool : Pool) (transform : Transform) (hcode : pool.module.code = .builtin transform)
    (hbuilt : pool.tree.Built) (stream stream' : List Path) (hstream : stream.Perm stream')
    (count count' : Nat) (workers workers' : List Worker)
    (hspawn : pool.module.spawnAll count = .ok workers)
    (hspawn' : pool.module.spawnAll count' = .ok workers') (s s' : Stage)
    (hran : Ran pool workers stream s) (hran' : Ran pool workers' stream' s')
    (hended : s.ended = true ∧ s.state.report.timedOut = false)
    (hended' : s'.ended = true ∧ s'.state.report.timedOut = false) :
    (∃ order order' : List Path, order.Perm stream ∧ order'.Perm stream' ∧
      s.commands = order.flatMap (pool.batch transform) ∧
      s'.commands = order'.flatMap (pool.batch transform)) ∧
    s.commands.Perm s'.commands ∧
    ((∀ p ∈ stream, ∀ q ∈ stream, p ≠ q → ∀ c ∈ pool.batch transform p, ∀ d ∈ pool.batch transform q,
        Route.Apart c.place d.place) →
      ∀ (digest : String) (w w' : World) (previews : List Preview), w.tree = pool.tree →
        (Run.applyAll (.wet digest) s.commands w = .ok previews w' ↔
          Run.applyAll (.wet digest) s'.commands w = .ok previews w')) := by
  have hbuiltin : ∀ {count : Nat} {workers : List Worker}, pool.module.spawnAll count = .ok workers →
      ∀ worker ∈ workers, worker = .builtin transform := by
    intro count workers hspawn worker hworker
    rw [spawnAll_builtin hcode] at hspawn
    obtain rfl := Except.ok.inj hspawn
    exact List.eq_of_mem_replicate hworker
  obtain ⟨order, horder, hcommands⟩ := hran.exists_order (hbuiltin hspawn) hended.1 hended.2
  obtain ⟨order', horder', hcommands'⟩ := hran'.exists_order (hbuiltin hspawn') hended'.1 hended'.2
  have hperm : order.Perm order' := (horder.trans hstream).trans horder'.symm
  refine ⟨⟨order, order', horder, horder', hcommands, hcommands'⟩, ?_, ?_⟩
  · rw [hcommands, hcommands']
    exact hperm.flatMap_right _
  · intro hapart digest w w' previews htree
    have hready : FileCommand.Ready pool.tree (order.flatMap (pool.batch transform)) := by
      refine ⟨hbuilt.closed, fun c hc => ?_⟩
      obtain ⟨path, -, hc⟩ := List.mem_flatMap.1 hc
      exact writes_of_mem_batch hbuilt.housed hc
    have hsame : ∀ t', FileCommand.carryOut pool.tree s.commands = .ok t' ↔
        FileCommand.carryOut pool.tree s'.commands = .ok t' := by
      intro t'
      rw [hcommands, hcommands']
      exact FileCommand.carryOut_perm hperm hready fun p hp q hq =>
        hapart p (horder.mem_iff.1 hp) q (horder.mem_iff.1 hq)
    rw [Run.applyAll_wet_eq_ok, Run.applyAll_wet_eq_ok, htree]
    simp only [hsame]

/-- A transform that adds to every file, and creates a file beside one of them. -/
def pairTransform : Transform := fun a =>
  { created := if a.source = "1" then [(⟨"new/c.ts"⟩, "3")] else []
    ending := .returned (some (.str (a.source ++ "y"))) }

/-- A pool that runs the transform on two files. -/
def pairPool : Pool where
  module := ⟨.tsMorph, "m", .builtin pairTransform⟩
  tree := .ofFiles [(⟨"/p/a.ts"⟩, "1"), (⟨"/p/b.ts"⟩, "2")]
  run := ⟨.tsMorph, [], true, .parenthesis⟩
  formatters := {}
  codemodName := none
  target := ⟨"/p"⟩

/-- Two workers share two files, and the later one is done first; or one worker takes both. -/
theorem runs_agree_reversed :
    ∃ s s', Ran pairPool [.builtin pairTransform, .builtin pairTransform] [⟨"/p/a.ts"⟩, ⟨"/p/b.ts"⟩] s ∧
      Ran pairPool [.builtin pairTransform] [⟨"/p/a.ts"⟩, ⟨"/p/b.ts"⟩] s' ∧
      (s.ended = true ∧ s.state.report.timedOut = false) ∧
      (s'.ended = true ∧ s'.state.report.timedOut = false) ∧
      s.commands = [.update ⟨"/p/b.ts"⟩ "2" "2y" true, .create ⟨"/p/new/c.ts"⟩ "3" true,
        .update ⟨"/p/a.ts"⟩ "1" "1y" true] ∧
      s'.commands = [.create ⟨"/p/new/c.ts"⟩ "3" true, .update ⟨"/p/a.ts"⟩ "1" "1y" true,
        .update ⟨"/p/b.ts"⟩ "2" "2y" true] ∧
      ∀ (digest : String) (w w' : World) (previews : List Preview), w.tree = pairPool.tree →
        (Run.applyAll (.wet digest) s.commands w = .ok previews w' ↔
          Run.applyAll (.wet digest) s'.commands w = .ok previews w') := by
  let job (worker : Nat) (file : SourceFile) : Job :=
    ⟨worker, file.path, (pairPool.execute (.builtin pairTransform) file).2.1⟩
  have hresult : (pairPool.execute (.builtin pairTransform) ⟨⟨"/p/a.ts"⟩, "1"⟩).2.1 =
      some (.ok [.create ⟨"/p/new/c.ts"⟩ "3" true, .update ⟨"/p/a.ts"⟩ "1" "1y" true]) := by
    decide +kernel
  have hresult' : (pairPool.execute (.builtin pairTransform) ⟨⟨"/p/b.ts"⟩, "2"⟩).2.1 =
      some (.ok [.update ⟨"/p/b.ts"⟩ "2" "2y" true]) := by
    decide +kernel
  have hread : pairPool.tree.read ⟨"/p/a.ts"⟩ = .ok "1" := by decide +kernel
  have hread' : pairPool.tree.read ⟨"/p/b.ts"⟩ = .ok "2" := by decide +kernel
  have hstart := Ran.start pairPool [.builtin pairTransform, .builtin pairTransform]
    [⟨"/p/a.ts"⟩, ⟨"/p/b.ts"⟩]
  have hgiven := hstart.step (@Works.give _ _ _ _ _ 0 _ rfl rfl rfl hread (by decide) rfl)
  have hshared := hgiven.step (@Works.give _ _ _ _ _ 1 _ rfl rfl rfl hread' (by decide) rfl)
  have hfirst := hshared.step (@Works.done _ _ [job 0 ⟨⟨"/p/a.ts"⟩, "1"⟩] []
    (job 1 ⟨⟨"/p/b.ts"⟩, "2"⟩) _ rfl rfl hresult')
  have hsecond := hfirst.step (@Works.done _ _ [] [] (job 0 ⟨⟨"/p/a.ts"⟩, "1"⟩) _ rfl rfl hresult)
  have hend := hsecond.finish rfl rfl rfl (by decide) rfl
  have hstart' := Ran.start pairPool [.builtin pairTransform] [⟨"/p/a.ts"⟩, ⟨"/p/b.ts"⟩]
  have hgiven' := hstart'.step (@Works.give _ _ _ _ _ 0 _ rfl rfl rfl hread (by decide) rfl)
  have hfirst' := hgiven'.step (@Works.done _ _ [] [] (job 0 ⟨⟨"/p/a.ts"⟩, "1"⟩) _ rfl rfl hresult)
  have hagain' := hfirst'.step (@Works.give _ _ _ _ _ 0 _ rfl rfl rfl hread' (by decide) rfl)
  have hsecond' := hagain'.step (@Works.done _ _ [] [] (job 0 ⟨⟨"/p/b.ts"⟩, "2"⟩) _ rfl rfl hresult')
  have hend' := hsecond'.finish rfl rfl rfl (by decide) rfl
  obtain ⟨-, -, hagree⟩ := runs_agree pairPool pairTransform rfl (.ofFiles _) _ _ (.refl _) 2 1 _ _
    rfl rfl _ _ hend hend' ⟨rfl, rfl⟩ ⟨rfl, rfl⟩
  exact ⟨_, _, hend, hend', ⟨rfl, rfl⟩, ⟨rfl, rfl⟩, rfl, rfl, hagree (by decide +kernel)⟩

end BulkEdit.Pool
