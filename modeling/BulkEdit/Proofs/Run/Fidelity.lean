import BulkEdit.Proofs.Run.Difference
import BulkEdit.Proofs.Run.Step

/-!
# Dry runs of recipes

A dry run of a recipe takes the same steps as a run for real, on a copy of the files (`Agree`), and the
commands it gives in the end do to the tree what the run for real does (`recipe_fidelity`). Only where
the target is not there do the two differ: there a run for real may find nothing to do, and the dry run
fails.
-/

namespace BulkEdit.Run

variable {w w' v v' : World} {tools : Toolset} {codemod : Codemod} {flow : Flow}
  {arguments : ArgumentRecord} {recipeName : Option String} {steps : List Codemod}
  {commands : List FileCommand}

/-! ### Steps side by side -/

/-- Two worlds that differ in what was told only. -/
def Agree (w v : World) : Prop :=
  ({ w with events := [] } : World) = { v with events := [] }

theorem Agree.tree_eq (h : Agree w v) : w.tree = v.tree :=
  (World.mk.inj h).1

theorem Agree.tell (h : Agree w v) (events : List Event) : Agree { w with events } v := h

theorem Agree.hear (h : Agree w v) (events : List Event) : Agree w { v with events } := h

/-- A step gives the same commands in worlds that agree, however it is relayed. -/
theorem Agree.step (h : Agree w v) {relay : Relay} (relay' : Relay)
    (hstep : step tools flow arguments relay codemod w = .ok commands w') :
    ∃ v', Run.step tools flow arguments relay' codemod v = .ok commands v' ∧ Agree w' v' := by
  obtain ⟨w₁, t, hsingle, hcommands, ht, rfl⟩ := step_eq_ok.1 hstep
  rw [show ({ w with events := [] } : World) = { v with events := [] } from h] at hsingle
  exact ⟨_, step_eq_ok.2 ⟨w₁, t, hsingle, hcommands, ht, rfl⟩, rfl⟩

theorem wetSteps_cons_eq_ok {rest : List Codemod} :
    wetSteps tools flow arguments recipeName (codemod :: rest) w = .ok commands w' ↔
      ∃ first w₁ more, step tools flow arguments .forward codemod w = .ok first w₁ ∧
        wetSteps tools flow arguments recipeName rest
          { w₁ with events := w₁.events ++ [.success ⟨codemod.name, recipeName, first⟩] } =
          .ok more w' ∧ commands = first ++ more := by
  rw [wetSteps]
  simp only [bind_eq_ok, emit_eq_ok, pure_eq_ok]
  constructor
  · rintro ⟨first, w₁, hfirst, _, _, rfl, more, _, hmore, rfl, rfl⟩
    exact ⟨first, w₁, more, hfirst, hmore, rfl⟩
  · rintro ⟨first, w₁, more, hfirst, hmore, rfl⟩
    exact ⟨first, w₁, hfirst, (), _, rfl, more, _, hmore, rfl, rfl⟩

theorem drySteps_cons_eq_ok {rest : List Codemod} {count total index : Nat} {removed : List Path} :
    drySteps tools flow arguments count total index (codemod :: rest) w = .ok removed w' ↔
      ∃ first w₁ more, step tools flow arguments (.simulate index count total) codemod w =
          .ok first w₁ ∧
        drySteps tools flow arguments count total (index + 1) rest w₁ = .ok more w' ∧
        removed = first.filterMap removed? ++ more := by
  rw [drySteps]
  simp only [bind_eq_ok, pure_eq_ok]
  constructor
  · rintro ⟨first, w₁, hfirst, more, _, hmore, rfl, rfl⟩
    exact ⟨first, w₁, more, hfirst, hmore, rfl⟩
  · rintro ⟨first, w₁, more, hfirst, hmore, rfl⟩
    exact ⟨first, w₁, hfirst, more, _, hmore, rfl, rfl⟩

theorem drySteps_of_wetSteps (h : Agree w v) {count total index : Nat}
    (hwet : wetSteps tools flow arguments recipeName steps w = .ok commands w') :
    ∃ removed v', drySteps tools flow arguments count total index steps v = .ok removed v' ∧
      Agree w' v' := by
  induction steps generalizing w v index commands with
  | nil =>
    obtain ⟨-, rfl⟩ := pure_eq_ok.1 hwet
    exact ⟨[], v, rfl, h⟩
  | cons codemod rest ih =>
    obtain ⟨first, w₁, more, hfirst, hmore, rfl⟩ := wetSteps_cons_eq_ok.1 hwet
    obtain ⟨v₁, hdry, hagree⟩ := h.step (.simulate index count total) hfirst
    obtain ⟨removed, v', hrest, hend⟩ := ih (hagree.tell _) hmore
    exact ⟨_, v', drySteps_cons_eq_ok.2 ⟨first, v₁, removed, hdry, hrest, rfl⟩, hend⟩

theorem wetSteps_of_drySteps (recipeName : Option String) (h : Agree v w)
    {count total index : Nat} {removed : List Path}
    (hdry : drySteps tools flow arguments count total index steps v = .ok removed v') :
    ∃ commands w', wetSteps tools flow arguments recipeName steps w = .ok commands w' := by
  induction steps generalizing w v index removed with
  | nil => exact ⟨[], w, rfl⟩
  | cons codemod rest ih =>
    obtain ⟨first, v₁, more, hfirst, hmore, rfl⟩ := drySteps_cons_eq_ok.1 hdry
    obtain ⟨w₁, hwet, hagree⟩ := h.step .forward hfirst
    obtain ⟨commands, w', hrest⟩ := ih (hagree.hear _) hmore
    exact ⟨_, w', wetSteps_cons_eq_ok.2 ⟨first, w₁, commands, hwet, hrest, rfl⟩⟩

theorem commands_drySteps {count total index : Nat} {removed : List Path}
    (h : drySteps tools flow arguments count total index steps w = .ok removed w') :
    w'.events.filterMap Event.command? = w.events.filterMap Event.command? := by
  induction steps generalizing w index removed with
  | nil =>
    obtain ⟨-, rfl⟩ := pure_eq_ok.1 h
    rfl
  | cons codemod rest ih =>
    obtain ⟨first, w₁, more, hfirst, hmore, rfl⟩ := drySteps_cons_eq_ok.1 h
    obtain ⟨w₂, t, -, -, -, rfl⟩ := step_eq_ok.1 hfirst
    rw [ih hmore]
    simp [commands_relay]

theorem wetSteps_grown (hstable : flow.format = true → tools.formatters.Stable) {t₀ : FileTree}
    (hgrown : Grown (FileCommand.restsAt tools.formatters flow.format) t₀ w.tree)
    (h : wetSteps tools flow arguments recipeName steps w = .ok commands w') :
    Grown (FileCommand.restsAt tools.formatters flow.format) t₀ w'.tree := by
  induction steps generalizing w commands with
  | nil =>
    obtain ⟨-, rfl⟩ := pure_eq_ok.1 h
    exact hgrown
  | cons codemod rest ih =>
    obtain ⟨first, w₁, more, hfirst, hmore, rfl⟩ := wetSteps_cons_eq_ok.1 h
    have hnext := step_grown hstable hgrown hfirst
    refine ih ?_ hmore
    exact hnext

/-! ### The selected files -/

/-- The patterns of a codemod can be read, and all files of the tree lie below the target and match
them. -/
def covers (t : FileTree) (flow : Flow) (codemod : Codemod) : Bool :=
  match PatternSet.build t flow codemod none none with
  | .error _ => false
  | .ok patterns =>
    match Matcher.ofPatterns flow.target patterns with
    | .error _ => false
    | .ok matcher =>
      t.files.keys.all fun r => r.isBelow flow.target.route && matcher.accepts r.toPath

theorem isBelow_of_covers {t : FileTree} (h : covers t flow codemod = true) :
    ∀ r ∈ t.files, r.isBelow flow.target.route = true := by
  unfold covers at h
  split at h
  · cases h
  · split at h
    · cases h
    · intro r hr
      exact (Bool.and_eq_true_iff.1 (List.all_eq_true.1 h r (Std.ExtTreeMap.mem_keys.2 hr))).1

/-- Where a codemod covers a tree, all its files are collected if the target is there. -/
theorem exists_matcher_of_covers {t : FileTree} (h : covers t flow codemod = true) :
    ∃ patterns matcher, PatternSet.build t flow codemod none none = .ok patterns ∧
      Matcher.ofPatterns flow.target patterns = .ok matcher ∧
      matcher.collect t flow.target =
        if t.contains flow.target then .ok (t.files.keys.map Route.toPath)
        else .error (.notFound flow.target.normalize) := by
  have hall := isBelow_of_covers h
  unfold covers at h
  split at h
  · cases h
  · rename_i patterns hpatterns
    split at h
    · cases h
    · rename_i matcher hmatcher
      refine ⟨patterns, matcher, hpatterns, hmatcher, ?_⟩
      have hbelow : t.files.keys.filter (fun r => r.isBelow flow.target.route) = t.files.keys :=
        List.filter_eq_self.2 fun r hr => hall r (Std.ExtTreeMap.mem_of_mem_keys hr)
      have haccepted : (t.files.keys.map Route.toPath).filter matcher.accepts =
          t.files.keys.map Route.toPath := by
        refine List.filter_eq_self.2 fun p hp => ?_
        obtain ⟨r, hr, rfl⟩ := List.mem_map.1 hp
        exact (Bool.and_eq_true_iff.1 (List.all_eq_true.1 h r hr)).2
      unfold Matcher.collect FileTree.walk
      have hthere : (flow.target.route ∈ t.folders ∨ flow.target.route ∈ t.files) ↔
          t.contains flow.target = true := by
        rw [FileTree.contains_iff_holds, FileTree.Holds, or_comm]
      by_cases htarget : t.contains flow.target = true
      · rw [if_pos (hthere.2 htarget), if_pos htarget, hbelow]
        exact congrArg Except.ok haccepted
      · rw [if_neg (mt hthere.1 htarget), if_neg htarget]
        rfl

/-! ### Whole runs -/

variable {recipe : Descriptor} {u : Unit}

theorem wetRecipe_eq_ok : wetRecipe tools recipe flow arguments w = .ok u w' ↔
    ∃ commands w₁, wetSteps tools flow arguments recipe.name recipe.steps w = .ok commands w₁ ∧
      w' = { w₁ with events := w₁.events ++ [.success ⟨recipe.name, recipe.name, commands⟩] } := by
  unfold wetRecipe
  simp only [bind_eq_ok, emit_eq_ok]

theorem onScratch_eq_ok {α : Type} {scratch t : FileTree} {part : Run α} {a : α} :
    onScratch scratch part w = .ok (a, t) w' ↔
      ∃ v, part { w with tree := scratch } = .ok a v ∧ t = v.tree ∧
        w' = { v with tree := w.tree } := by
  unfold onScratch
  cases part { w with tree := scratch } with
  | ok b v =>
    simp only [EStateM.Result.ok.injEq, Prod.mk.injEq]
    constructor
    · rintro ⟨⟨rfl, rfl⟩, rfl⟩
      exact ⟨v, ⟨rfl, rfl⟩, rfl, rfl⟩
    · rintro ⟨_, ⟨rfl, rfl⟩, rfl, rfl⟩
      exact ⟨⟨rfl, rfl⟩, rfl⟩
  | error e v => simp

/-- The contents of all files of a tree. -/
def taken (t : FileTree) : Snapshot :=
  (Snapshot.capture t (∅, .empty) (t.files.keys.map Route.toPath)).1

/-- **A dry run** on a tree that is made of files, all of them selected: it needs the target to be there,
takes the steps as if for real, and gives the difference. -/
theorem dryRecipe_eq_ok (hplaced : w.tree.Placed) (hexact : w.tree.Exact)
    (hfiles : ∃ r, r ∈ w.tree.files) (hcovers : covers w.tree flow recipe.toCodemod = true) :
    dryRecipe tools recipe flow arguments w = .ok u w' ↔
      w.tree.contains flow.target = true ∧ ∃ removed v,
        drySteps tools flow arguments recipe.steps.length (taken w.tree).size 0 recipe.steps w =
          .ok removed v ∧
        w' = { v with
          tree := w.tree
          events := v.events ++ (tools.formatters.formatCommands ((taken w.tree).diff
            (.ofList removed) (.ofTree v.tree) flow.format)).map .command ++ [.message .finish] } := by
  obtain ⟨patterns, matcher, hpatterns, hmatcher, hcollect⟩ := exists_matcher_of_covers hcovers
  have hcopy := (Snapshot.capture_keys hplaced hexact).1
  have hpaths : ∃ path rest, w.tree.files.keys.map Route.toPath = path :: rest := by
    obtain ⟨r, hr⟩ := hfiles
    exact List.exists_cons_of_ne_nil
      (List.ne_nil_of_mem (List.mem_map.2 ⟨r, Std.ExtTreeMap.mem_keys.2 hr, rfl⟩))
  obtain ⟨path, rest, hcons⟩ := hpaths
  unfold dryRecipe
  simp only [bind_eq_ok, selection_eq_ok, tree_eq_ok, require_eq_ok, Prod.exists]
  by_cases htarget : w.tree.contains flow.target = true
  · rw [if_pos htarget, hcons] at hcollect
    constructor
    · rintro ⟨_, _, _, ⟨hp, hm, rfl⟩, _, _, ⟨rfl, rfl⟩, paths, _, ⟨hc, rfl⟩, h⟩
      obtain rfl := Except.ok.inj (hpatterns.symm.trans hp)
      obtain rfl := Except.ok.inj (hmatcher.symm.trans hm)
      obtain rfl := Except.ok.inj (hcollect.symm.trans hc)
      dsimp only at h
      simp only [← hcons, bind_eq_ok, onScratch_eq_ok, emit_eq_ok, Prod.exists, hcopy] at h
      obtain ⟨removed, _, _, ⟨v, hsteps, rfl, rfl⟩, _, _, rfl, rfl⟩ := h
      exact ⟨htarget, removed, v, hsteps, rfl⟩
    · rintro ⟨-, removed, v, hsteps, rfl⟩
      refine ⟨patterns, matcher, w, ⟨hpatterns, hmatcher, rfl⟩, w.tree, w, ⟨rfl, rfl⟩, path :: rest, w,
        ⟨hcollect, rfl⟩, ?_⟩
      dsimp only
      simp only [← hcons, bind_eq_ok, onScratch_eq_ok, emit_eq_ok, Prod.exists, hcopy]
      exact ⟨removed, _, _, ⟨v, hsteps, rfl, rfl⟩, (), _, rfl, rfl⟩
  · rw [if_neg htarget] at hcollect
    constructor
    · rintro ⟨_, _, _, ⟨hp, hm, rfl⟩, _, _, ⟨rfl, rfl⟩, paths, _, ⟨hc, rfl⟩, -⟩
      obtain rfl := Except.ok.inj (hpatterns.symm.trans hp)
      obtain rfl := Except.ok.inj (hmatcher.symm.trans hm)
      rw [hcollect] at hc
      cases hc
    · exact fun h => absurd h.1 htarget

def succeeds {α : Type} (part : Run α) (w : World) : Bool :=
  match part w with
  | .ok _ _ => true
  | .error _ _ => false

theorem succeeds_iff {α : Type} {part : Run α} : succeeds part w = true ↔ ∃ a w', part w = .ok a w' := by
  unfold succeeds
  cases part w with
  | ok a w' => simp
  | error e w' => simp

/-- A dry run succeeds exactly if the target is there and a run for real succeeds. -/
theorem succeeds_dryRecipe (hplaced : w.tree.Placed) (hexact : w.tree.Exact)
    (hfiles : ∃ r, r ∈ w.tree.files) (hcovers : covers w.tree flow recipe.toCodemod = true) :
    succeeds (dryRecipe tools recipe flow arguments) w =
      (w.tree.contains flow.target && succeeds (wetRecipe tools recipe flow arguments) w) := by
  rw [Bool.eq_iff_iff, Bool.and_eq_true, succeeds_iff, succeeds_iff]
  constructor
  · rintro ⟨_, _, hdry⟩
    obtain ⟨htarget, removed, v, hsteps, -⟩ := (dryRecipe_eq_ok hplaced hexact hfiles hcovers).1 hdry
    obtain ⟨commands, w₁, hwet⟩ := wetSteps_of_drySteps recipe.name rfl hsteps
    exact ⟨htarget, (), _, wetRecipe_eq_ok.2 ⟨commands, w₁, hwet, rfl⟩⟩
  · rintro ⟨htarget, _, _, hwet⟩
    obtain ⟨commands, w₁, hsteps, -⟩ := wetRecipe_eq_ok.1 hwet
    obtain ⟨removed, v, hdry, -⟩ := drySteps_of_wetSteps rfl hsteps
    exact ⟨(), _, (dryRecipe_eq_ok hplaced hexact hfiles hcovers).2 ⟨htarget, removed, v, hdry, rfl⟩⟩

/-- The commands of a dry run do to the tree what a run for real does. -/
theorem carryOut_dryRecipe (hplaced : w.tree.Placed) (hexact : w.tree.Exact)
    (hfiles : ∃ r, r ∈ w.tree.files) (hcovers : covers w.tree flow recipe.toCodemod = true)
    (hstable : flow.format = true → tools.formatters.Stable) (hevents : w.events = [])
    (hwet : wetRecipe tools recipe flow arguments w = .ok u w')
    (hdry : dryRecipe tools recipe flow arguments w = .ok u v') :
    ∃ t, FileCommand.carryOut w.tree (v'.events.filterMap Event.command?) = .ok t ∧
      t.files = w'.tree.files := by
  obtain ⟨commands, w₁, hsteps, rfl⟩ := wetRecipe_eq_ok.1 hwet
  obtain ⟨-, removed, v, hsteps', rfl⟩ := (dryRecipe_eq_ok hplaced hexact hfiles hcovers).1 hdry
  -- Both have taken the same steps, so the copy is what the run for real leaves.
  obtain ⟨removed', v₁, hsame, hagree⟩ := drySteps_of_wetSteps rfl hsteps
  rw [hsteps'] at hsame
  obtain ⟨rfl, rfl⟩ := EStateM.Result.ok.inj hsame
  have hgrown := wetSteps_grown hstable (.refl hplaced hexact.closed) hsteps
  have hbefore : (taken w.tree).Shows w.tree := (Snapshot.capture_keys hplaced hexact).2
  have hcurrent : (Snapshot.ofTree v.tree).Shows w₁.tree := by
    rw [← hagree.tree_eq]
    exact Snapshot.shows_ofTree hgrown.placed
  have hcommands : v.events.filterMap Event.command? = [] := by
    rw [commands_drySteps hsteps', hevents]
    rfl
  simp only [List.filterMap_append, hcommands, List.filterMap_map, Function.comp_def,
    Event.command?_command, List.filterMap_some, List.nil_append]
  rw [Snapshot.formatCommands_diff hstable hgrown hbefore hcurrent]
  simpa [List.filterMap_cons] using Snapshot.carryOut_diff hgrown hplaced hexact hbefore hcurrent _

theorem contains_target {t : FileTree} (hexact : t.Exact) (hfiles : ∃ r, r ∈ t.files)
    (hcovers : covers t flow codemod = true) (htarget : flow.target.route ≠ []) :
    t.contains flow.target = true := by
  obtain ⟨r, hr⟩ := hfiles
  rw [FileTree.contains_iff_holds]
  exact hexact.holds_of_isBelow hr (isBelow_of_covers hcovers r hr) htarget

theorem exists_mem_ofFiles {files : List (Path × String)} (hfiles : files ≠ []) :
    ∃ r, r ∈ (FileTree.ofFiles files).files := by
  obtain ⟨before, last, rfl⟩ := (List.eq_nil_or_concat files).resolve_left hfiles
  refine ⟨last.1.route, ?_⟩
  simp [FileTree.ofFiles, FileTree.seed]

/-- **Dry runs are faithful.** A recipe is run on the files of a tree, all of them selected, with
formatters that are stable where they are used. The dry run succeeds exactly if the run for real does and
the target is there, which it is unless it is the empty place; and then its commands can be applied in
their order, and leave the files that the run for real leaves. -/
theorem recipe_fidelity (tools : Toolset) (recipe : Descriptor) (flow : Flow)
    (arguments : ArgumentRecord) (files : List (Path × String)) (digest : String) (outputDir : Path)
    (hrecipe : recipe.engine = .recipe) (hfiles : files ≠ [])
    (hcovers : covers (.ofFiles files) flow recipe.toCodemod = true)
    (hstable : flow.format = true → tools.formatters.Stable) :
    succeeds (Run.codemod tools recipe flow (.dry digest outputDir) arguments)
        { tree := .ofFiles files } =
      ((FileTree.ofFiles files).contains flow.target &&
        succeeds (Run.codemod tools recipe flow (.wet digest) arguments) { tree := .ofFiles files }) ∧
    (flow.target.route ≠ [] → (FileTree.ofFiles files).contains flow.target = true) ∧
    ∀ wet dry,
      Run.codemod tools recipe flow (.wet digest) arguments { tree := .ofFiles files } = .ok () wet →
      Run.codemod tools recipe flow (.dry digest outputDir) arguments { tree := .ofFiles files } =
        .ok () dry →
      ∃ applied, applyAll (.wet digest) (dry.events.filterMap Event.command?)
          { tree := .ofFiles files } = .ok [] applied ∧
        applied.tree.files = wet.tree.files := by
  have hplaced := (FileTree.Built.ofFiles files).placed
  have hexact := FileTree.exact_ofFiles files
  have hsome := exists_mem_ofFiles hfiles
  have hwet : Run.codemod tools recipe flow (.wet digest) arguments =
      wetRecipe tools recipe flow arguments := by simp [Run.codemod, hrecipe, RunMode.isDry]
  have hdry : Run.codemod tools recipe flow (.dry digest outputDir) arguments =
      dryRecipe tools recipe flow arguments := by simp [Run.codemod, hrecipe, RunMode.isDry]
  rw [hwet, hdry]
  refine ⟨succeeds_dryRecipe (w := { tree := .ofFiles files }) hplaced hexact hsome hcovers,
    contains_target hexact hsome hcovers, ?_⟩
  intro wet dry hwet hdry
  obtain ⟨t, ht, hsame⟩ := carryOut_dryRecipe (w := { tree := .ofFiles files }) hplaced hexact hsome
    hcovers hstable rfl hwet hdry
  exact ⟨_, applyAll_wet_eq_ok.2 ⟨rfl, t, ht, rfl⟩, hsame⟩

/-- A transform that adds to every file, a filemod that puts a folder in the place of a file, and a
formatter for what the transform makes of one of them. -/
def sampleTools : Toolset where
  host := .builtin {
    transforms := [((⟨"/add.js"⟩ : Path).route,
      fun a => { ending := .returned (some (.str (a.source ++ "y"))) })]
    filemods := [((⟨"/nest.js"⟩ : Path).route, {
      file := fun _ _ _ => .done (.ok [.deleteFile ⟨"/p/b.ts"⟩, .upsertData ⟨"/p/b.ts/c.ts"⟩ "n"]) })] }
  formatters := ({} : FormatterRegistry).register ["ts"] fun _ data =>
    .ok (if data = "xy" then "z" else data)

/-- A file is replaced by a folder, and the formatter has something to do. -/
theorem recipe_fidelity_nested :
    covers (.ofFiles [(⟨"/p/a.ts"⟩, "x"), (⟨"/p/b.ts"⟩, "u")]) { target := ⟨"/p"⟩ }
        { engine := .recipe } = true ∧
      ∃ wet dry applied,
        Run.codemod sampleTools
          { engine := .recipe, steps := [{ engine := .filemod, entryPath := ⟨"/nest.js"⟩ },
            { engine := .jscodeshift, entryPath := ⟨"/add.js"⟩ }] }
          { target := ⟨"/p"⟩ } (.wet "") []
          { tree := .ofFiles [(⟨"/p/a.ts"⟩, "x"), (⟨"/p/b.ts"⟩, "u")] } = .ok () wet ∧
        Run.codemod sampleTools
          { engine := .recipe, steps := [{ engine := .filemod, entryPath := ⟨"/nest.js"⟩ },
            { engine := .jscodeshift, entryPath := ⟨"/add.js"⟩ }] }
          { target := ⟨"/p"⟩ } (.dry "" ⟨"/out"⟩) []
          { tree := .ofFiles [(⟨"/p/a.ts"⟩, "x"), (⟨"/p/b.ts"⟩, "u")] } = .ok () dry ∧
        applyAll (.wet "") (dry.events.filterMap Event.command?)
          { tree := .ofFiles [(⟨"/p/a.ts"⟩, "x"), (⟨"/p/b.ts"⟩, "u")] } = .ok [] applied ∧
        applied.tree.files = wet.tree.files := by
  have hcovers : covers (.ofFiles [(⟨"/p/a.ts"⟩, "x"), (⟨"/p/b.ts"⟩, "u")]) { target := ⟨"/p"⟩ }
      { engine := .recipe } = true := by decide +kernel
  have hstable : sampleTools.formatters.Stable := by
    refine FormatterRegistry.stable_register (fun data => ?_) "ts"
    by_cases h : data = "xy" <;> simp [h]
  obtain ⟨hsame, -, happly⟩ := recipe_fidelity sampleTools
    { engine := .recipe, steps := [{ engine := .filemod, entryPath := ⟨"/nest.js"⟩ },
      { engine := .jscodeshift, entryPath := ⟨"/add.js"⟩ }] }
    { target := ⟨"/p"⟩ } [] [(⟨"/p/a.ts"⟩, "x"), (⟨"/p/b.ts"⟩, "u")] "" ⟨"/out"⟩ rfl (by simp) hcovers
    fun _ => hstable
  obtain ⟨_, wet, hwet⟩ := succeeds_iff.1 (show succeeds (Run.codemod sampleTools
    { engine := .recipe, steps := [{ engine := .filemod, entryPath := ⟨"/nest.js"⟩ },
      { engine := .jscodeshift, entryPath := ⟨"/add.js"⟩ }] } { target := ⟨"/p"⟩ } (.wet "") [])
    { tree := .ofFiles [(⟨"/p/a.ts"⟩, "x"), (⟨"/p/b.ts"⟩, "u")] } = true by decide +kernel)
  rw [succeeds_iff.2 ⟨_, wet, hwet⟩, Bool.and_true] at hsame
  obtain ⟨_, dry, hdry⟩ := succeeds_iff.1 (hsame.trans (by decide +kernel))
  obtain ⟨applied, hok, hfiles⟩ := happly wet dry hwet hdry
  exact ⟨hcovers, wet, dry, applied, hwet, hdry, hok, hfiles⟩

/-- The empty place may be the target of files that lie below it without being there: for real, nothing
is found to do, and the dry run fails. -/
theorem recipe_infidelity_empty_target :
    covers (.ofFiles [(⟨"a.ts"⟩, "x")]) { target := ⟨"."⟩, format := false } { engine := .recipe } =
        true ∧
      succeeds (Run.codemod sampleTools
          { engine := .recipe, steps := [{ engine := .jscodeshift, entryPath := ⟨"/add.js"⟩ }] }
          { target := ⟨"."⟩, format := false } (.wet "") [])
        { tree := .ofFiles [(⟨"a.ts"⟩, "x")] } = true ∧
      succeeds (Run.codemod sampleTools
          { engine := .recipe, steps := [{ engine := .jscodeshift, entryPath := ⟨"/add.js"⟩ }] }
          { target := ⟨"."⟩, format := false } (.dry "" ⟨"/out"⟩) [])
        { tree := .ofFiles [(⟨"a.ts"⟩, "x")] } = false := by
  decide +kernel

end BulkEdit.Run
