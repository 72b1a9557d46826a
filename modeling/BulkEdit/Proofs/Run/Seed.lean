import BulkEdit.Proofs.Run.Fidelity

/-!
# The scratch tree of a dry run

A codemod works on the paths that it selects in the tree (`perFile_of_chosen`, `wholeTree_of_chosen`). The
dry run of a recipe copies the files that the recipe itself selects into a scratch tree, and its steps
select from the copy (`dryRecipe_eq`). A step then finds those of its files that the recipe has
selected too (`chosen_seed`), as long as it reads the same ignore file. So the scratch tree shows a step the
files that it would find in the tree exactly if the recipe selects all of them, and the patterns of a recipe
need not do so.
-/

namespace BulkEdit.Run

variable {w w' : World} {tools : Toolset} {codemod : Codemod} {flow : Flow}
  {arguments : ArgumentRecord} {t : FileTree} {ruleSource : Option String}
  {included : Option (List String)}

/-! ### The paths that a codemod selects -/

def selecting (flow : Flow) (codemod : Codemod) (ruleSource : Option String)
    (included : Option (List String)) : Run (List Path) := do
  let (_, matcher) ← selection flow codemod ruleSource included
  require .tree (matcher.collect (← tree) flow.target)

/-- The paths that a codemod selects in a tree. -/
def chosen (t : FileTree) (flow : Flow) (codemod : Codemod) (ruleSource : Option String)
    (included : Option (List String)) : Except RunError (List Path) :=
  match selecting flow codemod ruleSource included { tree := t } with
  | .ok paths _ => .ok paths
  | .error e _ => .error e

theorem chosen_eq : chosen t flow codemod ruleSource included =
    match PatternSet.build t flow codemod ruleSource included with
    | .error e => .error (.config e)
    | .ok patterns =>
      match Matcher.ofPatterns flow.target patterns with
      | .error e => .error (.config e)
      | .ok matcher => (matcher.collect t flow.target).mapError .tree := by
  have htree : ∀ w : World, Run.tree w = .ok w.tree w := fun _ => rfl
  unfold chosen selecting selection
  simp only [bind, EStateM.bind, htree, pure, EStateM.pure]
  cases PatternSet.build t flow codemod ruleSource included with
  | error e => rfl
  | ok patterns =>
    simp only [require, pure, EStateM.pure]
    cases Matcher.ofPatterns flow.target patterns with
    | error e => rfl
    | ok matcher =>
      simp only [EStateM.pure]
      cases matcher.collect t flow.target <;> rfl

theorem chosen_eq_ok {paths : List Path} : chosen t flow codemod ruleSource included = .ok paths ↔
    ∃ patterns matcher, PatternSet.build t flow codemod ruleSource included = .ok patterns ∧
      Matcher.ofPatterns flow.target patterns = .ok matcher ∧
      matcher.collect t flow.target = .ok paths := by
  rw [chosen_eq]
  cases PatternSet.build t flow codemod ruleSource included with
  | error e => simp
  | ok patterns =>
    cases hmatcher : Matcher.ofPatterns flow.target patterns with
    | error e => simp [hmatcher]
    | ok matcher =>
      cases hcollect : matcher.collect t flow.target <;> simp [hmatcher, hcollect, Except.mapError]

/-- Where a tree has the same patterns and shows matchers other files, other paths are selected. -/
theorem chosen_map {t' : FileTree} {f : List Path → List Path}
    (hpatterns : PatternSet.build t' flow codemod ruleSource included =
      PatternSet.build t flow codemod ruleSource included)
    (hcollect : ∀ m : Matcher, m.collect t' flow.target = (m.collect t flow.target).map f) :
    chosen t' flow codemod ruleSource included = (chosen t flow codemod ruleSource included).map f := by
  rw [chosen_eq, chosen_eq, hpatterns]
  cases PatternSet.build t flow codemod ruleSource included with
  | error e => rfl
  | ok patterns =>
    dsimp only
    cases Matcher.ofPatterns flow.target patterns with
    | error e => rfl
    | ok matcher =>
      dsimp only
      rw [hcollect]
      cases matcher.collect t flow.target <;> rfl

/-- **A transform works on the paths that its codemod selects.** -/
theorem perFile_of_chosen {source : String} {m : Module} {path : Path} {rest : List Path}
    (hsource : tools.host.loadSource codemod.entryPath = .ok source)
    (hmodule : transform tools codemod source w = .ok m w')
    (h : chosen w'.tree flow codemod (if codemod.engine = .astGrep then some source else none) none =
      .ok (path :: rest)) :
    ∃ patterns, perFile tools codemod flow arguments w = (do
      announce patterns codemod flow
      let (_, events) ← require .sandbox
        ((pool tools codemod flow arguments m w'.tree).start flow.workerCount (path :: rest))
      emit events
      emit [.success ⟨codemod.name, none, events.filterMap Event.command?⟩]) w' := by
  obtain ⟨patterns, matcher, hpatterns, hmatcher, hcollect⟩ := chosen_eq_ok.1 h
  refine ⟨patterns, ?_⟩
  unfold perFile
  rw [bind_of_eq_ok (require_eq_ok.2 ⟨hsource, rfl⟩), bind_of_eq_ok hmodule,
    bind_of_eq_ok (selection_eq_ok.2 ⟨hpatterns, hmatcher, rfl⟩)]
  dsimp only
  rw [bind_of_eq_ok (tree_eq_ok.2 ⟨rfl, rfl⟩), hcollect]

/-- **A filemod works on the paths that its codemod selects.** -/
theorem wholeTree_of_chosen {source : String} {f : Filemod} {path : Path} {rest : List Path}
    (hsource : tools.host.loadSource codemod.entryPath = .ok source)
    (hfilemod : filemod tools codemod w = .ok f w')
    (h : chosen w'.tree flow codemod none f.included = .ok (path :: rest)) :
    ∃ patterns, wholeTree tools codemod flow arguments w = (do
      announce patterns codemod flow
      let outcome := f.outcome w'.tree flow.target (some (path :: rest)) arguments flow.format
      modify fun (w : World) => { w with calls := w.calls ++ outcome.calls }
      emit (Notice.events codemod.name { total := (path :: rest).length } outcome.notices)
      require haltError outcome.result
      let commands := tools.formatters.formatCommands outcome.commands
      emit (commands.map .command)
      emit [.success ⟨codemod.name, none, commands⟩]) w' := by
  obtain ⟨patterns, matcher, hpatterns, hmatcher, hcollect⟩ := chosen_eq_ok.1 h
  refine ⟨patterns, ?_⟩
  unfold wholeTree
  rw [bind_of_eq_ok (require_eq_ok.2 ⟨hsource, rfl⟩), bind_of_eq_ok hfilemod,
    bind_of_eq_ok (selection_eq_ok.2 ⟨hpatterns, hmatcher, rfl⟩)]
  dsimp only
  rw [bind_of_eq_ok (tree_eq_ok.2 ⟨rfl, rfl⟩), bind_of_eq_ok (require_eq_ok.2 ⟨hcollect, rfl⟩)]

/-! ### The scratch tree -/

theorem mem_map_toPath {routes : List Route} (hroutes : ∀ s ∈ routes, s.IsPlace) {r : Route}
    (hr : r.IsPlace) : r.toPath ∈ routes.map Route.toPath ↔ r ∈ routes := by
  refine ⟨fun hmem => ?_, fun hmem => List.mem_map_of_mem hmem⟩
  obtain ⟨s, hs, hsame⟩ := List.mem_map.1 hmem
  have hroute := congrArg Path.route hsame
  rw [(hroutes s hs).route_toPath, hr.route_toPath] at hroute
  exact hroute ▸ hs

/-- A copy of the files at some paths. -/
def seed (t : FileTree) (paths : List Path) : FileTree :=
  (Snapshot.capture t (∅, .empty) paths).2

/-- **A dry run takes the steps of a recipe on a copy** of the files that the recipe selects. -/
theorem dryRecipe_eq (tools : Toolset) (recipe : Descriptor) (flow : Flow) (arguments : ArgumentRecord)
    (w : World) : dryRecipe tools recipe flow arguments w =
    match chosen w.tree flow recipe.toCodemod none none with
    | .error e => .error e w
    | .ok [] => noFiles flow w
    | .ok (path :: rest) => (do
      let (snapshot, scratch) := Snapshot.capture w.tree (∅, .empty) (path :: rest)
      let (removed, scratch) ← onScratch scratch
        (drySteps tools flow arguments recipe.steps.length snapshot.size 0 recipe.steps)
      let commands := snapshot.diff (.ofList removed) (.ofTree scratch) flow.format
      emit ((tools.formatters.formatCommands commands).map .command)
      emit [.message .finish]) w := by
  have htree : ∀ w : World, Run.tree w = .ok w.tree w := fun _ => rfl
  rw [chosen_eq]
  unfold dryRecipe selection
  simp only [bind, EStateM.bind, htree, pure, EStateM.pure]
  cases PatternSet.build w.tree flow recipe.toCodemod none none with
  | error e => rfl
  | ok patterns =>
    simp only [require, pure, EStateM.pure]
    cases Matcher.ofPatterns flow.target patterns with
    | error e => rfl
    | ok matcher =>
      simp only [EStateM.pure]
      cases matcher.collect w.tree flow.target with
      | error e => rfl
      | ok paths => cases paths <;> rfl

section

variable {routes : List Route} (hroutes : ∀ r ∈ routes, r.IsPlace ∧ r ∈ t.files)

include hroutes

theorem exact_seed : (seed t (routes.map Route.toPath)).Exact :=
  (Snapshot.capture_routes routes hroutes (∅, .empty) FileTree.exact_empty).1

theorem getElem?_seed (r : Route) : (seed t (routes.map Route.toPath)).files[r]? =
    if r ∈ routes then t.files[r]? else none := by
  have hfiles := (Snapshot.capture_routes routes hroutes (∅, .empty) FileTree.exact_empty).2.1 r
  rwa [show (∅, FileTree.empty).2.files[r]? = none by simp [FileTree.empty]] at hfiles

theorem files_seed :
    (seed t (routes.map Route.toPath)).files = t.files.filter fun r _ => decide (r ∈ routes) := by
  refine Std.ExtTreeMap.ext_getElem? fun r => ?_
  rw [getElem?_seed hroutes, Std.ExtTreeMap.getElem?_filter']
  by_cases hr : r ∈ routes
  · cases t.files[r]? <;> simp [hr, Option.filter]
  · simp [hr]

/-- What is copied brings along the places above it, the empty place apart. -/
theorem holds_seed {root : Route} (hbelow : ∀ r ∈ routes, r.isBelow root = true) (hne : routes ≠ [])
    (hroot : root ≠ [] ∨ root ∈ routes) : (seed t (routes.map Route.toPath)).Holds root := by
  have hcopied : ∀ r ∈ routes, r ∈ (seed t (routes.map Route.toPath)).files := by
    intro r hr
    rw [Std.ExtTreeMap.mem_iff_isSome_getElem?, getElem?_seed hroutes, if_pos hr,
      ← Std.ExtTreeMap.mem_iff_isSome_getElem?]
    exact (hroutes r hr).2
  rcases hroot with hroot | hroot
  · obtain ⟨r, hr⟩ := List.exists_mem_of_ne_nil routes hne
    exact (exact_seed hroutes).holds_of_isBelow (hcopied r hr) (hbelow r hr) hroot
  · exact Or.inl (hcopied root hroot)

/-- Collected from the copy are those files, of all that are collected, that have been copied. -/
theorem collect_seed {m : Matcher} {root : Path} (hplaced : t.Placed)
    (hthere : t.Holds root.route) (hcopied : (seed t (routes.map Route.toPath)).Holds root.route) :
    m.collect (seed t (routes.map Route.toPath)) root =
      (m.collect t root).map fun paths => paths.filter (· ∈ routes.map Route.toPath) := by
  unfold Matcher.collect FileTree.walk
  rw [if_pos (Or.comm.1 hthere), if_pos (Or.comm.1 hcopied), files_seed hroutes,
    Std.ExtTreeMap.keys_filter_key]
  refine congrArg Except.ok ?_
  simp only [List.filter_map, List.filter_filter]
  refine congrArg (List.map Route.toPath) (List.filter_congr fun r hr => ?_)
  have hplace := hplaced.files r (Std.ExtTreeMap.mem_of_mem_keys hr)
  simp only [Function.comp_apply, mem_map_toPath (fun s hs => (hroutes s hs).1) hplace]
  cases m.accepts r.toPath <;> simp [Bool.and_comm]

/-- A copy has the same patterns if the ignore file of the target is copied, or if there is none. -/
theorem build_seed (hignore : (flow.target.join ⟨".gitignore"⟩).route ∈ routes ∨
      ∀ text, t.read (flow.target.join ⟨".gitignore"⟩) ≠ .ok text) :
    PatternSet.build (seed t (routes.map Route.toPath)) flow codemod ruleSource included =
      PatternSet.build t flow codemod ruleSource included := by
  have hfile : (seed t (routes.map Route.toPath)).files[(flow.target.join ⟨".gitignore"⟩).route]? =
      t.files[(flow.target.join ⟨".gitignore"⟩).route]? := by
    rw [getElem?_seed hroutes]
    split
    · rfl
    · rename_i hleft
      have hnone := hignore.resolve_left hleft
      simp only [ne_eq, FileTree.read_eq_ok] at hnone
      exact (Option.eq_none_iff_forall_ne_some.2 hnone).symm
  -- patterns depend on a tree by nothing else
  have hignored : PatternSet.ignored (seed t (routes.map Route.toPath)) flow.target =
      PatternSet.ignored t flow.target := by
    unfold PatternSet.ignored FileTree.read
    rw [hfile]
  unfold PatternSet.build
  rw [hignored]

end

/-- Collected paths spell files below the root. -/
theorem exists_routes_of_collect {m : Matcher} {root : Path} {paths : List Path} (hplaced : t.Placed)
    (h : m.collect t root = .ok paths) : t.Holds root.route ∧ ∃ routes : List Route,
      paths = routes.map Route.toPath ∧
        ∀ r ∈ routes, (r.IsPlace ∧ r ∈ t.files) ∧ r.isBelow root.route = true := by
  unfold Matcher.collect FileTree.walk at h
  split at h
  · rename_i hthere
    obtain rfl := Except.ok.inj h
    refine ⟨Or.comm.1 hthere, _, List.filter_map, fun r hr => ?_⟩
    obtain ⟨hlisted, hbelow⟩ := List.mem_filter.1 (List.mem_filter.1 hr).1
    have hr := Std.ExtTreeMap.mem_of_mem_keys hlisted
    exact ⟨⟨hplaced.files r hr, hr⟩, hbelow⟩
  · cases h

/-- **The scratch tree shows a step what the recipe has selected.** A dry run copies the files that the
recipe selects, and the target is among what is copied; its ignore file is copied too, or there is none.
Then a step selects from the copy those of the files that it selects from the tree which the recipe has
selected. So it selects the same from both exactly if the recipe has selected all of them. -/
theorem chosen_seed (t : FileTree) (flow : Flow) (recipe codemod : Codemod) (ruleSource : Option String)
    (included : Option (List String)) (selected : List Path) (hbuilt : t.Built)
    (hselected : chosen t flow recipe none none = .ok selected) (hne : selected ≠ [])
    (htarget : flow.target.route ≠ [] ∨ flow.target.normalize ∈ selected)
    (hignore : (flow.target.join ⟨".gitignore"⟩).normalize ∈ selected ∨
      ∀ text, t.read (flow.target.join ⟨".gitignore"⟩) ≠ .ok text) :
    chosen (seed t selected) flow codemod ruleSource included =
        (chosen t flow codemod ruleSource included).map (fun paths => paths.filter (· ∈ selected)) ∧
      (chosen (seed t selected) flow codemod ruleSource included =
          chosen t flow codemod ruleSource included ↔
        ∀ paths, chosen t flow codemod ruleSource included = .ok paths → paths ⊆ selected) := by
  have hplaced := hbuilt.placed
  obtain ⟨_, _, -, -, hcollect⟩ := chosen_eq_ok.1 hselected
  obtain ⟨hthere, routes, rfl, hbelow⟩ := exists_routes_of_collect hplaced hcollect
  have hroutes : ∀ r ∈ routes, r.IsPlace ∧ r ∈ t.files := fun r hr => (hbelow r hr).1
  have hmem : ∀ p : Path, p.normalize ∈ routes.map Route.toPath ↔ p.route ∈ routes :=
    fun p => mem_map_toPath (fun s hs => (hroutes s hs).1) p.route_isPlace
  rw [hmem] at htarget hignore
  have hcopied := holds_seed hroutes (fun r hr => (hbelow r hr).2) (by simpa using hne) htarget
  have hsame : chosen (seed t (routes.map Route.toPath)) flow codemod ruleSource included =
      (chosen t flow codemod ruleSource included).map
        (fun paths => paths.filter (· ∈ routes.map Route.toPath)) :=
    chosen_map (build_seed hroutes hignore) fun m => collect_seed hroutes hplaced hthere hcopied
  refine ⟨hsame, ?_⟩
  rw [hsame]
  cases chosen t flow codemod ruleSource included with
  | error e => simp [Except.map]
  | ok paths => simp [Except.map, List.filter_eq_self, List.subset_def]

/-- Two scripts, one of them ignored, and a note. -/
def notedTree : FileTree :=
  .ofFiles [(⟨"/p/a.ts"⟩, "x"), (⟨"/p/b.ts"⟩, "y"), (⟨"/p/n.md"⟩, "z"), (⟨"/p/.gitignore"⟩, "b.ts")]

/-- The recipe selects more than the step, and the step finds the ignore file in the copy. -/
theorem chosen_seed_ignored :
    chosen notedTree { target := ⟨"/p"⟩ } { engine := .recipe } none none =
        .ok [⟨"/p/.gitignore"⟩, ⟨"/p/a.ts"⟩, ⟨"/p/n.md"⟩] ∧
      chosen notedTree { target := ⟨"/p"⟩ } { engine := .jscodeshift } none none = .ok [⟨"/p/a.ts"⟩] ∧
      chosen (seed notedTree [⟨"/p/.gitignore"⟩, ⟨"/p/a.ts"⟩, ⟨"/p/n.md"⟩]) { target := ⟨"/p"⟩ }
        { engine := .jscodeshift } none none = .ok [⟨"/p/a.ts"⟩] := by
  have hselected : chosen notedTree { target := ⟨"/p"⟩ } { engine := .recipe } none none =
      .ok [⟨"/p/.gitignore"⟩, ⟨"/p/a.ts"⟩, ⟨"/p/n.md"⟩] := by decide +kernel
  have hchosen : chosen notedTree { target := ⟨"/p"⟩ } { engine := .jscodeshift } none none =
      .ok [⟨"/p/a.ts"⟩] := by decide +kernel
  have hseed := (chosen_seed notedTree { target := ⟨"/p"⟩ } { engine := .recipe } { engine := .jscodeshift }
    none none _ (.ofFiles _) hselected (by simp) (.inl (by decide +kernel)) (.inl (by decide +kernel))).2
  refine ⟨hselected, hchosen, (hseed.2 fun paths h => ?_).trans hchosen⟩
  obtain rfl := Except.ok.inj (hchosen.symm.trans h)
  simp

/-- A file without an extension, and a script. -/
def buildTree : FileTree :=
  .ofFiles [(⟨"/p/Makefile"⟩, "all:"), (⟨"/p/a.ts"⟩, "x")]

/-- The recipe does not select the file that a step of it asks for. -/
theorem chosen_seed_missed :
    chosen buildTree { target := ⟨"/p"⟩ } { engine := .recipe } none none = .ok [⟨"/p/a.ts"⟩] ∧
      chosen (seed buildTree [⟨"/p/a.ts"⟩]) { target := ⟨"/p"⟩ }
        { engine := .jscodeshift, included := some ["Makefile"] } none none = .ok [] ∧
      chosen buildTree { target := ⟨"/p"⟩ } { engine := .jscodeshift, included := some ["Makefile"] }
        none none = .ok [⟨"/p/Makefile"⟩] := by
  decide +kernel

end BulkEdit.Run
