import BulkEdit.Proofs.Filemod.Session
import BulkEdit.Proofs.Run.Application
import BulkEdit.Proofs.Worker.Commands
import Mathlib.Data.List.Nodup

/-!
# What a codemod gives

A codemod that is no recipe leaves the tree alone, and the commands it gives fit the tree
(`single_spec`); so a step of a recipe, which applies them, lets the tree grow (`step_grown`).
-/

namespace BulkEdit.Run

variable {w w' : World} {tools : Toolset} {codemod : Codemod} {flow : Flow}
  {arguments : ArgumentRecord}

/-! ### Parts that leave the tree alone -/

theorem emit_eq_ok {events : List Event} {u : Unit} :
    emit events w = .ok u w' ↔ w' = { w with events := w.events ++ events } := by
  show EStateM.Result.ok () _ = .ok u w' ↔ _
  simp [eq_comm]

theorem tree_eq_ok {t : FileTree} : Run.tree w = .ok t w' ↔ t = w.tree ∧ w' = w := by
  show EStateM.Result.ok w.tree w = .ok t w' ↔ _
  simp [eq_comm]

theorem modify_eq_ok {f : World → World} {u : Unit} :
    (modify f : Run Unit) w = .ok u w' ↔ w' = f w := by
  show EStateM.Result.ok () _ = .ok u w' ↔ _
  simp [eq_comm]

/-- The tree is what it was, and nothing was told. -/
def Silent (w w' : World) : Prop :=
  w'.tree = w.tree ∧ w'.events = w.events

theorem silent_of_transform {source : String} {m : Module}
    (h : transform tools codemod source w = .ok m w') : Silent w w' := by
  unfold transform at h
  simp only [bind_eq_ok, require_eq_ok, modify_eq_ok, pure_eq_ok, Prod.exists] at h
  obtain ⟨_, _, hget, _, cache, _, ⟨-, rfl⟩, _, _, rfl, -, rfl⟩ := h
  cases hget
  exact ⟨rfl, rfl⟩

theorem silent_of_filemod {f : Filemod} (h : filemod tools codemod w = .ok f w') : Silent w w' := by
  unfold filemod at h
  simp only [bind_eq_ok, require_eq_ok, modify_eq_ok, pure_eq_ok, Prod.exists] at h
  obtain ⟨_, _, hget, _, cache, _, ⟨-, rfl⟩, _, _, rfl, -, rfl⟩ := h
  cases hget
  exact ⟨rfl, rfl⟩

theorem selection_eq_ok {ruleSource : Option String} {filemodIncluded : Option (List String)}
    {patterns : PatternSet} {matcher : Matcher} :
    selection flow codemod ruleSource filemodIncluded w = .ok (patterns, matcher) w' ↔
      PatternSet.build w.tree flow codemod ruleSource filemodIncluded = .ok patterns ∧
      Matcher.ofPatterns flow.target patterns = .ok matcher ∧ w' = w := by
  unfold selection
  simp only [bind_eq_ok, tree_eq_ok, require_eq_ok, pure_eq_ok]
  constructor
  · rintro ⟨_, _, ⟨rfl, rfl⟩, patterns', _, ⟨hpatterns, rfl⟩, matcher', _, ⟨hmatcher, rfl⟩, he, rfl⟩
    obtain ⟨rfl, rfl⟩ := Prod.mk.inj he
    exact ⟨hpatterns, hmatcher, rfl⟩
  · rintro ⟨hpatterns, hmatcher, rfl⟩
    exact ⟨_, _, ⟨rfl, rfl⟩, patterns, _, ⟨hpatterns, rfl⟩, matcher, _, ⟨hmatcher, rfl⟩, rfl, rfl⟩

/-! ### The commands of a codemod -/

/-- Collected paths spell places, so normalizing keeps their names. -/
theorem fileName?_of_collect {t : FileTree} (hplaced : t.Placed) {m : Matcher} {root : Path}
    {paths : List Path} (h : m.collect t root = .ok paths) :
    ∀ p ∈ paths, p.normalize.fileName? = p.fileName? := by
  intro p hp
  unfold Matcher.collect FileTree.walk at h
  split at h
  · obtain rfl := Except.ok.inj h
    obtain ⟨r, hr, rfl⟩ := List.mem_map.1 (List.mem_filter.1 hp).1
    have hr := Std.ExtTreeMap.mem_of_mem_keys (List.mem_filter.1 hr).1
    rw [Path.normalize, (hplaced.files r hr).route_toPath]
  · cases h

/-- What is proved of a codemod on a tree: the tree stays, and the commands fit it. -/
def Gives (tools : Toolset) (flow : Flow) (w w' : World) : Prop :=
  w'.tree = w.tree ∧ FileCommand.Fits tools.formatters flow.format w.tree
    (w'.events.filterMap Event.command?)

theorem gives_noFiles {u : Unit} (hevents : w.events = []) (h : noFiles flow w = .ok u w') :
    Gives tools flow w w' := by
  obtain rfl := emit_eq_ok.1 h
  exact ⟨rfl, by simpa [hevents, List.filterMap_cons] using FileCommand.fits_nil⟩

theorem gives_perFile (hplaced : w.tree.Placed) (hevents : w.events = [])
    (hstable : flow.format = true → tools.formatters.Stable) {u : Unit}
    (h : perFile tools codemod flow arguments w = .ok u w') : Gives tools flow w w' := by
  unfold perFile at h
  simp only [bind_eq_ok, require_eq_ok, selection_eq_ok, tree_eq_ok, Prod.exists] at h
  obtain ⟨source, _, ⟨-, rfl⟩, m, _, htransform, patterns, matcher, _, ⟨-, -, rfl⟩, _, w₁, ⟨rfl, rfl⟩,
    h⟩ := h
  obtain ⟨htree, hsilent⟩ := silent_of_transform htransform
  rw [hevents] at hsilent
  unfold Gives
  rw [← htree] at hplaced ⊢
  cases hcollect : matcher.collect w₁.tree flow.target with
  | error e =>
    rw [hcollect] at h
    exact gives_noFiles hsilent h
  | ok paths =>
    rw [hcollect] at h
    cases paths with
    | nil => exact gives_noFiles hsilent h
    | cons path rest =>
      simp only [bind_eq_ok, require_eq_ok, announce, emit_eq_ok, Prod.exists] at h
      obtain ⟨_, _, rfl, report, events, _, ⟨hstart, rfl⟩, _, _, rfl, rfl⟩ := h
      have hfits : FileCommand.Fits tools.formatters flow.format w₁.tree _ :=
        Pool.start_fits hstable (fileName?_of_collect hplaced hcollect) hstart
      exact ⟨rfl, by simpa [hsilent, List.filterMap_cons] using hfits⟩

theorem commands_notice (name : Option String) (tally : FilemodTally) (notices : List Notice) :
    (Notice.events name tally notices).filterMap Event.command? = [] := by
  induction notices generalizing tally with
  | nil => rfl
  | cons notice rest ih =>
    cases notice with
    | handled path => rw [Notice.events, List.filterMap_cons_none rfl, ih]
    | failed path message =>
      rw [Notice.events, List.filterMap_append, ih]
      simp [Event.failure]

theorem fits_outcome (hstable : flow.format = true → tools.formatters.Stable) {t : FileTree}
    (hplaced : t.Placed) (f : Filemod) (root : Path) (paths : Option (List Path))
    (arguments : ArgumentRecord) :
    FileCommand.Fits tools.formatters flow.format t (tools.formatters.formatCommands
      (f.outcome t root paths arguments flow.format).commands) := by
  obtain ⟨log, hdenotes⟩ := f.outcome_denotes hplaced root paths arguments flow.format
  generalize (f.outcome t root paths arguments flow.format).commands = commands at hdenotes ⊢
  refine FileCommand.fits_of_formatted hstable (· ∈ commands) (fun c hc => ?_)
    (fun p old data g hu => ?_) (fun p old data g q hu hd he => ?_) fun c' hc' => List.mem_filterMap.1 hc'
  · have htells := hdenotes.tells c hc
    have hnormal := hdenotes.normal c hc
    cases c with
    | create p data g => exact htells.1
    | update p old data g => exact ⟨htells.1, by rw [show p.normalize = p from hnormal]⟩
    | delete p => exact trivial
    | move => exact absurd htells id
    | copy => exact absurd htells id
  · obtain ⟨-, hold, -⟩ := hdenotes.tells _ hu
    exact FileTree.mem_files_of_getElem? hold
  · -- Each file is named once.
    have hsame := List.inj_on_of_nodup_map hdenotes.nodup hu hd he.symm
    cases hsame

theorem gives_wholeTree (hplaced : w.tree.Placed) (hevents : w.events = [])
    (hstable : flow.format = true → tools.formatters.Stable) {u : Unit}
    (h : wholeTree tools codemod flow arguments w = .ok u w') : Gives tools flow w w' := by
  unfold wholeTree at h
  simp only [bind_eq_ok, require_eq_ok, selection_eq_ok, tree_eq_ok, Prod.exists] at h
  obtain ⟨_, _, ⟨-, rfl⟩, f, _, hfilemod, patterns, matcher, _, ⟨-, -, rfl⟩, _, _, ⟨rfl, rfl⟩, paths, w₁,
    ⟨-, rfl⟩, h⟩ := h
  obtain ⟨htree, hsilent⟩ := silent_of_filemod hfilemod
  rw [hevents] at hsilent
  unfold Gives
  rw [← htree] at hplaced ⊢
  split at h
  · exact gives_noFiles hsilent h
  · simp only [bind_eq_ok, require_eq_ok, modify_eq_ok, announce, emit_eq_ok] at h
    obtain ⟨_, _, rfl, _, _, rfl, _, _, rfl, _, _, ⟨-, rfl⟩, _, _, rfl, rfl⟩ := h
    have hfits := fits_outcome hstable hplaced f flow.target (some paths) arguments
    refine ⟨rfl, ?_⟩
    simpa [hsilent, commands_notice, List.filterMap_cons, List.filterMap_map, Function.comp_def]
      using hfits

/-- **A codemod that is no recipe** leaves the tree alone, and its commands fit the tree. -/
theorem single_spec (hplaced : w.tree.Placed) (hevents : w.events = [])
    (hstable : flow.format = true → tools.formatters.Stable) {u : Unit}
    (h : single tools codemod flow arguments w = .ok u w') : Gives tools flow w w' := by
  unfold single at h
  cases hengine : codemod.engine <;> rw [hengine] at h
  case piranha => cases h
  case recipe =>
    obtain ⟨-, rfl⟩ := pure_eq_ok.1 h
    exact ⟨rfl, by simpa [hevents] using FileCommand.fits_nil⟩
  case filemod => exact gives_wholeTree hplaced hevents hstable h
  all_goals exact gives_perFile hplaced hevents hstable h

/-! ### Steps of a recipe -/

theorem capturing_eq_ok {relay : Event → Option Event} {part : Run Unit}
    {commands : List FileCommand} : capturing relay part w = .ok commands w' ↔
      ∃ w₁, part { w with events := [] } = .ok () w₁ ∧
        commands = w₁.events.filterMap Event.command? ∧
        w' = { w₁ with events := w.events ++ w₁.events.filterMap relay } := by
  unfold capturing
  cases part { w with events := [] } with
  | ok u w₁ => simp [eq_comm]
  | error e w₁ => simp

/-- **A step** runs a codemod on its own and then applies its commands. -/
theorem step_eq_ok {relay : Relay} {commands : List FileCommand} :
    step tools flow arguments relay codemod w = .ok commands w' ↔
      ∃ w₁ t, single tools codemod flow arguments { w with events := [] } = .ok () w₁ ∧
        commands = w₁.events.filterMap Event.command? ∧
        FileCommand.carryOut w₁.tree commands = .ok t ∧
        w' = { w₁ with
          tree := t, events := w.events ++ w₁.events.filterMap (relay.event? codemod) } := by
  unfold step
  simp only [bind_eq_ok, capturing_eq_ok, forM_applyWet_eq_ok, pure_eq_ok]
  constructor
  · rintro ⟨_, _, ⟨w₁, hsingle, rfl, rfl⟩, _, _, ⟨t, ht, rfl⟩, rfl, rfl⟩
    exact ⟨w₁, t, hsingle, rfl, ht, rfl⟩
  · rintro ⟨w₁, t, hsingle, rfl, ht, rfl⟩
    exact ⟨_, _, ⟨w₁, hsingle, rfl, rfl⟩, (), _, ⟨t, ht, rfl⟩, rfl, rfl⟩

theorem step_grown (hstable : flow.format = true → tools.formatters.Stable) {relay : Relay}
    {commands : List FileCommand} {t₀ : FileTree}
    (hgrown : Grown (FileCommand.restsAt tools.formatters flow.format) t₀ w.tree)
    (h : step tools flow arguments relay codemod w = .ok commands w') :
    Grown (FileCommand.restsAt tools.formatters flow.format) t₀ w'.tree := by
  obtain ⟨w₁, t, hsingle, rfl, ht, rfl⟩ := step_eq_ok.1 h
  obtain ⟨htree, hfits⟩ := single_spec (w := { w with events := [] }) hgrown.placed rfl hstable hsingle
  rw [htree] at ht
  exact FileCommand.grown_carryOut hstable hgrown hfits ht

theorem commands_relay (relay : Relay) (events : List Event) :
    (events.filterMap (relay.event? codemod)).filterMap Event.command? = [] := by
  rw [List.filterMap_filterMap]
  refine List.filterMap_eq_nil_iff.2 fun e _ => ?_
  cases e with
  | command c => rfl
  | message m => cases hm : relay.message? codemod m <;> simp [Relay.event?, hm]
  | error e => rfl
  | success s => rfl

end BulkEdit.Run
