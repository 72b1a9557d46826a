import BulkEdit.Proofs.Run.Fidelity
import BulkEdit.Proofs.Run.Preview

/-!
# Recipes as compositions of their steps

The steps of a recipe share what has been resolved before, by the entry path of a codemod alone, while a
resolved transform carries the engine and the name of the codemod it was resolved for. Where steps of one
entry path have the same engine and name, what is found there is what the step itself would have resolved
(`Faithful`), and so a recipe does what its steps do one after another, each run on its own from the tree
that the one before has left (`recipe_composes`). Else a step may be run for the engine of another.
-/

namespace BulkEdit.Run

variable {α β : Type} {w w' v v' : World} {tools : Toolset} {codemod : Codemod} {flow : Flow}
  {arguments : ArgumentRecord} {steps : List Codemod}

/-! ### Worlds side by side -/

/-- Two outcomes of a part: the same value or the same error, in worlds that are related. -/
def Matching (R : World → World → Prop) :
    EStateM.Result RunError World α → EStateM.Result RunError World α → Prop
  | .ok a w, .ok b v => a = b ∧ R w v
  | .error e w, .error e' v => e = e' ∧ R w v
  | _, _ => False

theorem Matching.exists_of_left {R : World → World → Prop} {a : α}
    {result : EStateM.Result RunError World α} (h : Matching R (.ok a w) result) :
    ∃ v, result = .ok a v ∧ R w v := by
  cases result with
  | ok b v =>
    obtain ⟨rfl, hR⟩ := h
    exact ⟨v, rfl, hR⟩
  | error e v => exact absurd h id

theorem Matching.exists_of_right {R : World → World → Prop} {a : α}
    {result : EStateM.Result RunError World α} (h : Matching R result (.ok a v)) :
    ∃ w, result = .ok a w ∧ R w v := by
  cases result with
  | ok b w =>
    obtain ⟨rfl, hR⟩ := h
    exact ⟨w, rfl, hR⟩
  | error e w => exact absurd h id

/-- A part takes related worlds to related worlds, with the same outcome. -/
def Respects (R : World → World → Prop) (part : Run α) : Prop :=
  ∀ w v, R w v → Matching R (part w) (part v)

theorem Respects.bind {R : World → World → Prop} {x : Run α} {f : α → Run β} (hx : Respects R x)
    (hf : ∀ a, Respects R (f a)) : Respects R (x >>= f) := by
  intro w v hR
  have hfirst := hx w v hR
  show Matching R (EStateM.bind x f w) (EStateM.bind x f v)
  unfold EStateM.bind
  cases hw : x w <;> cases hv : x v <;> rw [hw, hv] at hfirst
  case ok.ok a w₁ b v₁ =>
    obtain ⟨rfl, hR₁⟩ := hfirst
    exact hf a w₁ v₁ hR₁
  case error.error e w₁ e' v₁ => exact hfirst
  all_goals exact absurd hfirst id

/-- What is kept for the entry paths of some codemods is what they are resolved to. -/
def Kept {γ : Type} (resolve : Codemod → Except SandboxError γ) (known : Codemod → Prop)
    (entries : List (List Component × γ)) : Prop :=
  ∀ c, known c → ∀ m, entries.lookup c.entryPath.components = some m → resolve c = .ok m

/-- What has been resolved is what the steps are resolved to. -/
structure Faithful (host : Host) (steps : List Codemod) (cache : ModuleCache) : Prop where
  transforms (source : String) : Kept (fun c => (host.resolveTransform c source).module)
    (fun c => c ∈ steps ∧ c.engine.isPerFile = true) cache.transforms
  filemods : Kept host.resolveFilemod (· ∈ steps) cache.filemods

/-- Steps of one entry path that transform files one by one have the same engine and name. -/
def Coherent (steps : List Codemod) : Prop :=
  ∀ c ∈ steps, ∀ c' ∈ steps, c.engine.isPerFile = true → c'.engine.isPerFile = true →
    c.entryPath.components = c'.entryPath.components →
      c.engine = c'.engine ∧ c.displayName = c'.displayName

/-- Two worlds that cannot be told apart by the steps. -/
structure Alike (host : Host) (steps : List Codemod) (w v : World) : Prop where
  tree : w.tree = v.tree
  events : w.events = v.events
  left : Faithful host steps w.cache
  right : Faithful host steps v.cache

theorem alike_partwise (host : Host) (steps : List Codemod) :
    Partwise fun _ => Respects (Alike host steps) where
  pure _ _ _ h := ⟨rfl, h⟩
  throw _ _ _ h := ⟨rfl, h⟩
  bind hx hf := hx.bind hf
  tree _ _ h := ⟨h.tree, h⟩
  emit events _ _ h := ⟨rfl, h.tree, congrArg (· ++ events) h.events, h.left, h.right⟩
  record _ _ _ h := ⟨rfl, h.tree, h.events, h.left, h.right⟩

/-! ### What has been resolved -/

theorem faithful_empty (host : Host) (steps : List Codemod) : Faithful host steps {} where
  transforms := by simp [Kept]
  filemods := by simp [Kept]

/-- What was resolved may be kept if all codemods of the entry path are resolved to it. -/
theorem Kept.cons {γ : Type} {resolve : Codemod → Except SandboxError γ} {known : Codemod → Prop}
    {entries : List (List Component × γ)} {c : Codemod} {m : γ} (h : Kept resolve known entries)
    (hsame : ∀ c', known c' → c'.entryPath.components = c.entryPath.components → resolve c' = .ok m) :
    Kept resolve known ((c.entryPath.components, m) :: entries) := by
  intro c' hc' m' hm'
  rw [List.lookup_cons] at hm'
  split at hm'
  · rename_i hentry
    obtain rfl := Option.some.inj hm'
    exact hsame c' hc' (eq_of_beq hentry)
  · exact h c' hc' m' hm'

/-- Looking code up among what has been resolved gives what resolving it gives. -/
def Finds {γ : Type} (host : Host) (steps : List Codemod)
    (find : ModuleCache → Except SandboxError (γ × ModuleCache)) (found : Except SandboxError γ) : Prop :=
  ∀ cache, Faithful host steps cache →
    ∃ cache', Faithful host steps cache' ∧ find cache = found.map (·, cache')

section

variable {host : Host} {known : Builtins} {c c' : Codemod}

/-- A builtin transform is found by the place of its entry, and carries the engine and the name. -/
theorem resolveTransform_builtin_congr (hentry : c.entryPath.components = c'.entryPath.components)
    (hengine : c.engine = c'.engine) (hname : c.displayName = c'.displayName) (source source' : String) :
    (Host.builtin known).resolveTransform c source = (Host.builtin known).resolveTransform c' source' := by
  unfold Host.resolveTransform Path.normalize Path.route
  rw [hentry, hengine, hname]

theorem resolveFilemod_builtin_congr (hentry : c.entryPath.components = c'.entryPath.components) :
    (Host.builtin known).resolveFilemod c = (Host.builtin known).resolveFilemod c' := by
  unfold Host.resolveFilemod Path.normalize Path.route
  rw [hentry]

theorem finds_transform (hhost : host = .builtin known) (hcoherent : Coherent steps) (hmem : c ∈ steps)
    (hengine : c.engine.isPerFile = true) (source : String) :
    Finds host steps
      (fun cache => cache.transform c.entryPath fun _ => (host.resolveTransform c source).module)
      (host.resolveTransform c source).module := by
  intro cache h
  unfold ModuleCache.transform
  dsimp only
  cases hlookup : cache.transforms.lookup c.entryPath.components with
  | some m =>
    have hresolve : (host.resolveTransform c source).module = .ok m :=
      h.transforms source c ⟨hmem, hengine⟩ m hlookup
    rw [hresolve]
    exact ⟨cache, h, rfl⟩
  | none =>
    cases hresolve : (host.resolveTransform c source).module with
    | error e => exact ⟨cache, h, rfl⟩
    | ok m =>
      refine ⟨{ cache with transforms := (c.entryPath.components, m) :: cache.transforms },
        ⟨fun source' => (h.transforms source').cons ?_, h.filemods⟩, rfl⟩
      intro c' hc' hentry
      obtain ⟨hsame, hname⟩ := hcoherent c' hc'.1 c hmem hc'.2 hengine hentry
      subst hhost
      rw [resolveTransform_builtin_congr hentry hsame hname source' source, hresolve]

theorem finds_filemod (hhost : host = .builtin known) (hmem : c ∈ steps) :
    Finds host steps (fun cache => cache.filemod c.entryPath fun _ => host.resolveFilemod c)
      (host.resolveFilemod c) := by
  intro cache h
  unfold ModuleCache.filemod
  dsimp only
  cases hlookup : cache.filemods.lookup c.entryPath.components with
  | some f =>
    rw [h.filemods c hmem f hlookup]
    exact ⟨cache, h, rfl⟩
  | none =>
    cases hresolve : host.resolveFilemod c with
    | error e => exact ⟨cache, h, rfl⟩
    | ok f =>
      refine ⟨{ cache with filemods := (c.entryPath.components, f) :: cache.filemods },
        ⟨h.transforms, h.filemods.cons ?_⟩, rfl⟩
      intro c' hc' hentry
      subst hhost
      rw [resolveFilemod_builtin_congr hentry, hresolve]

/-- A part that looks code up does the same in worlds that are alike. -/
theorem respects_lookup {γ : Type} (wrap : SandboxError → RunError)
    {find : ModuleCache → Except SandboxError (γ × ModuleCache)} {found : Except SandboxError γ}
    (hfind : Finds host steps find found) :
    Respects (Alike host steps) (do
      let cache := (← get).cache
      let (code, cache) ← require wrap (find cache)
      modify fun w => { w with cache }
      pure code) := by
  intro w v h
  obtain ⟨cache, hcache, hw⟩ := hfind w.cache h.left
  obtain ⟨cache', hcache', hv⟩ := hfind v.cache h.right
  have hget : ∀ w : World, (get : Run World) w = .ok w w := fun _ => rfl
  simp only [bind, EStateM.bind, hget]
  rw [hw, hv]
  cases found with
  | error e => exact ⟨rfl, h⟩
  | ok code => exact ⟨rfl, h.tree, h.events, hcache, hcache'⟩

/-- **A step cannot tell** what has been resolved before it from what it would resolve itself. -/
theorem single_respects (hhost : tools.host = .builtin known) (hcoherent : Coherent steps)
    (hmem : codemod ∈ steps) :
    Respects (Alike tools.host steps) (single tools codemod flow arguments) := by
  refine (alike_partwise tools.host steps).single (fun hengine source => ?_) ?_
  · exact respects_lookup (resolutionError codemod) (finds_transform hhost hcoherent hmem hengine source)
  · exact respects_lookup (resolutionError codemod) (finds_filemod hhost hmem)

end

/-! ### One step after another -/

/-- Runs a codemod and applies its commands; gives them. -/
def applied (tools : Toolset) (flow : Flow) (arguments : ArgumentRecord) (codemod : Codemod) :
    Run (List FileCommand) := do
  Run.codemod tools { toCodemod := codemod } flow (.wet "") arguments
  let commands := (← get).events.filterMap Event.command?
  let _ ← applyAll (.wet "") commands
  pure commands

/-- Runs a codemod on its own, with nothing resolved before; gives the commands that were applied and the
tree that is left. -/
def alone (tools : Toolset) (flow : Flow) (arguments : ArgumentRecord) (tree : FileTree)
    (codemod : Codemod) : Except RunError (List FileCommand × FileTree) :=
  match applied tools flow arguments codemod { tree } with
  | .ok commands w => .ok (commands, w.tree)
  | .error e _ => .error e

/-- Runs codemods one after another, each on its own; gives the commands of each and the tree that is
left. -/
def inSequence (tools : Toolset) (flow : Flow) (arguments : ArgumentRecord) :
    FileTree → List Codemod → Except RunError (List (List FileCommand) × FileTree)
  | tree, [] => .ok ([], tree)
  | tree, codemod :: rest =>
    match alone tools flow arguments tree codemod with
    | .error e => .error e
    | .ok (commands, tree) =>
      (inSequence tools flow arguments tree rest).map fun (more, tree) => (commands :: more, tree)

/-- A codemod does on its own what it does as a step; a recipe without steps only says that it is
through. -/
theorem codemod_eq_ok : Run.codemod tools { toCodemod := codemod } flow (.wet "") arguments w = .ok () w' ↔
    ∃ w₁, single tools codemod flow arguments w = .ok () w₁ ∧
      w' = { w₁ with events := w₁.events ++
        if codemod.engine = .recipe then [.success ⟨codemod.name, codemod.name, []⟩] else [] } := by
  unfold Run.codemod
  by_cases hrecipe : codemod.engine = .recipe
  · have hsingle : single tools codemod flow arguments = pure () := by
      unfold single
      rw [hrecipe]
    rw [if_pos hrecipe, if_neg (by simp [RunMode.isDry]), if_pos hrecipe, hsingle, wetRecipe_eq_ok]
    simp only [wetSteps, pure_eq_ok]
    constructor
    · rintro ⟨_, _, ⟨rfl, rfl⟩, rfl⟩
      exact ⟨w, ⟨trivial, rfl⟩, rfl⟩
    · rintro ⟨_, ⟨-, rfl⟩, rfl⟩
      exact ⟨[], w, ⟨rfl, rfl⟩, rfl⟩
  · simp [hrecipe]

theorem applied_eq_ok {commands : List FileCommand} :
    applied tools flow arguments codemod w = .ok commands w' ↔
      ∃ w₁ t, Run.codemod tools { toCodemod := codemod } flow (.wet "") arguments w = .ok () w₁ ∧
        commands = w₁.events.filterMap Event.command? ∧
        FileCommand.carryOut w₁.tree commands = .ok t ∧ w' = { w₁ with tree := t } := by
  have hget : ∀ {w w' v : World}, (get : Run World) w = .ok v w' ↔ v = w ∧ w' = w := by
    intro w w' v
    show EStateM.Result.ok w w = .ok v w' ↔ _
    simp [eq_comm]
  unfold applied
  simp only [bind_eq_ok, applyAll_wet_eq_ok, pure_eq_ok, hget]
  constructor
  · rintro ⟨_, _, hcodemod, w₁, _, ⟨rfl, rfl⟩, _, _, ⟨-, t, ht, rfl⟩, rfl, rfl⟩
    exact ⟨_, t, hcodemod, rfl, ht, rfl⟩
  · rintro ⟨w₁, t, hcodemod, rfl, ht, rfl⟩
    exact ⟨(), w₁, hcodemod, _, _, ⟨rfl, rfl⟩, [], _, ⟨rfl, t, ht, rfl⟩, rfl, rfl⟩

theorem alone_eq_ok {t t' : FileTree} {commands : List FileCommand} :
    alone tools flow arguments t codemod = .ok (commands, t') ↔
      ∃ w, single tools codemod flow arguments { tree := t } = .ok () w ∧
        commands = w.events.filterMap Event.command? ∧
        FileCommand.carryOut w.tree commands = .ok t' := by
  have happlied : alone tools flow arguments t codemod = .ok (commands, t') ↔
      ∃ w, applied tools flow arguments codemod { tree := t } = .ok commands w ∧ w.tree = t' := by
    unfold alone
    cases applied tools flow arguments codemod { tree := t } <;> simp
  have hsilent : ∀ events : List Event, (events ++ if codemod.engine = Engine.recipe then
      [Event.success ⟨codemod.name, codemod.name, []⟩] else []).filterMap Event.command? =
      events.filterMap Event.command? := by
    intro events
    split <;> simp [List.filterMap_cons]
  simp only [happlied, applied_eq_ok, codemod_eq_ok]
  constructor
  · rintro ⟨_, ⟨_, t, ⟨w₁, hsingle, rfl⟩, rfl, ht, rfl⟩, rfl⟩
    rw [hsilent] at ht ⊢
    exact ⟨w₁, hsingle, rfl, ht⟩
  · rintro ⟨w₁, hsingle, rfl, ht⟩
    exact ⟨_, ⟨_, t', ⟨w₁, hsingle, rfl⟩, (hsilent _).symm, ht, rfl⟩, rfl⟩

theorem inSequence_cons_eq_ok {t t' : FileTree} {rest : List Codemod} {reported : List (List FileCommand)} :
    inSequence tools flow arguments t (codemod :: rest) = .ok (reported, t') ↔
      ∃ commands t₁ more, alone tools flow arguments t codemod = .ok (commands, t₁) ∧
        inSequence tools flow arguments t₁ rest = .ok (more, t') ∧ reported = commands :: more := by
  rw [inSequence]
  cases alone tools flow arguments t codemod with
  | error e => simp
  | ok first =>
    obtain ⟨commands, t₁⟩ := first
    dsimp only
    constructor
    · intro h
      cases hrest : inSequence tools flow arguments t₁ rest with
      | error e =>
        rw [hrest] at h
        cases h
      | ok other =>
        rw [hrest] at h
        obtain ⟨rfl, rfl⟩ := Prod.mk.inj (Except.ok.inj h)
        exact ⟨commands, t₁, _, rfl, hrest, rfl⟩
    · rintro ⟨_, _, more, hfirst, hrest, rfl⟩
      obtain ⟨rfl, rfl⟩ := Prod.mk.inj (Except.ok.inj hfirst)
      rw [hrest]
      rfl

/-- What an event says of a codemod that is through. -/
def success? : Event → Option Success
  | .success s => some s
  | _ => none

theorem success?_relay (relay : Relay) (events : List Event) :
    (events.filterMap (relay.event? codemod)).filterMap success? = [] := by
  rw [List.filterMap_filterMap]
  refine List.filterMap_eq_nil_iff.2 fun e _ => ?_
  cases e with
  | command c => rfl
  | message m => cases hm : relay.message? codemod m <;> simp [Relay.event?, hm, success?]
  | error e => rfl
  | success s => rfl

section

variable {known : Builtins} {relay : Relay} {commands : List FileCommand} {rest : List Codemod}
  {recipeName : Option String} (hhost : tools.host = .builtin known) (hcoherent : Coherent steps)
  (hcache : Faithful tools.host steps w.cache)

include hhost hcoherent hcache

/-- Where what has been resolved is faithful, a codemod may as well run with nothing resolved. -/
theorem single_afresh (flow : Flow) (arguments : ArgumentRecord) (hmem : codemod ∈ steps) :
    Matching (Alike tools.host steps) (single tools codemod flow arguments { w with events := [] })
      (single tools codemod flow arguments { tree := w.tree }) :=
  single_respects hhost hcoherent hmem _ _ ⟨rfl, rfl, hcache, faithful_empty _ _⟩

/-- **Step:** a step does what its codemod does on its own. -/
theorem alone_of_step (hmem : codemod ∈ steps)
    (h : step tools flow arguments relay codemod w = .ok commands w') :
    alone tools flow arguments w.tree codemod = .ok (commands, w'.tree) ∧
      Faithful tools.host steps w'.cache ∧
      w'.events.filterMap success? = w.events.filterMap success? := by
  obtain ⟨w₁, t, hsingle, rfl, ht, rfl⟩ := step_eq_ok.1 h
  have hsame := single_afresh hhost hcoherent hcache flow arguments hmem
  rw [hsingle] at hsame
  obtain ⟨v, hfresh, halike⟩ := hsame.exists_of_left
  rw [halike.events, halike.tree] at ht
  refine ⟨alone_eq_ok.2 ⟨v, hfresh, by rw [halike.events], ?_⟩, halike.left, by simp [success?_relay]⟩
  rw [halike.events]
  exact ht

/-- A step succeeds where its codemod succeeds on its own. -/
theorem step_of_alone (relay : Relay) (hmem : codemod ∈ steps) {t : FileTree}
    (h : alone tools flow arguments w.tree codemod = .ok (commands, t)) :
    ∃ w', step tools flow arguments relay codemod w = .ok commands w' := by
  obtain ⟨v, hfresh, rfl, ht⟩ := alone_eq_ok.1 h
  have hsame := single_afresh hhost hcoherent hcache flow arguments hmem
  rw [hfresh] at hsame
  obtain ⟨w₁, hsingle, halike⟩ := hsame.exists_of_right
  rw [← halike.events, ← halike.tree] at ht
  exact ⟨_, step_eq_ok.2 ⟨w₁, t, hsingle, by rw [halike.events], by rwa [← halike.events], rfl⟩⟩

/-- **Run:** the steps do what their codemods do one after another, and each tells of its commands. -/
theorem inSequence_of_wetSteps (hsub : rest ⊆ steps)
    (h : wetSteps tools flow arguments recipeName rest w = .ok commands w') :
    ∃ reported, inSequence tools flow arguments w.tree rest = .ok (reported, w'.tree) ∧
      commands = reported.flatten ∧
      w'.events.filterMap success? = w.events.filterMap success? ++
        rest.zipWith (fun c commands => ⟨c.name, recipeName, commands⟩) reported := by
  induction rest generalizing w commands with
  | nil =>
    obtain ⟨rfl, rfl⟩ := pure_eq_ok.1 h
    exact ⟨[], rfl, rfl, by simp⟩
  | cons codemod rest ih =>
    obtain ⟨hmem, hsub⟩ := List.cons_subset.1 hsub
    obtain ⟨first, w₁, more, hfirst, hmore, rfl⟩ := wetSteps_cons_eq_ok.1 h
    obtain ⟨halone, hcache, htold⟩ := alone_of_step hhost hcoherent hcache hmem hfirst
    obtain ⟨reported, hrest, rfl, hreported⟩ := ih (by exact hcache) hsub hmore
    refine ⟨first :: reported, inSequence_cons_eq_ok.2 ⟨_, _, _, halone, hrest, rfl⟩, rfl, ?_⟩
    rw [hreported]
    simp [success?, htold]

/-- The steps succeed where their codemods succeed one after another. -/
theorem wetSteps_of_inSequence (recipeName : Option String) (hsub : rest ⊆ steps)
    {reported : List (List FileCommand)} {t : FileTree}
    (h : inSequence tools flow arguments w.tree rest = .ok (reported, t)) :
    ∃ commands w', wetSteps tools flow arguments recipeName rest w = .ok commands w' := by
  induction rest generalizing w reported with
  | nil => exact ⟨[], w, rfl⟩
  | cons codemod rest ih =>
    obtain ⟨hmem, hsub⟩ := List.cons_subset.1 hsub
    obtain ⟨first, t₁, more, hfirst, hmore, rfl⟩ := inSequence_cons_eq_ok.1 h
    obtain ⟨w₁, hstep⟩ := step_of_alone hhost hcoherent hcache .forward hmem hfirst
    obtain ⟨halone, hcache, -⟩ := alone_of_step hhost hcoherent hcache hmem hstep
    obtain ⟨-, rfl⟩ := Prod.mk.inj (Except.ok.inj (hfirst.symm.trans halone))
    obtain ⟨commands, w', hrest⟩ := ih (w := { w₁ with
      events := w₁.events ++ [.success ⟨codemod.name, recipeName, first⟩] }) hcache hsub hmore
    exact ⟨_, w', wetSteps_cons_eq_ok.2 ⟨first, w₁, commands, hstep, hrest, rfl⟩⟩

end

/-- **A recipe is the composition of its steps.** The host runs builtin codemods, and steps of one entry
path that transform files one by one have the same engine and name. Then a recipe that is run for real
leaves the tree that its steps leave when they are run one after another, each on its own, and tells of the
commands that each of them gives there; and it succeeds where they do. -/
theorem recipe_composes (tools : Toolset) (known : Builtins) (recipe : Descriptor) (flow : Flow)
    (arguments : ArgumentRecord) (digest : String) (t : FileTree) (hhost : tools.host = .builtin known)
    (hrecipe : recipe.engine = .recipe) (hcoherent : Coherent recipe.steps) :
    (∀ w, Run.codemod tools recipe flow (.wet digest) arguments { tree := t } = .ok () w →
      ∃ reported, inSequence tools flow arguments t recipe.steps = .ok (reported, w.tree) ∧
        w.events.filterMap success? =
          recipe.steps.zipWith (fun c commands => ⟨c.name, recipe.name, commands⟩) reported ++
            [⟨recipe.name, recipe.name, reported.flatten⟩]) ∧
    ∀ reported t', inSequence tools flow arguments t recipe.steps = .ok (reported, t') →
      ∃ w, Run.codemod tools recipe flow (.wet digest) arguments { tree := t } = .ok () w ∧
        w.tree = t' := by
  have hwet : Run.codemod tools recipe flow (.wet digest) arguments =
      wetRecipe tools recipe flow arguments := by simp [Run.codemod, hrecipe, RunMode.isDry]
  have hcache : Faithful tools.host recipe.steps ({ tree := t } : World).cache := faithful_empty _ _
  rw [hwet]
  constructor
  · intro w h
    obtain ⟨commands, w₁, hsteps, rfl⟩ := wetRecipe_eq_ok.1 h
    obtain ⟨reported, hsequence, rfl, htold⟩ :=
      inSequence_of_wetSteps hhost hcoherent hcache (List.Subset.refl _) hsteps
    exact ⟨reported, hsequence, by simp [success?, htold]⟩
  · intro reported t' h
    obtain ⟨commands, w, hsteps⟩ := wetSteps_of_inSequence hhost hcoherent hcache recipe.name
      (List.Subset.refl _) h
    obtain ⟨_, hsequence, -, -⟩ := inSequence_of_wetSteps hhost hcoherent hcache (List.Subset.refl _) hsteps
    obtain ⟨-, rfl⟩ := Prod.mk.inj (Except.ok.inj (h.symm.trans hsequence))
    exact ⟨_, wetRecipe_eq_ok.2 ⟨commands, w, hsteps, rfl⟩, rfl⟩

/-- Two steps of one entry path, alike but for the files they run on. -/
def addingTwice : Descriptor where
  engine := .recipe
  steps := [{ engine := .jscodeshift, entryPath := ⟨"/add.js"⟩ },
    { engine := .jscodeshift, entryPath := ⟨"/add.js"⟩, included := some ["a.*"] }]

/-- The second step adds to what the first has left, and so it does on its own. -/
theorem recipe_composes_twice :
    Coherent addingTwice.steps ∧ ∃ w, Run.codemod addingTools addingTwice { target := ⟨"/p"⟩ } (.wet "") []
        { tree := .ofFiles [(⟨"/p/a.ts"⟩, "x")] } = .ok () w ∧
      w.tree.read ⟨"/p/a.ts"⟩ = .ok "xyy" ∧
      ∃ reported, inSequence addingTools { target := ⟨"/p"⟩ } [] (.ofFiles [(⟨"/p/a.ts"⟩, "x")])
        addingTwice.steps = .ok (reported, w.tree) := by
  have hcoherent : Coherent addingTwice.steps := by
    simp [Coherent, addingTwice, Codemod.displayName]
  have hrun : succeeds (Run.codemod addingTools addingTwice { target := ⟨"/p"⟩ } (.wet "") [])
        { tree := .ofFiles [(⟨"/p/a.ts"⟩, "x")] } = true ∧
      (leaves (Run.codemod addingTools addingTwice { target := ⟨"/p"⟩ } (.wet "") [])
        { tree := .ofFiles [(⟨"/p/a.ts"⟩, "x")] }).tree.read ⟨"/p/a.ts"⟩ = .ok "xyy" := by decide +kernel
  obtain ⟨hsucceeds, hread⟩ := hrun
  obtain ⟨_, w, hw⟩ := succeeds_iff.1 hsucceeds
  rw [leaves, hw] at hread
  obtain ⟨reported, hsequence, -⟩ := (recipe_composes addingTools _ addingTwice { target := ⟨"/p"⟩ } [] ""
    (.ofFiles [(⟨"/p/a.ts"⟩, "x")]) rfl rfl hcoherent).1 w hw
  exact ⟨hcoherent, w, hw, hread, reported, hsequence⟩

/-- A transform that puts parentheses around a number. -/
def wrappingTools : Toolset where
  host := .builtin { transforms := [((⟨"/wrap.js"⟩ : Path).route,
    fun _ => { ending := .returned (some (.str "let a = (1);")) })] }

/-- Two steps of one entry path, for two engines. Redundant parentheses are no change to the first. -/
def wrappingTwice : Descriptor where
  engine := .recipe
  steps := [{ engine := .jscodeshift, entryPath := ⟨"/wrap.js"⟩ },
    { engine := .astGrep, entryPath := ⟨"/wrap.js"⟩, included := some ["**/*.ts"] }]

/-- The second step is run for the engine of the first, and its change is dropped. -/
theorem recipe_not_composed :
    succeeds (Run.codemod wrappingTools wrappingTwice { target := ⟨"/p"⟩ } (.wet "") [])
        { tree := .ofFiles [(⟨"/p/a.ts"⟩, "let a = 1;")] } = true ∧
      (leaves (Run.codemod wrappingTools wrappingTwice { target := ⟨"/p"⟩ } (.wet "") [])
        { tree := .ofFiles [(⟨"/p/a.ts"⟩, "let a = 1;")] }).tree.read ⟨"/p/a.ts"⟩ = .ok "let a = 1;" ∧
      (inSequence wrappingTools { target := ⟨"/p"⟩ } [] (.ofFiles [(⟨"/p/a.ts"⟩, "let a = 1;")])
        wrappingTwice.steps).map (fun (_, tree) => tree.read ⟨"/p/a.ts"⟩) =
        .ok (.ok "let a = (1);") := by
  decide +kernel

end BulkEdit.Run
