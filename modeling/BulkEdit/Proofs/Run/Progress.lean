import BulkEdit.Proofs.Run.Preview
import BulkEdit.Proofs.Run.Seed
import BulkEdit.Proofs.Worker.Schedule

/-!
# The progress of dry runs

Each step of a recipe counts the files that it handles, upwards from one (`single_counts`). A dry run shows
these counts as one, on the assumption that every step handles as many files as were copied for the first
(`spread`). A step that handles more of them gets ahead of the end, or of the step after it: the figures
stay within their total, and do not fall, exactly if no step gets so far (`dryRecipe_progress`).
-/

namespace BulkEdit

/-! ### Counts of several steps as one -/

namespace Progress

/-- How many files have been handled, and of how many. -/
def figures (p : Progress) : Nat × Nat := (p.processed, p.total)

/-- Counts of steps, the first of them with the given index, where each step is to count up to the same
number. -/
def spread (steps size : Nat) : Nat → List (List Nat) → List (Nat × Nat)
  | _, [] => []
  | index, counts :: rest =>
    counts.map (fun n => (size * index + n, size * steps)) ++ spread steps size (index + 1) rest

variable {steps size index : Nat} {counts : List (List Nat)} {f : Nat × Nat}

theorem mem_spread : f ∈ spread steps size index counts ↔
    ∃ i ns, counts[i]? = some ns ∧ ∃ n ∈ ns, (size * (index + i) + n, size * steps) = f := by
  induction counts generalizing index with
  | nil => simp [spread]
  | cons ns rest ih =>
    rw [spread, List.mem_append, List.mem_map, ih]
    constructor
    · rintro (⟨n, hn, rfl⟩ | ⟨i, ms, hms, n, hn, rfl⟩)
      · exact ⟨0, ns, rfl, n, hn, rfl⟩
      · exact ⟨i + 1, ms, hms, n, hn, by rw [Nat.add_right_comm, Nat.add_assoc]⟩
    · rintro ⟨i, ms, hms, n, hn, rfl⟩
      cases i with
      | zero =>
        obtain rfl := Option.some.inj hms
        exact Or.inl ⟨n, hn, rfl⟩
      | succ i => exact Or.inr ⟨i, ms, hms, n, hn, by rw [Nat.add_right_comm, Nat.add_assoc]⟩

/-- No step counts beyond the end of all steps. -/
theorem spread_within_iff (hsteps : counts.length ≤ steps) :
    (∀ f ∈ spread steps size 0 counts, f.1 ≤ f.2) ↔
      ∀ i ns, counts[i]? = some ns → ∀ n ∈ ns, n ≤ size * (steps - i) := by
  have hroom : ∀ i ns, counts[i]? = some ns → size * steps = size * i + size * (steps - i) := by
    intro i ns hns
    have hi := (List.getElem?_eq_some_iff.1 hns).1
    rw [← Nat.mul_add, Nat.add_sub_cancel' (by omega)]
  constructor
  · intro h i ns hns n hn
    have hle := h _ (mem_spread.2 ⟨i, ns, hns, n, hn, rfl⟩)
    simp only [Nat.zero_add, hroom i ns hns] at hle
    omega
  · intro h f hf
    obtain ⟨i, ns, hns, n, hn, rfl⟩ := mem_spread.1 hf
    have hle := h i ns hns n hn
    simp only [Nat.zero_add, hroom i ns hns]
    omega

/-- No step counts beyond where a later one counts from. -/
theorem spread_ascending_iff (steps index : Nat) (hcounts : ∀ ns ∈ counts, ns.Pairwise (· ≤ ·)) :
    (spread steps size index counts).Pairwise (·.1 ≤ ·.1) ↔
      ∀ i j ns ms, i < j → counts[i]? = some ns → counts[j]? = some ms →
        ∀ a ∈ ns, ∀ b ∈ ms, a ≤ size * (j - i) + b := by
  induction counts generalizing index with
  | nil => simp [spread]
  | cons ns rest ih =>
    have hfirst : (ns.map fun n => (size * index + n, size * steps)).Pairwise (·.1 ≤ ·.1) :=
      List.pairwise_map.2 ((hcounts ns (List.mem_cons_self ..)).imp fun h => Nat.add_le_add_left h _)
    have hlater : (∀ x ∈ ns.map (fun n => (size * index + n, size * steps)),
        ∀ y ∈ spread steps size (index + 1) rest, x.1 ≤ y.1) ↔
        ∀ j ms, rest[j]? = some ms → ∀ a ∈ ns, ∀ b ∈ ms, a ≤ size * (j + 1) + b := by
      have hgap : ∀ j, size * (index + 1 + j) = size * index + size * (j + 1) := by
        intro j
        rw [← Nat.mul_add, Nat.add_assoc, Nat.add_comm 1]
      constructor
      · intro h j ms hms a ha b hb
        have hle := h _ (List.mem_map_of_mem ha) _ (mem_spread.2 ⟨j, ms, hms, b, hb, rfl⟩)
        simp only [hgap] at hle
        omega
      · intro h x hx y hy
        obtain ⟨a, ha, rfl⟩ := List.mem_map.1 hx
        obtain ⟨j, ms, hms, b, hb, rfl⟩ := mem_spread.1 hy
        have hle := h j ms hms a ha b hb
        simp only [hgap]
        omega
    rw [spread, List.pairwise_append, ih _ fun ms hms => hcounts ms (List.mem_cons_of_mem _ hms), hlater]
    constructor
    · rintro ⟨-, hrest, hcross⟩ i j ms ks hij hms hks
      obtain ⟨j, rfl⟩ := Nat.exists_eq_succ_of_ne_zero (Nat.ne_zero_of_lt hij)
      cases i with
      | zero =>
        obtain rfl := Option.some.inj hms
        exact hcross j ks hks
      | succ i =>
        rw [Nat.succ_sub_succ]
        exact hrest i j ms ks (Nat.lt_of_succ_lt_succ hij) hms hks
    · refine fun h => ⟨hfirst, fun i j ms ks hij hms hks => ?_, fun j ms hms => ?_⟩
      · have hboth := h (i + 1) (j + 1) ms ks (Nat.succ_lt_succ hij) hms hks
        rwa [Nat.add_sub_add_right] at hboth
      · exact h 0 (j + 1) ns ms (Nat.succ_pos j) rfl hms

end Progress

def World.progress (w : World) : List Progress := w.events.filterMap Event.progress?

theorem Relay.filterMap_event? (relay : Relay) (codemod : Codemod) (events : List Event) :
    (events.filterMap (relay.event? codemod)).filterMap Event.progress? =
      (events.filterMap Event.progress?).map (relay.progress codemod) := by
  have hone : ∀ e : Event, (relay.event? codemod e).bind Event.progress? =
      e.progress?.map (relay.progress codemod) := by
    intro e
    cases e with
    | message m => cases m <;> cases relay <;> rfl
    | _ => rfl
  rw [List.filterMap_filterMap, List.map_filterMap]
  exact List.filterMap_congr fun e _ => hone e

namespace Run

variable {α β : Type} {x : Run α} {f : α → Run β} {w : World} {tools : Toolset} {codemod : Codemod}
  {flow : Flow} {arguments : ArgumentRecord} {Q : List Progress → Prop}

/-! ### Parts that tell of progress -/

/-- A part tells of progress that has the property, whether it succeeds or not. -/
def Tells (Q : List Progress → Prop) (part : Run α) : Prop :=
  ∀ w, ∃ ps, Q ps ∧ (leaves part w).progress = w.progress ++ ps

/-- A part does not tell of progress. -/
def Mute (part : Run α) : Prop :=
  ∀ w, (leaves part w).progress = w.progress

theorem leaves_bind (x : Run α) (f : α → Run β) (w : World) : leaves (x >>= f) w =
    match x w with
    | .ok a w' => leaves (f a) w'
    | .error _ w' => w' := by
  show leaves (EStateM.bind x f) w = _
  unfold leaves EStateM.bind
  cases x w <;> rfl

theorem leaves_congr {part part' : Run α} (h : part w = part' w) : leaves part w = leaves part' w := by
  unfold leaves
  rw [h]

theorem Mute.tells (h : Mute x) (hnil : Q []) : Tells Q x :=
  fun w => ⟨[], hnil, by rw [h w, List.append_nil]⟩

theorem Tells.mute (h : Tells (fun ps => ps = []) x) : Mute x := by
  intro w
  obtain ⟨ps, rfl, hps⟩ := h w
  rw [hps, List.append_nil]

/-- Nothing is told of before the second part. -/
theorem Mute.bind_tells (hx : Mute x) (hnil : Q [])
    (hf : ∀ a, (∃ w w', x w = .ok a w') → Tells Q (f a)) : Tells Q (x >>= f) := by
  intro w
  have hfirst := hx w
  rw [leaves_bind]
  unfold leaves at hfirst
  cases hw : x w with
  | ok a w' =>
    rw [hw] at hfirst
    rw [← hfirst]
    exact hf a ⟨w, w', hw⟩ w'
  | error e w' =>
    rw [hw] at hfirst
    exact ⟨[], hnil, by rw [hfirst, List.append_nil]⟩

theorem Mute.bind (hx : Mute x) (hf : ∀ a, Mute (f a)) : Mute (x >>= f) :=
  Tells.mute (hx.bind_tells (Q := fun ps => ps = []) rfl fun a _ => (hf a).tells rfl)

/-- Nothing is told of after the first part. -/
theorem progress_bind (hf : ∀ a, Mute (f a)) (w : World) :
    (leaves (x >>= f) w).progress = (leaves x w).progress := by
  rw [leaves_bind]
  unfold leaves
  cases x w with
  | ok a w' => exact hf a w'
  | error e w' => rfl

theorem Tells.bind_mute (hx : Tells Q x) (hf : ∀ a, Mute (f a)) : Tells Q (x >>= f) := by
  intro w
  rw [progress_bind hf]
  exact hx w

theorem mute_pure (a : α) : Mute (pure a : Run α) := fun _ => rfl

theorem mute_get : Mute (get : Run World) := fun _ => rfl

theorem mute_tree : Mute Run.tree := fun _ => rfl

theorem mute_modify {g : World → World} (hg : ∀ w, (g w).events = w.events) :
    Mute (modify g : Run Unit) := by
  intro w
  show (g w).progress = w.progress
  rw [World.progress, hg, World.progress]

theorem mute_require {ε : Type} (wrap : ε → RunError) (x : Except ε α) : Mute (require wrap x) := by
  cases x <;> exact fun _ => rfl

theorem progress_emit (events : List Event) (w : World) :
    (leaves (emit events) w).progress = w.progress ++ events.filterMap Event.progress? :=
  List.filterMap_append

theorem mute_emit {events : List Event} (h : ∀ e ∈ events, e.progress? = none) : Mute (emit events) := by
  intro w
  rw [progress_emit, List.filterMap_eq_nil_iff.2 h, List.append_nil]

theorem mute_transform (source : String) : Mute (transform tools codemod source) := by
  refine mute_get.bind fun w => (mute_require _ _).bind ?_
  rintro ⟨module, cache⟩
  refine (mute_modify ?_).bind fun _ => mute_pure _
  exact fun _ => rfl

theorem mute_filemod : Mute (filemod tools codemod) := by
  refine mute_get.bind fun w => (mute_require _ _).bind ?_
  rintro ⟨filemod, cache⟩
  refine (mute_modify ?_).bind fun _ => mute_pure _
  exact fun _ => rfl

theorem mute_selection (ruleSource : Option String) (included : Option (List String)) :
    Mute (selection flow codemod ruleSource included) :=
  mute_tree.bind fun _ => (mute_require _ _).bind fun _ => (mute_require _ _).bind fun _ => mute_pure _

/-! ### The counts of a step -/

/-- The progress counts upwards. -/
def Rising (ps : List Progress) : Prop := (ps.map Progress.processed).Pairwise (· ≤ ·)

theorem rising_nil : Rising [] := List.Pairwise.nil

/-- A pool counts its files one by one. -/
theorem rising_start {pool : Pool} {threads : Nat} {paths : List Path} {report : PoolReport}
    {events : List Event} (h : pool.start threads paths = .ok (report, events)) :
    Rising (events.filterMap Event.progress?) := by
  obtain ⟨workers, s, -, hs, -, -, rfl⟩ := Pool.start_reachable h
  rw [Rising, (Pool.reachable_invariant hs).1.figures.processed]
  exact List.pairwise_le_range' _

/-- A filemod counts the different files that it has handled. -/
theorem rising_notices (name : Option String) (t : FilemodTally) (notices : List Notice) :
    (∀ p ∈ (Notice.events name t notices).filterMap Event.progress?, t.handled.length ≤ p.processed) ∧
      Rising ((Notice.events name t notices).filterMap Event.progress?) := by
  induction notices generalizing t with
  | nil => exact ⟨by simp [Notice.events], rising_nil⟩
  | cons notice rest ih =>
    cases notice with
    | handled path =>
      have hmore : t.handled.length ≤ (t.add path).handled.length := by
        unfold FilemodTally.add
        dsimp only
        split <;> simp
      obtain ⟨hbound, hrising⟩ := ih (t.add path)
      rw [Notice.events, List.filterMap_cons]
      refine ⟨fun p hp => ?_, List.pairwise_cons.2 ⟨fun n hn => ?_, hrising⟩⟩
      · rcases List.mem_cons.1 hp with rfl | hp
        · exact hmore
        · exact hmore.trans (hbound p hp)
      · obtain ⟨p, hp, rfl⟩ := List.mem_map.1 hn
        exact hbound p hp
    | failed path message =>
      have hnone : (Event.failure name path message).filterMap Event.progress? = [] := rfl
      rw [Notice.events, List.filterMap_append, hnone, List.nil_append]
      exact ih t

theorem perFile_counts : Tells Rising (perFile tools codemod flow arguments) := by
  unfold perFile
  refine (mute_require _ _).bind_tells rising_nil fun source _ => ?_
  refine (mute_transform _).bind_tells rising_nil fun module _ => ?_
  refine (mute_selection _ _).bind_tells rising_nil ?_
  rintro ⟨patterns, matcher⟩ -
  refine mute_tree.bind_tells rising_nil fun tree _ => ?_
  have hnone : Mute (noFiles flow) := mute_emit (by simp [Event.console, Event.progress?])
  dsimp only
  split
  · exact hnone.tells rising_nil
  · exact hnone.tells rising_nil
  · have hannounce : Mute (announce patterns codemod flow) :=
      mute_emit (by simp [Event.console, Event.progress?])
    refine hannounce.bind_tells rising_nil fun _ _ => ?_
    refine (mute_require _ _).bind_tells rising_nil ?_
    rintro ⟨report, events⟩ ⟨w, w', hok⟩
    have hrising := rising_start (require_eq_ok.1 hok).1
    refine Tells.bind_mute (fun w => ⟨_, hrising, progress_emit events w⟩) fun _ => ?_
    exact mute_emit (by simp [Event.progress?])

theorem wholeTree_counts : Tells Rising (wholeTree tools codemod flow arguments) := by
  unfold wholeTree
  refine (mute_require _ _).bind_tells rising_nil fun _ _ => ?_
  refine mute_filemod.bind_tells rising_nil fun filemod _ => ?_
  refine (mute_selection _ _).bind_tells rising_nil ?_
  rintro ⟨patterns, matcher⟩ -
  refine mute_tree.bind_tells rising_nil fun tree _ => ?_
  refine (mute_require _ _).bind_tells rising_nil fun paths _ => ?_
  split
  · exact (mute_emit (by simp [Event.console, Event.progress?])).tells rising_nil
  · have hannounce : Mute (announce patterns codemod flow) :=
      mute_emit (by simp [Event.console, Event.progress?])
    refine hannounce.bind_tells rising_nil fun _ _ => ?_
    dsimp only
    generalize filemod.outcome tree flow.target (some paths) arguments flow.format = outcome
    have hrising := (rising_notices codemod.name { total := paths.length } outcome.notices).2
    refine Mute.bind_tells (mute_modify ?_) rising_nil fun _ _ => ?_
    · exact fun _ => rfl
    refine Tells.bind_mute (fun w => ⟨_, hrising, progress_emit _ w⟩) fun _ => ?_
    refine (mute_require _ _).bind fun _ => (mute_emit ?_).bind fun _ => mute_emit ?_
    · simp [Event.progress?]
    · simp [Event.progress?]

/-- **A codemod that is no recipe counts upwards**, also where it fails. -/
theorem single_counts : Tells Rising (single tools codemod flow arguments) := by
  unfold single
  split
  · exact Mute.tells (fun _ => rfl) rising_nil
  · exact (mute_pure ()).tells rising_nil
  · exact wholeTree_counts
  all_goals exact perFile_counts

/-! ### The counts of a dry run -/

/-- The progress that a part tells of on its own. -/
def shown (part : Run α) (w : World) : List Progress :=
  (leaves part { w with events := [] }).progress

theorem rising_shown : Rising (shown (single tools codemod flow arguments) w) := by
  have hcounts : Tells Rising (single tools codemod flow arguments) := single_counts
  obtain ⟨ps, hrising, hps⟩ := hcounts { w with events := [] }
  rwa [shown, hps]

theorem progress_capturing (relay : Relay) (part : Run Unit) (w : World) :
    (leaves (capturing (relay.event? codemod) part) w).progress =
      w.progress ++ (shown part w).map (relay.progress codemod) := by
  unfold leaves shown capturing leaves World.progress
  cases part { w with events := [] } <;>
    exact List.filterMap_append.trans (congrArg _ (relay.filterMap_event? codemod _))

theorem mute_applyWet (c : FileCommand) : Mute (applyWet c) := by
  intro w
  unfold leaves applyWet
  rcases c.applyWet w.tree with ⟨_ | _, t⟩ <;> rfl

theorem mute_applyWets (commands : List FileCommand) : Mute (commands.forM applyWet) := by
  induction commands with
  | nil => exact mute_pure _
  | cons c rest ih => exact (mute_applyWet c).bind fun _ => ih

/-- A step shows its own progress as the relay says. -/
theorem progress_step (tools : Toolset) (flow : Flow) (arguments : ArgumentRecord) (relay : Relay)
    (codemod : Codemod) (w : World) :
    (leaves (step tools flow arguments relay codemod) w).progress =
      w.progress ++ (shown (single tools codemod flow arguments) w).map (relay.progress codemod) := by
  unfold step
  rw [progress_bind fun commands => (mute_applyWets commands).bind fun _ => mute_pure _,
    progress_capturing]

/-- How far the steps of a dry run count, each on its own; after a step that fails there is none. -/
def counts (tools : Toolset) (flow : Flow) (arguments : ArgumentRecord) (steps size : Nat) :
    Nat → World → List Codemod → List (List Nat)
  | _, _, [] => []
  | index, w, codemod :: rest =>
    (shown (single tools codemod flow arguments) w).map Progress.processed ::
      match step tools flow arguments (.simulate index steps size) codemod w with
      | .ok _ w' => counts tools flow arguments steps size (index + 1) w' rest
      | .error _ _ => []

variable {steps size : Nat}

theorem length_counts (index : Nat) (w : World) (codemods : List Codemod) :
    (counts tools flow arguments steps size index w codemods).length ≤ codemods.length := by
  induction codemods generalizing index w with
  | nil => exact Nat.le_refl 0
  | cons codemod rest ih =>
    rw [counts, List.length_cons, List.length_cons]
    refine Nat.succ_le_succ ?_
    split
    · exact ih _ _
    · exact Nat.zero_le _

theorem pairwise_counts {index : Nat} {codemods : List Codemod} {ns : List Nat}
    (hns : ns ∈ counts tools flow arguments steps size index w codemods) : ns.Pairwise (· ≤ ·) := by
  induction codemods generalizing index w with
  | nil => cases hns
  | cons codemod rest ih =>
    rw [counts] at hns
    rcases List.mem_cons.1 hns with rfl | hns
    · exact rising_shown
    · split at hns
      · exact ih hns
      · cases hns

/-- **The steps of a dry run show their counts as one.** -/
theorem progress_drySteps (index : Nat) (w : World) (codemods : List Codemod) :
    (leaves (drySteps tools flow arguments steps size index codemods) w).progress.map Progress.figures =
      w.progress.map Progress.figures ++ Progress.spread steps size index
        (counts tools flow arguments steps size index w codemods) := by
  induction codemods generalizing index w with
  | nil => exact (List.append_nil _).symm
  | cons codemod rest ih =>
    have hstep := progress_step tools flow arguments (.simulate index steps size) codemod w
    have hfigures : ∀ ps : List Progress,
        (ps.map ((Relay.simulate index steps size).progress codemod)).map Progress.figures =
          (ps.map Progress.processed).map fun n => (size * index + n, size * steps) := by
      intro ps
      rw [List.map_map, List.map_map]
      rfl
    rw [drySteps, leaves_bind, counts, Progress.spread, ← hfigures, ← List.append_assoc,
      ← List.map_append]
    unfold leaves at hstep
    cases hok : step tools flow arguments (.simulate index steps size) codemod w with
    | ok commands w' =>
      rw [hok] at hstep
      dsimp only
      rw [progress_bind fun _ => mute_pure _, ih, hstep]
    | error e w' =>
      rw [hok] at hstep
      dsimp only
      rw [hstep, Progress.spread, List.append_nil]

/-- How many files a dry run copies, and how far the steps count on the copy. -/
def dryCounts (tools : Toolset) (recipe : Descriptor) (flow : Flow) (arguments : ArgumentRecord)
    (w : World) : Nat × List (List Nat) :=
  match chosen w.tree flow recipe.toCodemod none none with
  | .ok (path :: rest) =>
    let (snapshot, scratch) := Snapshot.capture w.tree (∅, .empty) (path :: rest)
    (snapshot.size, counts tools flow arguments recipe.steps.length snapshot.size 0
      { w with tree := scratch, events := [] } recipe.steps)
  | _ => (0, [])

theorem progress_onScratch (scratch : FileTree) (part : Run α) (w : World) :
    (leaves (onScratch scratch part) w).progress =
      (leaves part { w with tree := scratch }).progress := by
  unfold leaves onScratch
  cases part { w with tree := scratch } <;> rfl

theorem length_dryCounts {recipe : Descriptor} :
    (dryCounts tools recipe flow arguments w).2.length ≤ recipe.steps.length := by
  unfold dryCounts
  split
  · exact length_counts _ _ _
  · exact Nat.zero_le _

theorem pairwise_dryCounts {recipe : Descriptor} {ns : List Nat}
    (hns : ns ∈ (dryCounts tools recipe flow arguments w).2) : ns.Pairwise (· ≤ ·) := by
  unfold dryCounts at hns
  split at hns
  · exact pairwise_counts hns
  · cases hns

theorem figures_dryRecipe (tools : Toolset) (recipe : Descriptor) (flow : Flow)
    (arguments : ArgumentRecord) (w : World) :
    (shown (dryRecipe tools recipe flow arguments) w).map Progress.figures =
      Progress.spread recipe.steps.length (dryCounts tools recipe flow arguments w).1 0
        (dryCounts tools recipe flow arguments w).2 := by
  have heq := dryRecipe_eq tools recipe flow arguments { w with events := [] }
  unfold shown dryCounts
  cases hchosen : chosen w.tree flow recipe.toCodemod none none with
  | error e =>
    simp only [hchosen] at heq
    have hfails : leaves (dryRecipe tools recipe flow arguments) { w with events := [] } =
        { w with events := [] } := by
      unfold leaves
      rw [heq]
    rw [hfails]
    rfl
  | ok paths =>
    cases paths with
    | nil =>
      simp only [hchosen] at heq
      rw [leaves_congr heq, noFiles, progress_emit]
      rfl
    | cons path rest =>
      simp only [hchosen] at heq
      rw [leaves_congr heq, progress_bind, progress_onScratch, progress_drySteps]
      · rfl
      · refine fun _ => (mute_emit ?_).bind fun _ => mute_emit ?_
        · simp [Event.progress?]
        · simp [Event.progress?]

/-- **The progress of a dry run** shows the counts of its steps as one. It stays within its total exactly
if no step counts further than there are files for it and the steps after it, and it does not fall exactly
if no step counts further than a later one counts from. Both are so if no step counts more files than
were copied. -/
theorem dryRecipe_progress (tools : Toolset) (recipe : Descriptor) (flow : Flow)
    (arguments : ArgumentRecord) (w : World) :
    let told := shown (dryRecipe tools recipe flow arguments) w
    let size := (dryCounts tools recipe flow arguments w).1
    let counts := (dryCounts tools recipe flow arguments w).2
    told.map Progress.figures = Progress.spread recipe.steps.length size 0 counts ∧
      ((∀ p ∈ told, p.processed ≤ p.total) ↔
        ∀ i ns, counts[i]? = some ns → ∀ n ∈ ns, n ≤ size * (recipe.steps.length - i)) ∧
      (Rising told ↔
        ∀ i j ns ms, i < j → counts[i]? = some ns → counts[j]? = some ms →
          ∀ a ∈ ns, ∀ b ∈ ms, a ≤ size * (j - i) + b) ∧
      ((∀ ns ∈ counts, ∀ n ∈ ns, n ≤ size) → (∀ p ∈ told, p.processed ≤ p.total) ∧ Rising told) := by
  intro told size counts
  have hfigures := figures_dryRecipe tools recipe flow arguments w
  have hlength : counts.length ≤ recipe.steps.length := length_dryCounts
  have hwithin : (∀ p ∈ told, p.processed ≤ p.total) ↔
      ∀ i ns, counts[i]? = some ns → ∀ n ∈ ns, n ≤ size * (recipe.steps.length - i) := by
    rw [← Progress.spread_within_iff hlength, ← hfigures]
    simp [Progress.figures, told]
  have hrising : Rising told ↔
      ∀ i j ns ms, i < j → counts[i]? = some ns → counts[j]? = some ms →
        ∀ a ∈ ns, ∀ b ∈ ms, a ≤ size * (j - i) + b := by
    rw [← Progress.spread_ascending_iff recipe.steps.length 0 fun ns hns => pairwise_dryCounts hns,
      ← hfigures, Rising, List.pairwise_map, List.pairwise_map]
    rfl
  refine ⟨hfigures, hwithin, hrising, fun hfew => ⟨hwithin.2 ?_, hrising.2 ?_⟩⟩
  · intro i ns hns n hn
    have hi := (List.getElem?_eq_some_iff.1 hns).1
    have hroom : 0 < recipe.steps.length - i := by omega
    exact (hfew ns (List.mem_of_getElem? hns) n hn).trans (Nat.le_mul_of_pos_right _ hroom)
  · intro i j ns ms hij hns hms a ha b hb
    have hle := (hfew ns (List.mem_of_getElem? hns) a ha).trans
      (Nat.le_mul_of_pos_right size (Nat.sub_pos_of_lt hij))
    omega

/-- A transform that makes two more files, and one that leaves all as it is. -/
def growingTools : Toolset where
  host := .builtin {
    transforms := [
      ((⟨"/keep.js"⟩ : Path).route, fun _ => { ending := .returned none }),
      ((⟨"/grow.js"⟩ : Path).route, fun _ =>
        { created := [(⟨"/p/b.ts"⟩, ""), (⟨"/p/c.ts"⟩, "")], ending := .returned none })] }

/-- One file is copied, and the first step makes three of it: the second step counts beyond the end, and
the third begins below that. -/
theorem dryRecipe_progress_astray :
    let step (entry : String) : Codemod := { engine := .jscodeshift, entryPath := ⟨entry⟩ }
    let recipe : Descriptor :=
      { engine := .recipe, steps := [step "/grow.js", step "/keep.js", step "/keep.js"] }
    let told := shown (dryRecipe growingTools recipe { target := ⟨"/p"⟩ } [])
      { tree := .ofFiles [(⟨"/p/a.ts"⟩, "x")] }
    told.map Progress.figures = [(1, 3), (2, 3), (3, 3), (4, 3), (3, 3), (4, 3), (5, 3)] ∧
      (∃ p ∈ told, p.total < p.processed) ∧ ¬ Rising told := by
  intro step recipe told
  have htold : told.map Progress.figures =
      [(1, 3), (2, 3), (3, 3), (4, 3), (3, 3), (4, 3), (5, 3)] := by decide +kernel
  refine ⟨htold, ?_, fun hrising => ?_⟩
  · have hfourth : (4, 3) ∈ told.map Progress.figures := htold ▸ by decide
    obtain ⟨p, hp, hfigures⟩ := List.mem_map.1 hfourth
    obtain ⟨hprocessed, htotal⟩ := Prod.mk.inj hfigures
    exact ⟨p, hp, by omega⟩
  · have hcounts : told.map Progress.processed = (told.map Progress.figures).map Prod.fst := by
      rw [List.map_map]
      rfl
    rw [Rising, hcounts, htold] at hrising
    revert hrising
    decide

end Run

end BulkEdit
