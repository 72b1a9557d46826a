import BulkEdit.Proofs.Glob.Depth
import BulkEdit.Proofs.Path.Join
import BulkEdit.Proofs.Path.Relative
import BulkEdit.Proofs.Run.Seed
import BulkEdit.Proofs.Selection.Priority

/-!
# How the target is spelled

The walk from a target and its ignore file depend on the place that the target names only. What is taken off
the front of the paths that are found is the target as it is written; a target with a detour is the front
of none of them, so its patterns look at whole paths only. Two spellings of one target therefore fail
alike, and where they succeed they select the same paths if both are direct or neither is. Otherwise they do
exactly if no file below the target makes the patterns waver, that is, shows them something else as a whole
than it does as it is seen from the target (`chosen_respelled`). Patterns for any depth do not waver.
-/

namespace BulkEdit

variable {flow : Flow} {codemod : Codemod} {t : FileTree} {ruleSource : Option String}
  {included : Option (List String)} {resolved : PatternSet} {m : Matcher} {r : Route} {target : Path}

/-! ### What the patterns look at -/

namespace Matcher

/-- Whether one of the patterns matches the text of a path. -/
def MatchedBy (patterns : List String) (p : Path) : Prop :=
  ∃ q ∈ patterns, ∃ tokens, Glob.parse q = .ok tokens ∧ Glob.isMatch tokens p.text = true

/-- Patterns hit what they match as a whole or as it is seen from the root. -/
theorem exists_hits_iff {root : Path} {patterns : List String} {p : Path} :
    (∃ q ∈ patterns, Hits root q p) ↔
      MatchedBy patterns ((p.relativeTo? root).getD p) ∨ MatchedBy patterns p := by
  simp only [MatchedBy, Hits, and_or_left, exists_or]

/-- Below a direct target, patterns look at the rest of the route and at the whole. -/
theorem exists_hits_direct (hr : r.IsPlace) (hbelow : target.route <+: r) (hdirect : target.IsDirect)
    (patterns : List String) : (∃ q ∈ patterns, Hits target q r.toPath) ↔
      MatchedBy patterns (Route.toPath (r.drop target.route.length)) ∨ MatchedBy patterns r.toPath := by
  obtain ⟨more, rfl⟩ := hbelow
  rw [exists_hits_iff, hr.relativeTo?_toPath hdirect, List.drop_left, Option.getD_some]

/-- Below another target, patterns look at the whole only. -/
theorem exists_hits_roundabout (hr : r.IsPlace) (hdirect : ¬target.IsDirect) (patterns : List String) :
    (∃ q ∈ patterns, Hits target q r.toPath) ↔ MatchedBy patterns r.toPath := by
  rw [exists_hits_iff, hr.relativeTo?_eq_none hdirect, Option.getD_none, or_self]

/-- Patterns for any depth match a path below a place if they match the rest of the route. -/
theorem MatchedBy.of_below {patterns : List String}
    (hdeep : ∀ q ∈ patterns, Text.startsWith q "**/" = true) (hr : r.IsPlace) {base : Route}
    (hbelow : base <+: r) (hother : r ≠ base)
    (h : MatchedBy patterns (Route.toPath (r.drop base.length))) : MatchedBy patterns r.toPath := by
  obtain ⟨more, rfl⟩ := hbelow
  obtain ⟨q, hq, tokens, hparse, hmatch⟩ := h
  rw [List.drop_left] at hmatch
  refine ⟨q, hq, tokens, hparse, ?_⟩
  by_cases hbase : base = []
  · rwa [hbase]
  · have hmore : more ≠ [] := by
      rintro rfl
      exact hother (List.append_nil base)
    obtain ⟨above, habove⟩ := hr.toList_text_append hbase hmore
    exact Glob.isMatch_of_below (hdeep q hq) hparse habove hmatch

theorem accepts_direct (hm : ofPatterns target resolved = .ok m) (hr : r.IsPlace)
    (hbelow : target.route <+: r) (hdirect : target.IsDirect) : m.accepts r.toPath = true ↔
      (MatchedBy resolved.included (Route.toPath (r.drop target.route.length)) ∨
          MatchedBy resolved.included r.toPath) ∧
        ¬(MatchedBy resolved.excluded (Route.toPath (r.drop target.route.length)) ∨
          MatchedBy resolved.excluded r.toPath) := by
  rw [accepts_iff hm, ← exists_hits_direct hr hbelow hdirect, ← exists_hits_direct hr hbelow hdirect]
  simp only [not_exists, not_and]

theorem accepts_roundabout (hm : ofPatterns target resolved = .ok m) (hr : r.IsPlace)
    (hdirect : ¬target.IsDirect) : m.accepts r.toPath = true ↔
      MatchedBy resolved.included r.toPath ∧ ¬MatchedBy resolved.excluded r.toPath := by
  rw [accepts_iff hm, ← exists_hits_roundabout hr hdirect, ← exists_hits_roundabout hr hdirect]
  simp only [not_exists, not_and]

end Matcher

open Matcher (MatchedBy)

namespace PatternSet

/-- Whether the patterns waver at a place below a root: nothing is excluded by the whole path, and the path
is either included as a whole and excluded as it is seen from the root, or not included as a whole but
included, and not excluded, as it is seen from the root. -/
def Wavers (resolved : PatternSet) (root r : Route) : Prop :=
  ¬MatchedBy resolved.excluded r.toPath ∧
    (MatchedBy resolved.included r.toPath ∧
        MatchedBy resolved.excluded (Route.toPath (r.drop root.length)) ∨
      ¬MatchedBy resolved.included r.toPath ∧
        MatchedBy resolved.included (Route.toPath (r.drop root.length)) ∧
          ¬MatchedBy resolved.excluded (Route.toPath (r.drop root.length)))

/-- Where the patterns do not waver it is the same whether they look at the whole only. -/
theorem not_wavers_iff {root : Route} : ¬resolved.Wavers root r ↔
    (MatchedBy resolved.included r.toPath ∧ ¬MatchedBy resolved.excluded r.toPath ↔
      (MatchedBy resolved.included (Route.toPath (r.drop root.length)) ∨
          MatchedBy resolved.included r.toPath) ∧
        ¬(MatchedBy resolved.excluded (Route.toPath (r.drop root.length)) ∨
          MatchedBy resolved.excluded r.toPath)) := by
  unfold Wavers
  by_cases hout : MatchedBy resolved.excluded r.toPath
  · simp [hout]
  · by_cases hin : MatchedBy resolved.included r.toPath
    · simp [hout, hin]
    · simp [hout, hin]

/-- Patterns for any depth do not waver below a place. -/
theorem not_wavers_of_anyDepth {root : Route}
    (hdeep : ∀ q ∈ resolved.included ++ resolved.excluded, Text.startsWith q "**/" = true)
    (hr : r.IsPlace) (hbelow : root <+: r) (hother : r ≠ root) : ¬resolved.Wavers root r := by
  obtain ⟨hincluded, hexcluded⟩ := List.forall_mem_append.1 hdeep
  rintro ⟨hfree, ⟨-, hmatch⟩ | ⟨hmissed, hmatch, -⟩⟩
  · exact hfree (hmatch.of_below hexcluded hr hbelow hother)
  · exact hmissed (hmatch.of_below hincluded hr hbelow hother)

theorem build_respelled (hsame : target.route = flow.target.route) :
    build t { flow with target } codemod ruleSource included = build t flow codemod ruleSource included := by
  have hname : (Component.name ".gitignore").IsName := ⟨_, rfl, by decide⟩
  have hignored : ignored t target = ignored t flow.target := by
    unfold ignored FileTree.read
    rw [Path.route_join_name hname, Path.route_join_name hname, hsame]
    cases t.files[flow.target.route ++ [.name ".gitignore"]]? <;> rfl
  unfold build
  rw [hignored]
  rfl

end PatternSet

/-! ### Two spellings of one target -/

namespace Matcher

theorem ofPatterns_respelled (root target : Path) (resolved : PatternSet) :
    ofPatterns target resolved = (ofPatterns root resolved).map fun m => { m with root := target } := by
  unfold ofPatterns build
  cases compile resolved.included with
  | error e => rfl
  | ok included => cases compile resolved.excluded <;> rfl

/-- **Two spellings accept the same** of what stands below the target if both are direct or neither is, and
otherwise where the patterns do not waver. -/
theorem accepts_respelled {root : Path} (hm : ofPatterns root resolved = .ok m)
    (hsame : target.route = root.route) (hr : r.IsPlace) (hbelow : root.route <+: r) :
    accepts { m with root := target } r.toPath = m.accepts r.toPath ↔
      (target.IsDirect ↔ root.IsDirect) ∨ ¬resolved.Wavers root.route r := by
  have hm' : ofPatterns target resolved = .ok { m with root := target } := by
    rw [ofPatterns_respelled root, hm]
    rfl
  have hbelow' : target.route <+: r := hsame ▸ hbelow
  rw [Bool.eq_iff_iff, PatternSet.not_wavers_iff]
  by_cases htarget : target.IsDirect <;> by_cases hroot : root.IsDirect
  · rw [accepts_direct hm' hr hbelow' htarget, accepts_direct hm hr hbelow hroot, hsame]
    exact iff_of_true Iff.rfl (.inl (iff_of_true htarget hroot))
  · have hother : ¬(target.IsDirect ↔ root.IsDirect) := fun h => hroot (h.1 htarget)
    rw [accepts_direct hm' hr hbelow' htarget, accepts_roundabout hm hr hroot, hsame, or_iff_right hother]
    exact Iff.comm
  · have hother : ¬(target.IsDirect ↔ root.IsDirect) := fun h => htarget (h.2 hroot)
    rw [accepts_roundabout hm' hr htarget, accepts_direct hm hr hbelow hroot, or_iff_right hother]
  · rw [accepts_roundabout hm' hr htarget, accepts_roundabout hm hr hroot]
    exact iff_of_true Iff.rfl (.inl (iff_of_false htarget hroot))

end Matcher

theorem FileTree.walk_respelled (hsame : target.route = flow.target.route) :
    t.walk target = t.walk flow.target := by
  unfold walk Path.normalize
  rw [hsame]

namespace Run

theorem chosen_eq_respelled (hsame : target.route = flow.target.route) :
    chosen t { flow with target } codemod ruleSource included =
      match PatternSet.build t flow codemod ruleSource included with
      | .error e => .error (.config e)
      | .ok patterns =>
        match Matcher.ofPatterns flow.target patterns with
        | .error e => .error (.config e)
        | .ok m => (Matcher.collect { m with root := target } t flow.target).mapError .tree := by
  rw [chosen_eq, PatternSet.build_respelled hsame]
  cases PatternSet.build t flow codemod ruleSource included with
  | error e => rfl
  | ok patterns =>
    dsimp only
    rw [Matcher.ofPatterns_respelled flow.target]
    cases Matcher.ofPatterns flow.target patterns with
    | error e => rfl
    | ok m =>
      unfold Matcher.collect
      rw [← FileTree.walk_respelled hsame]
      rfl

theorem collect_eq_ok {root : Path} {paths : List Path} : m.collect t root = .ok paths ↔
    (root.route ∈ t.folders ∨ root.route ∈ t.files) ∧
      paths = ((t.filesBelow root.route).map Route.toPath).filter m.accepts := by
  unfold Matcher.collect FileTree.walk
  by_cases hthere : root.route ∈ t.folders ∨ root.route ∈ t.files
  · rw [if_pos hthere, and_iff_right hthere]
    exact ⟨fun h => (Except.ok.inj h).symm, fun h => congrArg Except.ok h.symm⟩
  · rw [if_neg hthere]
    refine iff_of_false (fun h => ?_) fun h => hthere h.1
    cases h

theorem filter_eq_filter_iff {l : List Route} {f g : Path → Bool} :
    (l.map Route.toPath).filter f = (l.map Route.toPath).filter g ↔ ∀ r ∈ l, f r.toPath = g r.toPath := by
  constructor
  · intro h r hr
    have hmem := List.mem_map_of_mem (f := Route.toPath) hr
    have hiff : r.toPath ∈ (l.map Route.toPath).filter f ↔ r.toPath ∈ (l.map Route.toPath).filter g := by
      rw [h]
    rw [List.mem_filter, List.mem_filter, and_iff_right hmem, and_iff_right hmem] at hiff
    exact Bool.eq_iff_iff.2 hiff
  · intro h
    refine List.filter_congr fun p hp => ?_
    obtain ⟨r, hr, rfl⟩ := List.mem_map.1 hp
    exact h r hr

/-- **How the target is spelled** does not decide whether paths are selected, and where they are it decides
which ones only if one spelling is direct and the other one is not: then the same paths are selected exactly
if the patterns waver at none of the files below the target. They do not if they are all for any depth,
and no file stands at the target itself. -/
theorem chosen_respelled (t : FileTree) (flow : Flow) (target : Path) (codemod : Codemod)
    (ruleSource : Option String) (included : Option (List String)) (hbuilt : t.Built)
    (hsame : target.normalize = flow.target.normalize) :
    (∀ e, chosen t { flow with target } codemod ruleSource included = .error e ↔
        chosen t flow codemod ruleSource included = .error e) ∧
      ∀ resolved paths, PatternSet.build t flow codemod ruleSource included = .ok resolved →
        chosen t flow codemod ruleSource included = .ok paths →
          (chosen t { flow with target } codemod ruleSource included = .ok paths ↔
            (target.IsDirect ↔ flow.target.IsDirect) ∨
              ∀ r ∈ t.filesBelow flow.target.route, ¬resolved.Wavers flow.target.route r) ∧
          ((∀ q ∈ resolved.included ++ resolved.excluded, Text.startsWith q "**/" = true) →
            flow.target.route ∉ t.files →
              chosen t { flow with target } codemod ruleSource included = .ok paths) := by
  have hroute : target.route = flow.target.route := by
    have h := congrArg Path.route hsame
    unfold Path.normalize at h
    rwa [target.route_isPlace.route_toPath, flow.target.route_isPlace.route_toPath] at h
  have hplace : ∀ r ∈ t.filesBelow flow.target.route, r.IsPlace ∧ flow.target.route <+: r := fun r hr =>
    ⟨hbuilt.placed.files r (FileTree.mem_filesBelow.1 hr).1, (FileTree.mem_filesBelow.1 hr).2⟩
  refine ⟨fun e => ?_, fun resolved paths hbuild hchosen => ?_⟩
  · rw [chosen_eq_respelled hroute, chosen_eq]
    cases PatternSet.build t flow codemod ruleSource included with
    | error e => rfl
    | ok patterns =>
      dsimp only
      cases Matcher.ofPatterns flow.target patterns with
      | error e => rfl
      | ok m =>
        unfold Matcher.collect
        cases t.walk flow.target with
        | error e => rfl
        | ok routes => exact iff_of_false (fun h => nomatch h) fun h => nomatch h
  · obtain ⟨_, m, hbuild', hm, hcollect⟩ := chosen_eq_ok.1 hchosen
    obtain rfl := Except.ok.inj (hbuild.symm.trans hbuild')
    obtain ⟨hthere, hpaths⟩ := collect_eq_ok.1 hcollect
    have hrespelled : chosen t { flow with target } codemod ruleSource included = .ok paths ↔
        (target.IsDirect ↔ flow.target.IsDirect) ∨
          ∀ r ∈ t.filesBelow flow.target.route, ¬resolved.Wavers flow.target.route r := by
      have hother := collect_eq_ok.2 ⟨hthere, Eq.refl (List.filter
        (Matcher.accepts { m with root := target }) ((t.filesBelow flow.target.route).map Route.toPath))⟩
      rw [chosen_eq_respelled hroute, hbuild]
      dsimp only
      rw [hm]
      dsimp only
      rw [hother, Except.mapError, Except.ok.injEq, hpaths, filter_eq_filter_iff]
      simp only [← forall_or_left]
      refine forall₂_congr fun r hr => ?_
      exact Matcher.accepts_respelled hm hroute (hplace r hr).1 (hplace r hr).2
    refine ⟨hrespelled, fun hdeep hfolder => hrespelled.2 (.inr fun r hr => ?_)⟩
    refine PatternSet.not_wavers_of_anyDepth hdeep (hplace r hr).1 (hplace r hr).2 ?_
    rintro rfl
    exact hfolder (FileTree.mem_filesBelow.1 hr).1

/-- A script, and one that the ignore file names. -/
def codeTree : FileTree :=
  .ofFiles [(⟨"/code/src/a.ts"⟩, "a"), (⟨"/code/gen/b.ts"⟩, "b"), (⟨"/code/.gitignore"⟩, "gen/")]

/-- The default patterns and the ignored ones are for any depth, so a detour selects the same script. -/
theorem chosen_respelled_detour :
    (⟨"/x/../code"⟩ : Path).normalize = (⟨"/code"⟩ : Path).normalize ∧
      chosen codeTree { target := ⟨"/code"⟩ } { engine := .jscodeshift } none none =
        .ok [⟨"/code/src/a.ts"⟩] ∧
      chosen codeTree { target := ⟨"/x/../code"⟩ } { engine := .jscodeshift } none none =
        .ok [⟨"/code/src/a.ts"⟩] := by
  have hsame : (⟨"/x/../code"⟩ : Path).normalize = (⟨"/code"⟩ : Path).normalize := by decide +kernel
  have hbuild : PatternSet.build codeTree { target := ⟨"/code"⟩ } { engine := .jscodeshift } none none =
      .ok ⟨PatternSet.scriptPatterns, ["**/node_modules/**/*.*", "**/dist/**/*.*", "**/build/**/*.*",
        "**/out/**/*.*", "**/.next/**/*.*", "**/coverage/**/*.*", "**/*.min.js", "**/.git/**/*.*",
        "**/.svn/**/*.*", "**/.hg/**/*.*", "**/gen/**/*.*"],
        "Using default include patterns for the codemod engine"⟩ := by
    decide +kernel
  have hchosen : chosen codeTree { target := ⟨"/code"⟩ } { engine := .jscodeshift } none none =
      .ok [⟨"/code/src/a.ts"⟩] := by
    decide +kernel
  have hdetour := (chosen_respelled codeTree { target := ⟨"/code"⟩ } ⟨"/x/../code"⟩
    { engine := .jscodeshift } none none (.ofFiles _) hsame).2 _ _ hbuild hchosen
  exact ⟨hsame, hchosen, hdetour.2 (by decide) (by decide +kernel)⟩

/-- A pattern that is taken from the target finds nothing from another spelling of it. -/
theorem chosen_respelled_anchored :
    (⟨"./code"⟩ : Path).normalize = (⟨"code"⟩ : Path).normalize ∧
      chosen (.ofFiles [(⟨"code/a.ts"⟩, "x")]) { target := ⟨"code"⟩, included := some ["./*.ts"] }
        { engine := .jscodeshift } none none = .ok [⟨"code/a.ts"⟩] ∧
      chosen (.ofFiles [(⟨"code/a.ts"⟩, "x")]) { target := ⟨"./code"⟩, included := some ["./*.ts"] }
        { engine := .jscodeshift } none none = .ok [] := by
  decide +kernel

end Run

end BulkEdit
