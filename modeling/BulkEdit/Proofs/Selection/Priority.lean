import BulkEdit.Selection.Matcher
import Mathlib.Data.List.Basic

/-!
# Which patterns give way to which

A path is selected exactly if one of the included patterns hits it and none of the excluded ones does
(`accepts_iff`). What the user excludes stays excluded unless two things come together: the same pattern is
also one of the default or of the ignored ones, and it is asked for. It is then treated as one of those, and
gives way (`user_exclusions_settled`). What the user includes is all that is included, except that the
patterns that a filemod declares are added to it (`user_inclusions_first`).
-/

namespace BulkEdit

theorem mem_dedup {p : String} {patterns : List String} : p ∈ dedup patterns ↔ p ∈ patterns := by
  have hfold : ∀ kept : List String,
      p ∈ patterns.foldl (fun kept p => if kept.contains p then kept else kept ++ [p]) kept ↔
        p ∈ kept ∨ p ∈ patterns := by
    induction patterns with
    | nil => simp
    | cons q rest ih =>
      intro kept
      rw [List.foldl_cons, ih]
      by_cases hq : q ∈ kept
      · have hcontains : kept.contains q = true := by simpa using hq
        rw [if_pos hcontains, List.mem_cons]
        constructor
        · rintro (h | h)
          · exact .inl h
          · exact .inr (.inr h)
        · rintro (h | rfl | h)
          · exact .inl h
          · exact .inl hq
          · exact .inr h
      · have hcontains : ¬kept.contains q = true := by simpa using hq
        rw [if_neg hcontains, List.mem_append, List.mem_singleton, List.mem_cons, or_assoc]
  simpa [dedup] using hfold []

/-! ### What a matcher accepts -/

namespace Matcher

/-- Whether a pattern matches a path, as it is seen from a root or as a whole. -/
def Hits (root : Path) (pattern : String) (p : Path) : Prop :=
  ∃ tokens, Glob.parse pattern = .ok tokens ∧
    (Glob.isMatch tokens ((p.relativeTo? root).getD p).text = true ∨ Glob.isMatch tokens p.text = true)

instance (root : Path) (pattern : String) (p : Path) : Decidable (Hits root pattern p) :=
  match h : Glob.parse pattern with
  | .ok tokens => decidable_of_iff
      (Glob.isMatch tokens ((p.relativeTo? root).getD p).text = true ∨ Glob.isMatch tokens p.text = true)
      (by simp [Hits, h])
  | .error _ => isFalse (by simp [Hits, h])

theorem compileOne_eq_ok {pattern : String} {tokens : List Glob.Token} :
    compileOne pattern = .ok tokens ↔ Glob.parse pattern = .ok tokens := by
  unfold compileOne
  cases Glob.parse pattern <;> simp

theorem mem_of_compile {patterns : List String} {globs : List (List Glob.Token)}
    (h : compile patterns = .ok globs) (tokens : List Glob.Token) :
    tokens ∈ globs ↔ ∃ pattern ∈ patterns, Glob.parse pattern = .ok tokens := by
  induction patterns generalizing globs with
  | nil =>
    obtain rfl := Except.ok.inj h
    simp
  | cons pattern rest ih =>
    rw [compile] at h
    split at h
    · cases h
    · rename_i first hfirst
      split at h
      · cases h
      · rename_i more hmore
        obtain rfl := Except.ok.inj h
        rw [compileOne_eq_ok] at hfirst
        simp [ih hmore, hfirst, eq_comm]

theorem anyMatch_iff {patterns : List String} {globs : List (List Glob.Token)}
    (h : compile patterns = .ok globs) (p : Path) :
    anyMatch globs p = true ↔
      ∃ pattern ∈ patterns, ∃ tokens, Glob.parse pattern = .ok tokens ∧
        Glob.isMatch tokens p.text = true := by
  simp only [anyMatch, List.any_eq_true, mem_of_compile h]
  constructor
  · rintro ⟨tokens, ⟨pattern, hpattern, hparse⟩, hmatch⟩
    exact ⟨pattern, hpattern, tokens, hparse, hmatch⟩
  · rintro ⟨pattern, hpattern, tokens, hparse, hmatch⟩
    exact ⟨tokens, ⟨pattern, hpattern, hparse⟩, hmatch⟩

/-- The two looks at a path are one: some pattern matches it from the root or as a whole. -/
theorem anyMatch_or_iff {patterns : List String} {globs : List (List Glob.Token)}
    (h : compile patterns = .ok globs) (root p : Path) :
    (anyMatch globs ((p.relativeTo? root).getD p) = true ∨ anyMatch globs p = true) ↔
      ∃ pattern ∈ patterns, Hits root pattern p := by
  rw [anyMatch_iff h, anyMatch_iff h]
  constructor
  · rintro (⟨pattern, hpattern, tokens, hparse, hmatch⟩ | ⟨pattern, hpattern, tokens, hparse, hmatch⟩)
    · exact ⟨pattern, hpattern, tokens, hparse, .inl hmatch⟩
    · exact ⟨pattern, hpattern, tokens, hparse, .inr hmatch⟩
  · rintro ⟨pattern, hpattern, tokens, hparse, hmatch | hmatch⟩
    · exact .inl ⟨pattern, hpattern, tokens, hparse, hmatch⟩
    · exact .inr ⟨pattern, hpattern, tokens, hparse, hmatch⟩

theorem ofPatterns_eq_ok {root : Path} {resolved : PatternSet} {m : Matcher}
    (h : ofPatterns root resolved = .ok m) :
    m.root = root ∧ compile resolved.included = .ok m.included ∧
      compile resolved.excluded = .ok m.excluded := by
  unfold ofPatterns build at h
  cases hincluded : compile resolved.included with
  | error e =>
    rw [hincluded] at h
    cases h
  | ok included =>
    cases hexcluded : compile resolved.excluded with
    | error e =>
      rw [hincluded, hexcluded] at h
      cases h
    | ok excluded =>
      rw [hincluded, hexcluded] at h
      obtain rfl := Except.ok.inj h
      exact ⟨rfl, rfl, rfl⟩

/-- A path is selected exactly if an included pattern hits it and no excluded one does. -/
theorem accepts_iff {root : Path} {resolved : PatternSet} {m : Matcher} (h : ofPatterns root resolved = .ok m)
    (p : Path) : m.accepts p = true ↔
      (∃ q ∈ resolved.included, Hits root q p) ∧ ∀ q ∈ resolved.excluded, ¬Hits root q p := by
  obtain ⟨rfl, hincluded, hexcluded⟩ := ofPatterns_eq_ok h
  have hout := not_congr (anyMatch_or_iff hexcluded m.root p)
  simp only [not_or, Bool.not_eq_true, not_exists, not_and] at hout
  simp only [accepts, Bool.and_eq_true, Bool.or_eq_true, Bool.not_eq_eq_eq_not, Bool.not_true, and_assoc,
    anyMatch_or_iff hincluded, hout]

end Matcher

/-! ### Where patterns come from -/

namespace PatternSet

variable {tree : FileTree} {flow : Flow} {codemod : Codemod} {ruleSource : Option String}
  {declared : Option (List String)} {resolved : PatternSet}

/-- What the user asks for: patterns and single files. -/
def asked (flow : Flow) : List String :=
  flow.included.getD [] ++ (flow.files.getD []).map Path.text

/-- What a filemod adds by its own declaration; other codemods have none. -/
def added (codemod : Codemod) (declared : Option (List String)) : List String :=
  if codemod.engine = .filemod then declared.getD [] else []

/-- All that is included before anything is excluded, as it is matched. -/
def wanted (flow : Flow) (codemod : Codemod) (ruleSource : Option String)
    (declared : Option (List String)) : List String :=
  match rawIncluded flow codemod ruleSource declared with
  | .ok (patterns, _) => patterns.map normalizePattern
  | .error _ => []

/-- What is excluded without the user, by default or by the ignore file, as it is matched. -/
def standing (tree : FileTree) (flow : Flow) : List String :=
  (defaultExcluded ++ ignored tree flow.target).map normalizePattern

theorem mem_settleExcluded {p : String} {included user default ignored : List String} :
    p ∈ settleExcluded included user default ignored ↔
      (p ∈ user ∨ p ∈ default ∨ p ∈ ignored) ∧ ¬((p ∈ default ∨ p ∈ ignored) ∧ p ∈ included) := by
  simp only [settleExcluded, mem_dedup, List.mem_filter, List.mem_append, or_assoc, Bool.or_eq_true,
    Bool.not_eq_eq_eq_not, Bool.not_true, Bool.or_eq_false_iff, List.contains_eq_mem,
    decide_eq_false_iff_not]
  tauto

theorem build_eq_ok (h : build tree flow codemod ruleSource declared = .ok resolved) :
    (∃ reason patterns, rawIncluded flow codemod ruleSource declared = .ok (patterns, reason)) ∧
      (∀ q, q ∈ resolved.excluded ↔ (q ∈ flow.excluded.map normalizePattern ∨ q ∈ standing tree flow) ∧
        ¬(q ∈ standing tree flow ∧ q ∈ wanted flow codemod ruleSource declared)) ∧
      ∀ q, q ∈ resolved.included ↔ q ∈ wanted flow codemod ruleSource declared ∧ q ∉ resolved.excluded := by
  unfold build at h
  cases hraw : rawIncluded flow codemod ruleSource declared with
  | error e =>
    rw [hraw] at h
    cases h
  | ok result =>
    obtain ⟨patterns, reason⟩ := result
    rw [hraw] at h
    obtain rfl := Except.ok.inj h
    refine ⟨⟨reason, patterns, rfl⟩, fun q => ?_, fun q => ?_⟩
    · simp only [mem_settleExcluded, mem_dedup, standing, wanted, hraw, List.map_append, List.mem_append]
    · simp [wanted, hraw, mem_dedup]

/-- What the user asks for leaves no place for the codemod, a rule's languages or the defaults. -/
theorem rawIncluded_of_asked (h : asked flow ≠ []) :
    ∃ reason, rawIncluded flow codemod ruleSource declared =
      .ok (asked flow ++ added codemod declared, reason) := by
  have hgiven : (flow.included.isSome || flow.files.isSome) = true := by
    cases hincluded : flow.included <;> cases hfiles : flow.files <;> simp_all [asked]
  have hsome : (asked flow).isEmpty = false := by simpa using h
  unfold rawIncluded
  rw [if_pos hgiven]
  dsimp only
  rw [← asked, hsome, Bool.false_and, if_neg Bool.false_ne_true, pure_bind]
  by_cases hengine : codemod.engine = .filemod
  · -- only a filemod with patterns of its own adds to what the user asks for
    rcases declared with _ | _ | ⟨p, ps⟩
    · simp [added, hengine, hsome, pure, Except.pure]
    · simp [added, hengine, hsome, pure, Except.pure]
    · simp [added, hengine, pure, Except.pure]
  · simp [added, hengine, hsome, pure, Except.pure]

theorem mem_wanted_of_asked (h : asked flow ≠ []) {q : String} :
    q ∈ wanted flow codemod ruleSource declared ↔
      q ∈ (asked flow).map normalizePattern ∨ q ∈ (added codemod declared).map normalizePattern := by
  have hraw : ∃ reason, rawIncluded flow codemod ruleSource declared = _ := rawIncluded_of_asked h
  obtain ⟨reason, hraw⟩ := hraw
  simp only [wanted, hraw, List.map_append, List.mem_append]

/-! ### What the user excludes -/

/-- Whether a pattern is excluded without the user, and asked for all the same. -/
def Contested (tree : FileTree) (flow : Flow) (codemod : Codemod) (ruleSource : Option String)
    (declared : Option (List String)) (q : String) : Prop :=
  q ∈ standing tree flow ∧ q ∈ wanted flow codemod ruleSource declared

instance (tree : FileTree) (flow : Flow) (codemod : Codemod) (ruleSource : Option String)
    (declared : Option (List String)) (q : String) :
    Decidable (Contested tree flow codemod ruleSource declared q) :=
  inferInstanceAs (Decidable (_ ∧ _))

/-- **What the user excludes stays excluded unless it is contested.** A contested pattern is included
instead. So a path that is hit by a pattern which the user excludes is selected exactly if the pattern is
contested and nothing that stays excluded hits the path. -/
theorem user_exclusions_settled (tree : FileTree) (flow : Flow) (codemod : Codemod)
    (ruleSource : Option String) (declared : Option (List String)) (resolved : PatternSet)
    (h : build tree flow codemod ruleSource declared = .ok resolved) (p : String) (hp : p ∈ flow.excluded) :
    (normalizePattern p ∈ resolved.excluded ↔
        ¬Contested tree flow codemod ruleSource declared (normalizePattern p)) ∧
      (Contested tree flow codemod ruleSource declared (normalizePattern p) →
        normalizePattern p ∈ resolved.included) ∧
      ∀ root m, Matcher.ofPatterns root resolved = .ok m →
        ∀ path, Matcher.Hits root (normalizePattern p) path →
          (m.accepts path = true ↔
            Contested tree flow codemod ruleSource declared (normalizePattern p) ∧
              ∀ q ∈ resolved.excluded, ¬Matcher.Hits root q path) := by
  obtain ⟨-, hexcluded, hincluded⟩ := build_eq_ok h
  have huser : normalizePattern p ∈ flow.excluded.map normalizePattern := List.mem_map_of_mem hp
  have hstays : normalizePattern p ∈ resolved.excluded ↔
      ¬Contested tree flow codemod ruleSource declared (normalizePattern p) := by
    rw [hexcluded]
    exact and_iff_right (Or.inl huser)
  have hcomes : Contested tree flow codemod ruleSource declared (normalizePattern p) →
      normalizePattern p ∈ resolved.included := by
    intro hcontested
    rw [hincluded, hstays, not_not]
    exact ⟨hcontested.2, hcontested⟩
  refine ⟨hstays, hcomes, fun root m hm path hhit => ?_⟩
  rw [Matcher.accepts_iff hm]
  constructor
  · rintro ⟨-, hfree⟩
    refine ⟨by_contra fun hcontested => ?_, hfree⟩
    exact hfree _ (hstays.2 hcontested) hhit
  · rintro ⟨hcontested, hfree⟩
    exact ⟨⟨_, hcomes hcontested, hhit⟩, hfree⟩

/-- Scripts, generated ones and built ones; the generated ones are ignored. -/
def layeredTree : FileTree :=
  .ofFiles [(⟨"/code/src/a.ts"⟩, "a"), (⟨"/code/gen/b.ts"⟩, "b"), (⟨"/code/dist/c.ts"⟩, "c"),
    (⟨"/code/.gitignore"⟩, "gen/\n")]

/-- Asks for two folders and excludes them. -/
def undecidedFlow : Flow :=
  { target := ⟨"/code"⟩, included := some ["src/", "gen/"], excluded := ["src/", "gen/"] }

/-- One of the two folders stays excluded; the other one is ignored too, and is included. -/
theorem user_exclusions_settled_undecided :
    ∃ resolved, build layeredTree undecidedFlow { engine := .jscodeshift } none none = .ok resolved ∧
      "src/" ∈ undecidedFlow.excluded ∧ normalizePattern "src/" ∈ resolved.excluded ∧
      "gen/" ∈ undecidedFlow.excluded ∧ normalizePattern "gen/" ∈ resolved.included := by
  have hbuild : ∃ resolved,
      build layeredTree undecidedFlow { engine := .jscodeshift } none none = .ok resolved := ⟨_, rfl⟩
  obtain ⟨resolved, hresolved⟩ := hbuild
  have hsrc : "src/" ∈ undecidedFlow.excluded := by decide
  have hgen : "gen/" ∈ undecidedFlow.excluded := by decide
  have hkept := (user_exclusions_settled _ _ _ _ _ _ hresolved _ hsrc).1
  have hgone := (user_exclusions_settled _ _ _ _ _ _ hresolved _ hgen).2.1
  exact ⟨resolved, hresolved, hsrc, hkept.2 (by decide +kernel), hgen, hgone (by decide +kernel)⟩

/-- A default pattern that the user both excludes and asks for is not excluded, and its files are
selected. -/
theorem user_exclusion_overridden :
    ∃ resolved m, build layeredTree { target := ⟨"/code"⟩, included := some ["dist/"], excluded := ["dist/"] }
        { engine := .jscodeshift } none none = .ok resolved ∧
      normalizePattern "dist/" ∉ resolved.excluded ∧
      Matcher.ofPatterns ⟨"/code"⟩ resolved = .ok m ∧
      Matcher.Hits ⟨"/code"⟩ (normalizePattern "dist/") ⟨"/code/dist/c.ts"⟩ ∧
      m.collect layeredTree ⟨"/code"⟩ = .ok [⟨"/code/dist/c.ts"⟩] := by
  refine ⟨⟨["**/dist/**/*.*"],
    ["**/node_modules/**/*.*", "**/build/**/*.*", "**/out/**/*.*", "**/.next/**/*.*", "**/coverage/**/*.*",
      "**/*.min.js", "**/.git/**/*.*", "**/.svn/**/*.*", "**/.hg/**/*.*", "**/gen/**/*.*"],
    "Using include patterns and file paths from user input"⟩, _, by decide +kernel, by decide +kernel, rfl,
    by decide +kernel, by decide +kernel⟩

/-! ### What the user includes -/

/-- **What the user asks for comes first.** Nothing else is included, except what a filemod declares, unless
that is excluded. So a path that is hit by nothing the user asks for is selected exactly if a declared
pattern hits it and no excluded one does; where nothing is declared it is never selected. -/
theorem user_inclusions_first (tree : FileTree) (flow : Flow) (codemod : Codemod)
    (ruleSource : Option String) (declared : Option (List String)) (resolved : PatternSet)
    (hasked : asked flow ≠ []) (h : build tree flow codemod ruleSource declared = .ok resolved) :
    (∀ q ∈ resolved.included, q ∈ (asked flow).map normalizePattern ∨
        q ∈ (added codemod declared).map normalizePattern) ∧
      ((∀ q ∈ resolved.included, q ∈ (asked flow).map normalizePattern) ↔
        ∀ d ∈ added codemod declared,
          normalizePattern d ∈ (asked flow).map normalizePattern ∨ normalizePattern d ∈ resolved.excluded) ∧
      ∀ root m, Matcher.ofPatterns root resolved = .ok m →
        ∀ path, (∀ q ∈ asked flow, ¬Matcher.Hits root (normalizePattern q) path) →
          (m.accepts path = true ↔
            (∃ d ∈ added codemod declared, Matcher.Hits root (normalizePattern d) path) ∧
              ∀ q ∈ resolved.excluded, ¬Matcher.Hits root q path) := by
  obtain ⟨-, -, hincluded⟩ := build_eq_ok h
  simp only [mem_wanted_of_asked hasked] at hincluded
  refine ⟨fun q hq => ((hincluded q).1 hq).1, ⟨fun hall d hd => ?_, fun hall q hq => ?_⟩, ?_⟩
  · by_cases hout : normalizePattern d ∈ resolved.excluded
    · exact .inr hout
    · exact .inl (hall _ ((hincluded _).2 ⟨.inr (List.mem_map_of_mem hd), hout⟩))
  · obtain ⟨huser | hadded, hin⟩ := (hincluded q).1 hq
    · exact huser
    · obtain ⟨d, hd, rfl⟩ := List.mem_map.1 hadded
      exact (hall d hd).resolve_right hin
  · intro root m hm path hmissed
    rw [Matcher.accepts_iff hm]
    constructor
    · rintro ⟨⟨q, hq, hhit⟩, hfree⟩
      refine ⟨?_, hfree⟩
      obtain ⟨huser | hadded, -⟩ := (hincluded q).1 hq
      · obtain ⟨p, hp, rfl⟩ := List.mem_map.1 huser
        exact absurd hhit (hmissed p hp)
      · obtain ⟨d, hd, rfl⟩ := List.mem_map.1 hadded
        exact ⟨d, hd, hhit⟩
    · rintro ⟨⟨d, hd, hhit⟩, hfree⟩
      have hin : normalizePattern d ∉ resolved.excluded := fun hout => hfree _ hout hhit
      exact ⟨⟨_, (hincluded _).2 ⟨.inr (List.mem_map_of_mem hd), hin⟩, hhit⟩, hfree⟩

/-- Asks for one file and for the scripts of a folder. -/
def pickyFlow : Flow :=
  { target := ⟨"/code"⟩, included := some ["src/*.ts"], files := some [⟨"/code/gen/b.ts"⟩] }

/-- A rule for another language does not add to what the user asks for. -/
theorem user_inclusions_first_picky :
    ∃ resolved, build layeredTree pickyFlow { engine := .astGrep } (some "language: python")
        (some ["**/*.md"]) = .ok resolved ∧
      asked pickyFlow ≠ [] ∧ ∀ q ∈ resolved.included, q ∈ (asked pickyFlow).map normalizePattern := by
  have hbuild : ∃ resolved, build layeredTree pickyFlow { engine := .astGrep } (some "language: python")
      (some ["**/*.md"]) = .ok resolved := ⟨_, rfl⟩
  obtain ⟨resolved, hresolved⟩ := hbuild
  have hasked : asked pickyFlow ≠ [] := by decide
  have hfirst := (user_inclusions_first _ _ _ _ _ _ hasked hresolved).2.1
  exact ⟨resolved, hresolved, hasked, hfirst.2 (by simp [added])⟩

/-- A note outside of what the user asks for is selected because a filemod declares notes. -/
theorem user_inclusion_extended :
    ∃ resolved m, build (.ofFiles [(⟨"/code/src/a.ts"⟩, "a"), (⟨"/code/readme.md"⟩, "b")])
        { target := ⟨"/code"⟩, included := some ["src/*.ts"] } { engine := .filemod } none
        (some ["**/*.md"]) = .ok resolved ∧
      "**/*.md" ∈ resolved.included ∧ "**/*.md" ≠ normalizePattern "src/*.ts" ∧
      Matcher.ofPatterns ⟨"/code"⟩ resolved = .ok m ∧
      ¬Matcher.Hits ⟨"/code"⟩ (normalizePattern "src/*.ts") ⟨"/code/readme.md"⟩ ∧
      m.accepts ⟨"/code/readme.md"⟩ = true := by
  refine ⟨⟨["**/src/*.ts", "**/*.md"],
    ["**/node_modules/**/*.*", "**/dist/**/*.*", "**/build/**/*.*", "**/out/**/*.*", "**/.next/**/*.*",
      "**/coverage/**/*.*", "**/*.min.js", "**/.git/**/*.*", "**/.svn/**/*.*", "**/.hg/**/*.*"],
    "Using include patterns from the filemod"⟩, _, by decide +kernel, by decide, by decide +kernel, rfl,
    by decide +kernel, by decide +kernel⟩

end PatternSet

end BulkEdit
