import BulkEdit.Proofs.FileTree.Walk
import BulkEdit.Proofs.Glob.Spelling
import BulkEdit.Proofs.Selection.Priority

/-!
# Files that are listed

A file that the user lists becomes a pattern like any other: its text, to be found at any depth. As long as
the text means itself when it is read as a pattern (`Listed`), the pattern hits the file (`Listed.hits`).
Then, once all the other patterns of the run can be read, the file is collected unless an excluded pattern
hits it (`listed_file_collected`). A name that holds a class, a group or an escape means something else,
and the file may be missed (`listed_file_missed`).
-/

namespace BulkEdit

/-! ### The text of a named place -/

theorem Text.exists_joined_concat (mark : Char) (before : List (List Char)) (last : List Char) :
    ∃ above, mark :: joined mark (before ++ [last]) = above ++ mark :: last := by
  induction before with
  | nil => exact ⟨[], rfl⟩
  | cons part more ih =>
    obtain ⟨above, ih⟩ := ih
    have hmore : joined mark (part :: (more ++ [last])) = part ++ mark :: joined mark (more ++ [last]) := by
      cases more <;> rfl
    refine ⟨mark :: part ++ above, ?_⟩
    rw [List.cons_append, hmore, ih]
    simp

namespace Route

theorem IsPlace.isName_of_mem {r : Route} (hr : IsPlace r) {name : String} (h : .name name ∈ r) :
    (Component.name name).IsName := by
  obtain ⟨head, names, rfl, hhead, hnames⟩ := hr
  have hheads : ∀ head ∈ heads, .name name ∉ head := by simp [heads]
  exact hnames _ ((List.mem_append.1 h).resolve_left (hheads head hhead))

theorem getLast?_of_fileName? {r : Route} {name : String} (h : r.fileName? = some name) :
    r.getLast? = some (.name name) := by
  unfold fileName? at h
  split at h
  · rename_i hlast
    rw [hlast, Option.some.inj h]
  · cases h

theorem toList_text_of_fileName? {r : Route} (hroot : r.head? = some .root) {name : String}
    (hname : r.fileName? = some name) :
    (∃ cs, r.text.toList = '/' :: cs) ∧ ∃ above, r.text.toList = above ++ '/' :: name.toList := by
  obtain ⟨rest, rfl⟩ := List.head?_eq_some_iff.1 hroot
  obtain ⟨before, hbefore⟩ := List.getLast?_eq_some_iff.1 (getLast?_of_fileName? hname)
  have htext : (text (.root :: rest)).toList = '/' :: Text.joined '/' (segments rest) := by
    rw [text, String.toList_append, toList_intercalate_text]
    rfl
  refine ⟨⟨_, htext⟩, ?_⟩
  cases before with
  | nil => simp at hbefore
  | cons c before =>
    rw [List.cons_append, List.cons.injEq] at hbefore
    rw [htext, hbefore.2, segments, List.map_append]
    exact Text.exists_joined_concat '/' _ name.toList

end Route

/-- A text between slashes that does not end in one is looked for at any depth. -/
theorem normalizePattern_of_rooted {text : String} {above name cs : List Char}
    (htext : text.toList = '/' :: cs) (hpath : text.toList = above ++ '/' :: name) (hne : name ≠ [])
    (hname : '/' ∉ name) : normalizePattern text = "**" ++ text := by
  have hend : Text.endsWith ("**" ++ text) "/" = false := by
    unfold Text.endsWith
    rw [String.toList_append, hpath, Bool.eq_false_iff, ne_eq, List.isSuffixOf_iff_suffix]
    rintro ⟨before, h⟩
    obtain rfl | ⟨stem, c, rfl⟩ := List.eq_nil_or_concat name
    · exact hne rfl
    · have hsplit : before ++ ['/'] = ("**".toList ++ above ++ '/' :: stem) ++ [c] := by simpa using h
      obtain rfl := List.singleton_inj.1 (List.append_inj' hsplit rfl).2
      exact hname (by simp)
  unfold normalizePattern Text.startsWith
  rw [htext]
  simp [hend]

/-! ### When patterns can be read -/

namespace Matcher

theorem exists_compile_iff {patterns : List String} :
    (∃ globs, compile patterns = .ok globs) ↔ ∀ q ∈ patterns, ∃ tokens, Glob.parse q = .ok tokens := by
  induction patterns with
  | nil => simp [compile]
  | cons pattern rest ih =>
    rw [List.forall_mem_cons, ← ih, compile]
    simp only [← compileOne_eq_ok]
    cases compileOne pattern <;> cases compile rest <;> simp

theorem exists_ofPatterns_iff {root : Path} {resolved : PatternSet} :
    (∃ m, ofPatterns root resolved = .ok m) ↔
      ∀ q ∈ resolved.included ++ resolved.excluded, ∃ tokens, Glob.parse q = .ok tokens := by
  rw [List.forall_mem_append, ← exists_compile_iff, ← exists_compile_iff]
  unfold ofPatterns build
  cases compile resolved.included with
  | error e => simp [bind, Except.bind]
  | ok included => cases compile resolved.excluded <;> simp [bind, Except.bind, pure, Except.pure]

end Matcher

theorem PatternSet.exists_build_of_asked {flow : Flow} (h : asked flow ≠ []) (tree : FileTree)
    (codemod : Codemod) (ruleSource : Option String) (declared : Option (List String)) :
    ∃ resolved, build tree flow codemod ruleSource declared = .ok resolved := by
  have hraw : ∃ reason, rawIncluded flow codemod ruleSource declared = _ := rawIncluded_of_asked h
  obtain ⟨reason, hraw⟩ := hraw
  unfold build
  rw [hraw]
  exact ⟨_, rfl⟩

/-- A walk that starts above a file succeeds, at the empty place only if that is an entry. -/
theorem FileTree.walk_of_isBelow {t : FileTree} (h : t.Built) {p : Path} {r : Route} (hr : r ∈ t.files)
    (hbelow : r.isBelow p.route = true) (hplace : p.route ≠ [] ∨ [] ∈ t.folders) :
    t.walk p = .ok (t.filesBelow p.route) := by
  have hin : p.route ∈ t.folders ∨ p.route ∈ t.files := by
    by_cases hne : p.route = []
    · exact Or.inl (hne ▸ hplace.resolve_left (not_not_intro hne))
    · by_cases hself : p.route = r
      · exact Or.inr (hself ▸ hr)
      · have habove := Route.mem_ancestors.2 ⟨hne, List.isPrefixOf_iff_prefix.1 hbelow, hself⟩
        exact Or.inl (h.mem_folders_of_ancestor hr habove)
  exact walk_eq_ok.2 ⟨hin, rfl⟩

/-! ### Listed files -/

/-- A file at or below the target is listed, in its own spelling, and no character of the spelling begins or
ends a class, a group or an escape. -/
structure Listed (tree : FileTree) (flow : Flow) (f : Path) : Prop where
  listed : f ∈ flow.files.getD []
  absolute : f.isAbsolute = true
  normal : f.normalize = f
  named : f.fileName? ≠ none
  plain : ∀ c ∈ f.text.toList, Glob.IsPlain c
  present : f.route ∈ tree.files
  below : f.route.isBelow flow.target.route = true

namespace Listed

variable {tree : FileTree} {flow : Flow} {f : Path}

theorem text_eq (h : Listed tree flow f) :
    ∃ (name : String) (above cs : List Char), (Component.name name).IsName ∧
      f.text.toList = '/' :: cs ∧ f.text.toList = above ++ '/' :: name.toList := by
  obtain ⟨name, hname⟩ := Option.ne_none_iff_exists'.1 h.named
  have hroute : f.route.fileName? = some name := by
    rw [← Path.fileName?_normalize, h.normal, hname]
  have htext : f.route.text = f.text := congrArg Path.text h.normal
  have hmem := List.mem_of_getLast? (Route.getLast?_of_fileName? hroute)
  obtain ⟨⟨cs, hcs⟩, above, habove⟩ := Route.toList_text_of_fileName? (Path.head?_route h.absolute) hroute
  rw [htext] at hcs habove
  exact ⟨name, above, cs, f.route_isPlace.isName_of_mem hmem, hcs, habove⟩

theorem pattern_eq (h : Listed tree flow f) : normalizePattern f.text = "**" ++ f.text := by
  obtain ⟨name, above, cs, ⟨_, ⟨⟩, hne, -, -, hplain⟩, htext, hpath⟩ := h.text_eq
  exact normalizePattern_of_rooted htext hpath hne hplain

/-- **A listed file is hit by its own pattern**, which can be read. -/
theorem hits (h : Listed tree flow f) :
    (∃ tokens, Glob.parse (normalizePattern f.text) = .ok tokens) ∧
      ∀ root, Matcher.Hits root (normalizePattern f.text) f := by
  obtain ⟨name, above, cs, ⟨_, ⟨⟩, -, -, hup, hplain⟩, htext, hpath⟩ := h.text_eq
  obtain ⟨tokens, hparse, hmatch⟩ := Glob.isMatch_self htext h.plain hpath hplain hup
  rw [h.pattern_eq]
  exact ⟨⟨tokens, hparse⟩, fun root => ⟨tokens, hparse, Or.inr hmatch⟩⟩

theorem mem_asked (h : Listed tree flow f) : f.text ∈ PatternSet.asked flow :=
  List.mem_append_right _ (List.mem_map_of_mem h.listed)

/-- The pattern of a listed file is included, or excluded on its own. -/
theorem mem_included (h : Listed tree flow f) {codemod : Codemod} {ruleSource : Option String}
    {declared : Option (List String)} {resolved : PatternSet}
    (hbuild : PatternSet.build tree flow codemod ruleSource declared = .ok resolved) :
    normalizePattern f.text ∈ resolved.included ∨ normalizePattern f.text ∈ resolved.excluded := by
  obtain ⟨-, -, hincluded⟩ := PatternSet.build_eq_ok hbuild
  have hasked : PatternSet.asked flow ≠ [] := List.ne_nil_of_mem h.mem_asked
  have hwanted : normalizePattern f.text ∈ PatternSet.wanted flow codemod ruleSource declared :=
    (PatternSet.mem_wanted_of_asked hasked).2 (Or.inl (List.mem_map_of_mem h.mem_asked))
  by_cases hout : normalizePattern f.text ∈ resolved.excluded
  · exact Or.inr hout
  · exact Or.inl ((hincluded _).2 ⟨hwanted, hout⟩)

end Listed

/-- **A listed file is collected unless it is excluded.** The patterns of the run are always found; they can
be read if all but the file's own can; and then the file is among those that are collected at the target
exactly if no excluded pattern hits it. -/
theorem listed_file_collected (tree : FileTree) (flow : Flow) (codemod : Codemod)
    (ruleSource : Option String) (declared : Option (List String)) (f : Path) (hbuilt : tree.Built)
    (hf : Listed tree flow f) (htarget : flow.target.route ≠ [] ∨ [] ∈ tree.folders) :
    ∃ resolved, PatternSet.build tree flow codemod ruleSource declared = .ok resolved ∧
      ((∃ m, Matcher.ofPatterns flow.target resolved = .ok m) ↔
        ∀ q ∈ resolved.included ++ resolved.excluded, q ≠ normalizePattern f.text →
          ∃ tokens, Glob.parse q = .ok tokens) ∧
      ∀ m, Matcher.ofPatterns flow.target resolved = .ok m →
        ∃ paths, m.collect tree flow.target = .ok paths ∧
          (f ∈ paths ↔ ∀ q ∈ resolved.excluded, ¬Matcher.Hits flow.target q f) := by
  have hasked : PatternSet.asked flow ≠ [] := List.ne_nil_of_mem hf.mem_asked
  obtain ⟨resolved, hresolved⟩ := PatternSet.exists_build_of_asked hasked tree codemod ruleSource declared
  refine ⟨resolved, hresolved, ?_, fun m hm => ?_⟩
  · rw [Matcher.exists_ofPatterns_iff]
    refine ⟨fun hall q hq _ => hall q hq, fun hothers q hq => ?_⟩
    by_cases hown : q = normalizePattern f.text
    · exact hown ▸ hf.hits.1
    · exact hothers q hq hown
  · have hwalk := FileTree.walk_of_isBelow hbuilt hf.present hf.below htarget
    refine ⟨_, by rw [Matcher.collect, hwalk]; rfl, ?_⟩
    have hfound : f ∈ (tree.filesBelow flow.target.route).map Route.toPath :=
      List.mem_map.2 ⟨f.route, FileTree.mem_filesBelow.2
        ⟨hf.present, List.isPrefixOf_iff_prefix.1 hf.below⟩, hf.normal⟩
    rw [List.mem_filter, Matcher.accepts_iff hm, and_iff_right hfound]
    refine and_iff_right_of_imp fun hfree => ?_
    have hin := (hf.mem_included hresolved).resolve_right fun hout => hfree _ hout (hf.hits.2 _)
    exact ⟨_, hin, hf.hits.2 _⟩

/-- A tree with a file of which the name is a pattern for others. -/
def starredTree : FileTree :=
  .ofFiles [(⟨"/p/lib/*?.ts"⟩, "a"), (⟨"/p/lib/b.md"⟩, "b"), (⟨"/p/docs/c.ts"⟩, "c")]

/-- Asks for the file and for nothing else. -/
def starredFlow : Flow :=
  { target := ⟨"/p/./lib"⟩, excluded := ["docs/"], files := some [⟨"/p/lib/*?.ts"⟩] }

/-- The file is collected. -/
theorem listed_file_collected_starred :
    ∃ resolved m paths,
      PatternSet.build starredTree starredFlow { engine := .jscodeshift } none none = .ok resolved ∧
      Matcher.ofPatterns starredFlow.target resolved = .ok m ∧
      m.collect starredTree starredFlow.target = .ok paths ∧ ⟨"/p/lib/*?.ts"⟩ ∈ paths := by
  have hlisted : Listed starredTree starredFlow ⟨"/p/lib/*?.ts"⟩ :=
    ⟨by decide, by decide, by decide +kernel, by decide +kernel, by simp [Glob.IsPlain], by decide +kernel,
      by decide +kernel⟩
  obtain ⟨resolved, hresolved, hread, hcollect⟩ :=
    listed_file_collected starredTree starredFlow { engine := .jscodeshift } none none _ (.ofFiles _) hlisted
      (Or.inl (by decide))
  have hsame : resolved = ⟨["**/p/lib/*?.ts"],
      ["**/docs/**/*.*", "**/node_modules/**/*.*", "**/dist/**/*.*", "**/build/**/*.*", "**/out/**/*.*",
        "**/.next/**/*.*", "**/coverage/**/*.*", "**/*.min.js", "**/.git/**/*.*", "**/.svn/**/*.*",
        "**/.hg/**/*.*"], "Using include patterns and file paths from user input"⟩ :=
    Except.ok.inj (hresolved.symm.trans (by decide +kernel))
  subst hsame
  obtain ⟨paths, hpaths, hmem⟩ := hcollect _ rfl
  exact ⟨_, _, paths, hresolved, rfl, hpaths, hmem.2 (by decide +kernel)⟩

/-- A file of which the name reads as a class and an ending. -/
def bracketedTree : FileTree :=
  .ofFiles [(⟨"/p/[id].ts"⟩, "x")]

def bracketedFlow : Flow :=
  { target := ⟨"/p"⟩, files := some [⟨"/p/[id].ts"⟩] }

/-- **A listed file need not be collected.** Its text is a pattern for other names, in which one letter
stands for the class. So no pattern hits the file: none excludes it, and none includes it. -/
theorem listed_file_missed :
    let f : Path := ⟨"/p/[id].ts"⟩
    (f ∈ bracketedFlow.files.getD [] ∧ f.isAbsolute = true ∧ f.normalize = f ∧ f.fileName? ≠ none ∧
        f.route ∈ bracketedTree.files ∧ f.route.isBelow bracketedFlow.target.route = true) ∧
      ∃ resolved m,
        PatternSet.build bracketedTree bracketedFlow { engine := .jscodeshift } none none = .ok resolved ∧
        (∀ q ∈ resolved.excluded, ¬Matcher.Hits bracketedFlow.target q f) ∧
        Matcher.ofPatterns bracketedFlow.target resolved = .ok m ∧
        m.collect bracketedTree bracketedFlow.target = .ok [] := by
  refine ⟨⟨by decide, by decide, by decide +kernel, by decide +kernel, by decide +kernel,
    by decide +kernel⟩, ?_⟩
  exact ⟨⟨["**/p/[id].ts"], ["**/node_modules/**/*.*", "**/dist/**/*.*", "**/build/**/*.*",
    "**/out/**/*.*", "**/.next/**/*.*", "**/coverage/**/*.*", "**/*.min.js", "**/.git/**/*.*",
    "**/.svn/**/*.*", "**/.hg/**/*.*"], "Using include patterns and file paths from user input"⟩, _,
    by decide +kernel, by decide +kernel, rfl, by decide +kernel⟩

end BulkEdit
