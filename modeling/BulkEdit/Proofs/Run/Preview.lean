import BulkEdit.Proofs.Command.Effect
import BulkEdit.Proofs.Path.Join
import BulkEdit.Proofs.Run.Parts
import BulkEdit.Run.Runner

/-!
# Dry runs and the tree

A dry run writes previews and nothing else. Whatever is run, and however it ends, a file of the tree that
is not directly in the folder of the previews stays as it is (`read_after_dry_report`).

Parts of a run that do not change the tree make up parts that do not (`within_partwise`), so a codemod
that is no recipe leaves the tree alone also where it fails (`single_within`), and so does the dry run of a
recipe, whose steps change a scratch tree (`dryRecipe_within`). What is left are the previews: the place of
each is an entry of their folder (`Preview.route_place`).
-/

namespace BulkEdit

/-! ### The places of previews -/

namespace Digest

/-- The characters of the alphabet have no meaning in paths. -/
theorem urlDigit_plain (n : Nat) : urlDigit n ≠ '/' ∧ urlDigit n ≠ '.' := by
  by_cases hn : n < 62
  · have hall : ∀ m < 62, urlDigit m ≠ '/' ∧ urlDigit m ≠ '.' := by decide
    exact hall n hn
  · unfold urlDigit
    rw [if_neg (by omega), if_neg (by omega), if_neg hn]
    split <;> decide

theorem slash_not_mem_urlChars (bytes : List UInt8) : '/' ∉ urlChars bytes := by
  fun_induction urlChars bytes with
  | case1 a b c rest n ih => simp [ih, (urlDigit_plain _).1.symm]
  | case2 a b n => simp [(urlDigit_plain _).1.symm]
  | case3 a n => simp [(urlDigit_plain _).1.symm]
  | case4 => simp

theorem urlChars_head (bytes : List UInt8) (hne : bytes ≠ []) :
    ∃ n rest, urlChars bytes = urlDigit n :: rest := by
  fun_induction urlChars bytes with
  | case1 a b c rest n ih => exact ⟨_, _, rfl⟩
  | case2 a b n => exact ⟨_, _, rfl⟩
  | case3 a n => exact ⟨_, _, rfl⟩
  | case4 => exact absurd rfl hne

theorem sha256_ne_nil (message : List UInt8) : sha256 message ≠ [] := by
  simp [sha256, bytesOfNat]

end Digest

theorem Path.slash_not_mem_fileName? {p : Path} {name : String} (h : p.fileName? = some name) :
    '/' ∉ name.toList := by
  unfold Path.fileName? at h
  split at h
  · rename_i text hlast
    obtain rfl := Option.some.inj h
    have hmem := List.mem_of_getLast? hlast
    rw [Path.components_eq] at hmem
    rcases List.mem_append.1 hmem with hlead | hvisible
    · cases hp : p.lead <;> rw [hp] at hlead <;> simp [Path.Lead.components] at hlead
    · obtain ⟨segment, hsegment, hcomponent⟩ := List.mem_map.1 hvisible
      have hplain := Path.segments_plain (List.mem_filter.1 hsegment).1
      unfold Path.componentOf at hcomponent
      split at hcomponent
      · cases hcomponent
      · obtain rfl := Component.name.inj hcomponent
        rwa [String.toList_ofList]
  · cases h

theorem Path.slash_not_mem_extension? {p : Path} {ext : String} (h : p.extension? = some ext) :
    '/' ∉ ext.toList := by
  obtain ⟨name, hname, hext⟩ := Option.bind_eq_some_iff.1 h
  obtain ⟨chars, hchars, rfl⟩ := Option.map_eq_some_iff.1 hext
  have hplain := Path.slash_not_mem_fileName? hname
  unfold Path.extensionOf? at hchars
  dsimp only at hchars
  split at hchars
  · cases hchars
  · obtain rfl := Option.some.inj hchars
    rw [String.toList_ofList, List.mem_reverse]
    exact fun hmem => hplain (List.mem_reverse.1 ((List.takeWhile_prefix _).subset hmem))

namespace Preview

/-- The name of a preview is one that can stand in a folder. -/
theorem isName_digest (message : List UInt8) (ending : List Char) (hplain : '/' ∉ ending) :
    (Component.name (String.ofList (Digest.urlChars (Digest.sha256 message) ++ ending))).IsName := by
  obtain ⟨n, rest, hchars⟩ := Digest.urlChars_head _ (Digest.sha256_ne_nil message)
  have hdot := (Digest.urlDigit_plain n).2
  refine ⟨_, rfl, ?_, ?_, ?_, ?_⟩
  · simp [hchars]
  · simp [hchars, hdot]
  · simp [hchars, hdot]
  · rw [String.toList_ofList, List.mem_append, not_or]
    exact ⟨Digest.slash_not_mem_urlChars _, hplain⟩

/-- What is hashed for the name of a preview. -/
def message (kind : String) (path : Path) (data : String) : List UInt8 :=
  Digest.bytesOf (kind ++ path.text ++ data)

/-- What stands behind the hash in the name of a preview. -/
def ending (path : Path) : List Char :=
  match path.extension? with
  | some ext => '.' :: ext.toList
  | none => []

theorem slash_not_mem_ending (path : Path) : '/' ∉ ending path := by
  unfold ending
  split
  · rename_i ext hext
    simpa using Path.slash_not_mem_extension? hext
  · simp

/-- **Where a preview stands**: in the folder of previews, under the hash and the extension. -/
theorem route_place_eq (outputDir : Path) (kind : String) (path : Path) (data : String) :
    (place outputDir kind path data).route = outputDir.route ++
      [.name (String.ofList (Digest.urlChars (Digest.sha256 (message kind path data)) ++
        ending path))] := by
  rw [← Path.route_join_name (isName_digest _ _ (slash_not_mem_ending path))]
  unfold place ending
  dsimp only
  congr 3
  rw [← String.toList_inj]
  cases path.extension? <;> simp [Digest.urlText, message]

theorem route_place (outputDir : Path) (kind : String) (path : Path) (data : String) :
    (place outputDir kind path data).route.parent? = some outputDir.route := by
  rw [route_place_eq]
  exact Route.parent?_append (by simp)

end Preview

/-! ### Parts of a run and the tree -/

namespace Run

variable {α β : Type} {tools : Toolset} {codemod : Codemod} {flow : Flow} {arguments : ArgumentRecord}

/-- The world that a part of a run leaves, whether it succeeds or not. -/
def leaves (part : Run α) (w : World) : World :=
  match part w with
  | .ok _ w' => w'
  | .error _ w' => w'

/-- A part changes the tree as the relation allows, whether it succeeds or not. -/
def Within (R : FileTree → FileTree → Prop) (part : Run α) : Prop :=
  ∀ w, R w.tree (leaves part w).tree

section

variable {R : FileTree → FileTree → Prop} [IsPreorder FileTree R]

theorem Within.bind {x : Run α} {f : α → Run β} (hx : Within R x) (hf : ∀ a, Within R (f a)) :
    Within R (x >>= f) := by
  intro w
  have hfirst := hx w
  show R w.tree (leaves (EStateM.bind x f) w).tree
  unfold leaves EStateM.bind at *
  cases he : x w with
  | ok a w₁ =>
    rw [he] at hfirst
    exact IsTrans.trans _ _ _ hfirst (hf a w₁)
  | error e w₁ =>
    rw [he] at hfirst
    exact hfirst

theorem Within.get : Within R (get : Run World) := fun w => refl w.tree

theorem Within.modify {f : World → World} (hf : ∀ w, (f w).tree = w.tree) :
    Within R (modify f : Run Unit) := by
  intro w
  show R w.tree (f w).tree
  rw [hf]
  exact refl w.tree

/-- To change the tree as a preorder allows is a property of parts. -/
theorem within_partwise : Partwise fun _ => Within R where
  pure _ w := refl w.tree
  throw _ w := refl w.tree
  bind hx hf := hx.bind hf
  tree w := refl w.tree
  emit _ := .modify fun _ => rfl
  record _ := .modify fun _ => rfl

theorem transform_within (source : String) : Within R (transform tools codemod source) := by
  have h : Partwise fun _ => Within R := within_partwise
  refine Within.get.bind fun w => (h.require _ _).bind fun (module, cache) => ?_
  refine (Within.modify ?_).bind fun _ => h.pure _
  exact fun _ => rfl

theorem filemod_within : Within R (filemod tools codemod) := by
  have h : Partwise fun _ => Within R := within_partwise
  refine Within.get.bind fun w => (h.require _ _).bind fun (filemod, cache) => ?_
  refine (Within.modify ?_).bind fun _ => h.pure _
  exact fun _ => rfl

/-- **A codemod that is no recipe** leaves the tree alone, also where it fails. -/
theorem single_within : Within R (single tools codemod flow arguments) :=
  within_partwise.single (fun _ => transform_within) filemod_within

/-- What is done to a scratch tree is not done to the tree. -/
theorem onScratch_within (scratch : FileTree) (part : Run α) : Within R (onScratch scratch part) := by
  intro w
  unfold leaves onScratch
  cases part { w with tree := scratch } with
  | ok a w₁ => exact refl w.tree
  | error e w₁ => exact refl w.tree

/-- **The dry run of a recipe** leaves the tree alone, also where a step fails. -/
theorem dryRecipe_within (recipe : Descriptor) : Within R (dryRecipe tools recipe flow arguments) := by
  have h : Partwise fun _ => Within R := within_partwise
  refine (h.selection _ _).bind fun (patterns, matcher) => h.bind h.tree fun tree => ?_
  refine (h.require _ _).bind fun paths => ?_
  split
  · exact h.emit _
  · exact (onScratch_within _ _).bind fun _ => (h.emit _).bind fun _ => h.emit _

theorem codemod_within (d : Descriptor) {mode : RunMode} (hdry : mode.isDry = true) :
    Within R (Run.codemod tools d flow mode arguments) := by
  unfold Run.codemod
  rw [hdry]
  split
  · exact dryRecipe_within d
  · exact single_within

end

/-! ### Writing previews -/

/-- Two trees have the same files outside of a folder, the entries further below it included. -/
def SameOutside (folder : Route) (t t' : FileTree) : Prop :=
  ∀ r : Route, r.parent? ≠ some folder → t'.files[r]? = t.files[r]?

instance (folder : Route) : IsPreorder FileTree (SameOutside folder) where
  refl _ _ _ := rfl
  trans _ _ _ h h' r hr := (h' r hr).trans (h r hr)

theorem attempt_within {R : FileTree → FileTree → Prop} [IsPreorder FileTree R] {steps : List TreeStep}
    (hsteps : ∀ step ∈ steps, ∀ t t', step t = .ok t' → R t t') (t : FileTree) :
    R t (t.attempt steps).2 := by
  induction steps generalizing t with
  | nil => exact refl t
  | cons step rest ih =>
    unfold FileTree.attempt
    cases hstep : step t with
    | error e => exact refl t
    | ok t₁ =>
      have hrest := ih (fun s hs => hsteps s (List.mem_cons_of_mem _ hs)) t₁
      exact IsTrans.trans _ _ _ (hsteps step (List.mem_cons_self ..) t t₁ hstep) hrest

/-- A preview changes nothing but its own file, which is in the folder of the previews. -/
theorem sameOutside_applyDry (c : FileCommand) (outputDir : Path) (t : FileTree) :
    SameOutside outputDir.route t (c.applyDry outputDir t).2 := by
  unfold FileCommand.applyDry
  cases c.preview? with
  | none => exact fun r _ => rfl
  | some shown =>
    obtain ⟨path, data⟩ := shown
    dsimp only
    have hplace := Preview.route_place outputDir c.kindName path data
    generalize Preview.place outputDir c.kindName path data = place at hplace ⊢
    have hsteps : ∀ step ∈ [(·.makeFolders outputDir), (·.write place data)], ∀ t t',
        step t = .ok t' → SameOutside outputDir.route t t' := by
      intro step hstep t t' h r hr
      rcases List.mem_pair.1 hstep with rfl | rfl
      · obtain ⟨-, rfl⟩ := FileTree.makeFolders_eq_ok.1 h
        rfl
      · obtain ⟨-, -, rfl⟩ := FileTree.write_eq_ok.1 h
        have hother : place.route ≠ r := by
          rintro rfl
          exact hr hplace
        simp [Std.ExtTreeMap.getElem?_insert, hother]
    have hattempt := attempt_within hsteps t
    generalize t.attempt [(·.makeFolders outputDir), (·.write place data)] = result at hattempt ⊢
    obtain ⟨_ | _, t'⟩ := result <;> exact hattempt

theorem apply_dry_within (digest : String) (outputDir : Path) (c : FileCommand) :
    Within (SameOutside outputDir.route) (apply (.dry digest outputDir) c) := by
  intro w
  have hsame := sameOutside_applyDry c outputDir w.tree
  unfold leaves apply FileCommand.apply
  dsimp only
  rcases hresult : c.applyDry outputDir w.tree with ⟨_ | _, t⟩ <;> rw [hresult] at hsame <;> exact hsame

theorem applyAll_dry_within (digest : String) (outputDir : Path) (commands : List FileCommand) :
    Within (SameOutside outputDir.route) (applyAll (.dry digest outputDir) commands) := by
  have h : Partwise fun _ => Within (SameOutside outputDir.route) := within_partwise
  induction commands with
  | nil => exact h.pure _
  | cons c rest ih => exact (apply_dry_within digest outputDir c).bind fun _ => ih.bind fun _ => h.pure _

/-! ### Whole runs -/

theorem report_dry_within (tools : Toolset) (d : Descriptor) (flow : Flow) (digest : String)
    (outputDir : Path) (raw : String → Option String) :
    Within (SameOutside outputDir.route) (report tools d flow (.dry digest outputDir) raw) := by
  have h : Partwise fun _ => Within (SameOutside outputDir.route) := within_partwise
  refine (Within.modify ?_).bind fun _ => (h.require _ _).bind fun arguments => ?_
  · exact fun _ => rfl
  refine (codemod_within d rfl).bind fun _ => Within.get.bind fun w => ?_
  exact (applyAll_dry_within digest outputDir _).bind fun _ => h.pure _

/-- **A dry run never touches the tree.** Whatever codemod or recipe is run, on whatever tree and with
whatever tools, and whether the run succeeds or fails: a path that does not name an entry of the folder of
previews has the content, or no content, that it had before. -/
theorem read_after_dry_report (tools : Toolset) (d : Descriptor) (flow : Flow) (digest : String)
    (outputDir : Path) (raw : String → Option String) (w : World) (p : Path)
    (hp : p.route.parent? ≠ some outputDir.route) :
    (leaves (report tools d flow (.dry digest outputDir) raw) w).tree.read p = w.tree.read p := by
  have hfile := report_dry_within tools d flow digest outputDir raw w p.route hp
  unfold FileTree.read
  rw [hfile]

/-- A transform that adds to every file. -/
def addingTools : Toolset where
  host := .builtin { transforms := [((⟨"/add.js"⟩ : Path).route,
    fun a => { ending := .returned (some (.str (a.source ++ "y"))) })] }

/-- The same recipe changes a file for real and leaves it in a dry run. -/
theorem read_after_dry_report_update :
    (⟨"/p/a.ts"⟩ : Path).route.parent? ≠ some (⟨"/out"⟩ : Path).route ∧
      (leaves (report addingTools
          { engine := .recipe, steps := [{ engine := .jscodeshift, entryPath := ⟨"/add.js"⟩ }] }
          { target := ⟨"/p"⟩ } (.wet "") fun _ => none)
        { tree := .ofFiles [(⟨"/p/a.ts"⟩, "x")] }).tree.read ⟨"/p/a.ts"⟩ = .ok "xy" ∧
      (leaves (report addingTools
          { engine := .recipe, steps := [{ engine := .jscodeshift, entryPath := ⟨"/add.js"⟩ }] }
          { target := ⟨"/p"⟩ } (.dry "" ⟨"/out"⟩) fun _ => none)
        { tree := .ofFiles [(⟨"/p/a.ts"⟩, "x")] }).tree.read ⟨"/p/a.ts"⟩ = .ok "x" := by
  have houtside : (⟨"/p/a.ts"⟩ : Path).route.parent? ≠ some (⟨"/out"⟩ : Path).route := by
    decide +kernel
  refine ⟨houtside, by decide +kernel, ?_⟩
  rw [read_after_dry_report addingTools _ _ "" ⟨"/out"⟩ _ _ ⟨"/p/a.ts"⟩ houtside]
  decide +kernel

end Run

end BulkEdit
