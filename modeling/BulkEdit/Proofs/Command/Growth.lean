import BulkEdit.Formatter.Registry
import BulkEdit.Proofs.Command.Effect

/-!
# Trees that commands make of a tree

Commands are carried out on a tree, one after another and in one batch after another. However many they
are, what they leave has grown out of the first tree (`Grown`): no folder is gone, a file that is new
stands in a folder, and a content that is new is as a formatter leaves it. Batches of commands are as
codemods give them (`Fits`).
-/

namespace BulkEdit

/-! ### Formatting that has come to rest -/

namespace FormatterRegistry

variable {r : FormatterRegistry} {format : Bool} {p : Path} {data : String}

/-- Formatting twice is formatting once, and the spelling of a path does not matter as long as it ends
with the name of the file. -/
structure Stable (r : FormatterRegistry) : Prop where
  again : ∀ p data, r.formatText p (r.formatText p data) = r.formatText p data
  normal : ∀ p data, p.normalize.fileName? = p.fileName? →
    r.formatText p data = r.formatText p.normalize data

/-- Formatting leaves the content as it is. -/
def Rests (r : FormatterRegistry) (format : Bool) (p : Path) (data : String) : Prop :=
  r.formatIf format p data = data

theorem rests_formatIf (h : format = true → r.Stable) :
    r.Rests format p (r.formatIf format p data) := by
  unfold Rests formatIf
  cases format with
  | false => rfl
  | true => exact (h rfl).again p data

theorem rests_normalize (h : format = true → r.Stable)
    (hname : p.normalize.fileName? = p.fileName?) :
    r.Rests format p.normalize data ↔ r.Rests format p data := by
  unfold Rests formatIf
  cases format with
  | false => rfl
  | true => rw [(h rfl).normal p data hname]

/-- A formatter that looks at contents only is stable if it leaves what it gives. -/
theorem stable_register {f : String → String} (hf : ∀ data, f (f data) = f data) (extension : String) :
    (({} : FormatterRegistry).register [extension] fun _ data => .ok (f data)).Stable := by
  generalize hr : ({} : FormatterRegistry).register [extension] (fun _ data => .ok (f data)) = r
  have hfind : ∀ p, r.find? p = none ∨ r.find? p = some fun _ data => .ok (f data) := by
    intro p
    subst hr
    unfold find? register
    cases p.extension? with
    | none => exact Or.inl rfl
    | some e =>
      simp only [List.foldl_cons, List.foldl_nil, Option.bind_some, List.lookup_cons, List.lookup_nil]
      split
      · exact Or.inr rfl
      · exact Or.inl rfl
  refine ⟨fun p data => ?_, fun p data hname => ?_⟩
  · unfold formatText
    rcases hfind p with h | h
    · simp [h]
    · simp [h, hf]
  · have hsame : r.find? p.normalize = r.find? p := by
      unfold find? Path.extension?
      rw [hname]
    unfold formatText
    rw [hsame]
    rcases hfind p with h | h <;> simp [h]

end FormatterRegistry

/-! ### Growth -/

/-- **What has grown out of a tree.** -/
structure Grown (rests : Route → String → Prop) (t₀ t : FileTree) : Prop where
  placed : t.Placed
  closed : t.Closed
  /-- No folder is gone. -/
  folders : ∀ a ∈ t₀.folders, a ∈ t.folders
  /-- A content that is new stands where the first tree had no folder. -/
  changed : ∀ (q : Route) (data : String), t.files[q]? = some data → t₀.files[q]? ≠ some data →
    q ∉ t₀.folders ∧ rests q data
  /-- A file that is new stands in a folder, which no file hides. -/
  housed : ∀ q ∈ t.files, q ∉ t₀.files → ∀ folder, q.folder? = some folder →
    folder ∈ t.folders ∧ folder ∉ t.files

namespace Grown

variable {rests : Route → String → Prop} {t₀ t t₁ t' : FileTree} {p : Path} {data : String}

theorem refl (hplaced : t.Placed) (hclosed : t.Closed) : Grown rests t t where
  placed := hplaced
  closed := hclosed
  folders _ ha := ha
  changed _ _ hdata hne := absurd hdata hne
  housed _ hq hnew := absurd hq hnew

theorem ensureFolder (h : Grown rests t₀ t) (hf : t.ensureFolder p = .ok t₁) : Grown rests t₀ t₁ := by
  have hfiles := FileTree.files_of_ensureFolder hf
  have hfolders := FileTree.folders_of_ensureFolder hf
  refine ⟨?_, h.closed.ensureFolder hf, fun a ha => hfolders a (h.folders a ha), ?_, ?_⟩
  · rw [FileTree.ensureFolder_eq_ok] at hf
    split at hf
    · exact h.placed.makeFolders hf
    · exact hf ▸ h.placed
  · rw [hfiles]
    exact h.changed
  · rw [hfiles]
    intro q hq hnew folder hfolder
    obtain ⟨hin, hout⟩ := h.housed q hq hnew folder hfolder
    exact ⟨hfolders folder hin, hout⟩

/-- Writing a file, in the folder of which no file stands if the file is new. -/
theorem write (h : Grown rests t₀ t) (hw : t.write p data = .ok t') (hrests : rests p.route data)
    (hhoused : p.route ∉ t₀.files → ∀ folder, p.route.folder? = some folder → folder ∉ t.files) :
    Grown rests t₀ t' := by
  obtain ⟨hfolder, hfree, rfl⟩ := FileTree.write_eq_ok.1 hw
  refine ⟨h.placed.insert_file p data, h.closed, h.folders, ?_, ?_⟩
  · intro q content hq hne
    by_cases hp : p.route = q
    · subst hp
      obtain rfl : data = content := by simpa using hq
      exact ⟨fun hin => hfree (h.folders _ hin), hrests⟩
    · rw [Std.ExtTreeMap.getElem?_insert, if_neg (by simpa using hp)] at hq
      exact h.changed q content hq hne
  · intro q hq hnew folder hqf
    -- The folder of a new file is no file yet, and is not the one that is written.
    have hplaced : folder ∈ t.folders ∧ folder ∉ t.files := by
      rcases Std.ExtTreeMap.mem_insert.1 hq with he | hq
      · obtain rfl := Std.LawfulEqOrd.eq_of_compare he
        exact ⟨hfolder folder hqf, hhoused hnew folder hqf⟩
      · exact h.housed q hq hnew folder hqf
    refine ⟨hplaced.1, fun hin => ?_⟩
    rcases Std.ExtTreeMap.mem_insert.1 hin with he | hin
    · obtain rfl := Std.LawfulEqOrd.eq_of_compare he
      exact hfree hplaced.1
    · exact hplaced.2 hin

theorem remove (h : Grown rests t₀ t) (hr : t.remove p = .ok t') : Grown rests t₀ t' := by
  have hplaced := h.placed.remove hr
  obtain ⟨-, rfl⟩ := FileTree.remove_eq_ok.1 hr
  refine ⟨hplaced, h.closed, h.folders, ?_, ?_⟩
  · intro q content hq hne
    have hold : t.files[q]? = some content := by
      rw [Std.ExtTreeMap.getElem?_erase] at hq
      split at hq
      · cases hq
      · exact hq
    exact h.changed q content hold hne
  · intro q hq hnew folder hqf
    obtain ⟨hin, hout⟩ := h.housed q (Std.ExtTreeMap.mem_of_mem_erase hq) hnew folder hqf
    exact ⟨hin, fun hf => hout (Std.ExtTreeMap.mem_of_mem_erase hf)⟩

end Grown

/-- A file that can be created keeps its name when its path is normalized, and no file stands where its
folder is. -/
theorem FileTree.create_spec {t t₁ t' : FileTree} {p : Path} {data : String} (hclosed : t.Closed)
    (hf : t.ensureFolder p = .ok t₁) (hw : t₁.write p data = .ok t') :
    (∀ folder, p.route.folder? = some folder → folder ∉ t.files) ∧
      p.normalize.fileName? = p.fileName? := by
  rw [Path.fileName?_normalize, Path.fileName?_eq]
  rw [ensureFolder_eq_ok] at hf
  split at hf
  · rename_i folder hfolder
    -- What stands above the folder is a folder by then, so that no file can be written there.
    have hfree : p.route ∉ folder.route.ancestors := fun hup =>
      (write_eq_ok.1 hw).2.1 ((mem_makeFolders hclosed hf _).2 (Or.inr (Or.inr hup)))
    refine ⟨fun f hin => ?_, ?_⟩
    · rcases Path.folder?_route hfolder hin with rfl | hup
      · exact (makeFolders_eq_ok.1 hf).1
      · exact absurd hup hfree
    · rcases Path.route_of_folder? hfolder with ⟨c, hc, hlast, hroute⟩ | ⟨hlast, hparent⟩
      · simp [Route.fileName?, hroute, hlast]
      · by_cases hnil : p.route = []
        · simp [hnil, Route.fileName?, hlast]
        · have hup : folder.route.folder? = some p.route := by
            simp [Route.folder?, hparent, Option.filter, hnil]
          exact absurd (Route.mem_ancestors_of_folder? hup) hfree
  · rename_i hnone
    obtain ⟨hfolder, hname⟩ := Path.route_of_folder?_none hnone
    exact ⟨by simp [hfolder], hname⟩

/-! ### Batches of commands -/

namespace FileCommand

variable {r : FormatterRegistry} {format : Bool} {t₀ t t' : FileTree}

/-- A content that a command brings is as the formatter leaves it. Only these kinds of commands are
given by codemods. -/
def Settled (r : FormatterRegistry) (format : Bool) : FileCommand → Prop
  | create p data _ => r.Rests format p data
  | update p _ data _ => r.Rests format p data ∧ p.normalize.fileName? = p.fileName?
  | delete _ => True
  | move _ _ => False
  | copy _ _ => False

/-- Commands as a codemod gives them for a tree: they update files of the tree, which they do not
delete. -/
structure Fits (r : FormatterRegistry) (format : Bool) (t : FileTree) (commands : List FileCommand) :
    Prop where
  settled : ∀ c ∈ commands, c.Settled r format
  updated : ∀ p old data f, update p old data f ∈ commands → p.route ∈ t.files
  kept : ∀ p old data f q, update p old data f ∈ commands → delete q ∈ commands → q.route ≠ p.route

theorem fits_nil : Fits r format t [] := ⟨by simp, by simp, by simp⟩

/-- A command before it is formatted. -/
def Raw (format : Bool) : FileCommand → Prop
  | create _ _ f => f = format
  | update p _ _ f => f = format ∧ p.normalize.fileName? = p.fileName?
  | delete _ => True
  | move _ _ => False
  | copy _ _ => False

/-- **Formatting settles commands**, and leaves their kinds and paths. -/
theorem fits_of_formatted (hstable : format = true → r.Stable) {commands : List FileCommand}
    (given : FileCommand → Prop) (hgiven : ∀ c, given c → c.Raw format)
    (hupdated : ∀ p old data f, given (update p old data f) → p.route ∈ t.files)
    (hkept : ∀ p old data f q, given (update p old data f) → given (delete q) → q.route ≠ p.route)
    (hformatted : ∀ c' ∈ commands, ∃ c, given c ∧ r.formatCommand? c = some c') :
    Fits r format t commands := by
  have hsource : ∀ c' ∈ commands, c'.Settled r format ∧
      (∀ p old data f, c' = update p old data f → ∃ data, given (update p old data f)) ∧
      ∀ q, c' = delete q → given (delete q) := by
    intro c' hc'
    obtain ⟨c, hc, hformat⟩ := hformatted c' hc'
    have hraw := hgiven c hc
    cases c with
    | create p data f =>
      obtain rfl := Option.some.inj hformat
      obtain rfl : f = format := hraw
      exact ⟨FormatterRegistry.rests_formatIf hstable, nofun, nofun⟩
    | update p old data f =>
      obtain ⟨rfl, hname⟩ : f = format ∧ _ := hraw
      simp only [FormatterRegistry.formatCommand?] at hformat
      split at hformat
      · cases hformat
      · obtain rfl := Option.some.inj hformat
        refine ⟨⟨FormatterRegistry.rests_formatIf hstable, hname⟩, ?_, nofun⟩
        rintro p old data f ⟨⟩
        exact ⟨_, hc⟩
    | delete q =>
      obtain rfl := Option.some.inj hformat
      refine ⟨trivial, nofun, ?_⟩
      rintro q ⟨⟩
      exact hc
    | move => exact absurd hraw id
    | copy => exact absurd hraw id
  refine ⟨fun c hc => (hsource c hc).1, fun p old data f hu => ?_, fun p old data f q hu hd => ?_⟩
  · obtain ⟨data, hraw⟩ := (hsource _ hu).2.1 p old data f rfl
    exact hupdated p old data f hraw
  · obtain ⟨data, hraw⟩ := (hsource _ hu).2.1 p old data f rfl
    exact hkept p old data f q hraw ((hsource _ hd).2.2 q rfl)

/-- Files that a command does not delete stay, so that the commands after it fit what it leaves. -/
theorem Fits.tail {c : FileCommand} {rest : List FileCommand} (h : Fits r format t (c :: rest))
    (hc : c.applyWet t = (.ok (), t')) : Fits r format t' rest := by
  refine ⟨fun d hd => h.settled d (List.mem_cons_of_mem _ hd), fun p old data f hu => ?_,
    fun p old data f q hu hd => h.kept p old data f q (List.mem_cons_of_mem _ hu)
      (List.mem_cons_of_mem _ hd)⟩
  have hin := h.updated p old data f (List.mem_cons_of_mem _ hu)
  have hsettled := h.settled c (List.mem_cons_self ..)
  rw [files_of_applyWet hc]
  cases c with
  | create q data f => exact Std.ExtTreeMap.mem_insert.2 (Or.inr hin)
  | update q old data f => exact Std.ExtTreeMap.mem_insert.2 (Or.inr hin)
  | delete q =>
    have hne := h.kept p old data f q (List.mem_cons_of_mem _ hu) (List.mem_cons_self ..)
    exact Std.ExtTreeMap.mem_erase.2 ⟨by simpa using hne, hin⟩
  | move => exact absurd hsettled id
  | copy => exact absurd hsettled id

/-- The contents that rest where they stand. -/
abbrev restsAt (r : FormatterRegistry) (format : Bool) (q : Route) (data : String) : Prop :=
  r.Rests format q.toPath data

/-- **One command** of a batch lets the tree grow. -/
theorem grown_applyWet (hstable : format = true → r.Stable) {c : FileCommand}
    {rest : List FileCommand} (hgrown : Grown (restsAt r format) t₀ t)
    (hfits : Fits r format t (c :: rest)) (hc : c.applyWet t = (.ok (), t')) :
    Grown (restsAt r format) t₀ t' := by
  have hsettled := hfits.settled c (List.mem_cons_self ..)
  cases c with
  | create p data f =>
    obtain ⟨t₁, hf, hw⟩ := applyWet_create.1 hc
    obtain ⟨hhoused, hname⟩ := FileTree.create_spec hgrown.closed hf hw
    refine (hgrown.ensureFolder hf).write hw ((FormatterRegistry.rests_normalize hstable hname).2 hsettled)
      fun _ folder hfolder => ?_
    rw [FileTree.files_of_ensureFolder hf]
    exact hhoused folder hfolder
  | update p old data f =>
    refine hgrown.write (applyWet_update.1 hc)
      ((FormatterRegistry.rests_normalize hstable hsettled.2).2 hsettled.1) fun hnew folder hfolder => ?_
    have hin := hfits.updated p old data f (List.mem_cons_self ..)
    exact (hgrown.housed p.route hin hnew folder hfolder).2
  | delete p => exact hgrown.remove (applyWet_delete.1 hc)
  | move => exact absurd hsettled id
  | copy => exact absurd hsettled id

/-- **A batch of commands** lets the tree grow. -/
theorem grown_carryOut (hstable : format = true → r.Stable) {commands : List FileCommand}
    (hgrown : Grown (restsAt r format) t₀ t) (hfits : Fits r format t commands)
    (h : carryOut t commands = .ok t') : Grown (restsAt r format) t₀ t' := by
  induction commands generalizing t with
  | nil =>
    obtain rfl := Except.ok.inj h
    exact hgrown
  | cons c rest ih =>
    obtain ⟨t₁, hc, hrest⟩ := carryOut_cons_eq_ok.1 h
    exact ih (grown_applyWet hstable hgrown hfits hc) (hfits.tail hc) hrest

end FileCommand

end BulkEdit
