import BulkEdit.Proofs.Run.Application
import BulkEdit.Proofs.Run.Preview
import BulkEdit.Proofs.Text.Bytes

/-!
# What previews show

A dry run writes one preview for each command with new contents, in the order of the commands. A preview
is named by the hash of its kind, its path and its content, written one after another with nothing in
between, and by the extension of the path. So the previews of two commands share a place if these texts run
together to the same one (`Preview.route_place_inj`), and then the later command is shown for both. Without
such a pair, every preview shows its own change (`previews_own`).
-/

namespace BulkEdit

/-! ### Names are read back -/

namespace Digest

theorem urlDigit_inj {m n : Nat} (hm : m < 64) (hn : n < 64) (h : urlDigit m = urlDigit n) : m = n := by
  have hall : ∀ m < 64, ∀ n < 64, urlDigit m = urlDigit n → m = n := by decide +kernel
  exact hall m hm n hn h

theorem length_urlChars (bytes : List UInt8) :
    (urlChars bytes).length = (4 * bytes.length + 2) / 3 := by
  fun_induction urlChars bytes with
  | case1 a b c rest n ih =>
    simp only [List.length_cons, ih]
    omega
  | case2 a b n => simp
  | case3 a n => simp
  | case4 => simp

/-- **Bytes can be read back** from their characters. -/
theorem urlChars_inj {bytes other : List UInt8} (h : urlChars bytes = urlChars other) :
    bytes = other := by
  have hlength : bytes.length = other.length := by
    have hchars := congrArg List.length h
    rw [length_urlChars, length_urlChars] at hchars
    omega
  have hbyte (a : UInt8) : a.toNat < 256 := a.toNat_lt
  -- each group of characters holds six bits of one number, which the bytes of the group make up
  induction bytes using urlChars.induct generalizing other with
  | case1 a b c rest ih =>
    obtain _ | ⟨a', _ | ⟨b', _ | ⟨c', rest'⟩⟩⟩ := other
    · simp at hlength
    · simp at hlength
    · simp at hlength
    · simp only [urlChars, List.cons.injEq] at h
      obtain ⟨h₁, h₂, h₃, h₄, hrest⟩ := h
      have ha := hbyte a
      have ha' := hbyte a'
      have hb := hbyte b
      have hb' := hbyte b'
      have hc := hbyte c
      have hc' := hbyte c'
      replace h₁ := urlDigit_inj (by omega) (by omega) h₁
      replace h₂ := urlDigit_inj (by omega) (by omega) h₂
      replace h₃ := urlDigit_inj (by omega) (by omega) h₃
      replace h₄ := urlDigit_inj (by omega) (by omega) h₄
      rw [ih hrest (by simpa using hlength), UInt8.toNat_inj.1 (by omega : a.toNat = a'.toNat),
        UInt8.toNat_inj.1 (by omega : b.toNat = b'.toNat),
        UInt8.toNat_inj.1 (by omega : c.toNat = c'.toNat)]
  | case2 a b =>
    obtain ⟨a', b', rfl⟩ := List.length_eq_two.1 hlength.symm
    simp only [urlChars, List.cons.injEq] at h
    obtain ⟨h₁, h₂, h₃, -⟩ := h
    have ha := hbyte a
    have ha' := hbyte a'
    have hb := hbyte b
    have hb' := hbyte b'
    replace h₁ := urlDigit_inj (by omega) (by omega) h₁
    replace h₂ := urlDigit_inj (by omega) (by omega) h₂
    replace h₃ := urlDigit_inj (by omega) (by omega) h₃
    rw [UInt8.toNat_inj.1 (by omega : a.toNat = a'.toNat),
      UInt8.toNat_inj.1 (by omega : b.toNat = b'.toNat)]
  | case3 a =>
    obtain ⟨a', rfl⟩ := List.length_eq_one_iff.1 hlength.symm
    simp only [urlChars, List.cons.injEq] at h
    obtain ⟨h₁, h₂, -⟩ := h
    have ha := hbyte a
    have ha' := hbyte a'
    replace h₁ := urlDigit_inj (by omega) (by omega) h₁
    replace h₂ := urlDigit_inj (by omega) (by omega) h₂
    rw [UInt8.toNat_inj.1 (by omega : a.toNat = a'.toNat)]
  | case4 => exact (List.length_eq_zero_iff.1 hlength.symm).symm

theorem length_sha256 (message : List UInt8) : (sha256 message).length = 32 := by
  simp [sha256, bytesOfNat]

theorem bytesOf_inj {s s' : String} : bytesOf s = bytesOf s' ↔ s = s' := by
  rw [bytesOf, bytesOf, Text.toList_toUTF8, Text.toList_toUTF8, Text.encoded_inj, String.toList_inj]

end Digest

namespace Preview

theorem ending_inj {path path' : Path} : ending path = ending path' ↔
    path.extension? = path'.extension? := by
  unfold ending
  cases path.extension? <;> cases path'.extension? <;> simp [String.toList_inj]

/-- **When two previews share a place**: what is hashed is the same text, and the extensions are the same. -/
theorem route_place_inj {outputDir path path' : Path} {kind kind' data data' : String}
    (hsha : Digest.sha256 (message kind path data) = Digest.sha256 (message kind' path' data') →
      message kind path data = message kind' path' data') :
    (place outputDir kind path data).route = (place outputDir kind' path' data').route ↔
      kind ++ path.text ++ data = kind' ++ path'.text ++ data' ∧
        path.extension? = path'.extension? := by
  rw [route_place_eq, route_place_eq, List.append_cancel_left_eq, List.singleton_inj,
    Component.name.injEq, String.ofList_inj]
  constructor
  · intro h
    have hlength : (Digest.urlChars (Digest.sha256 (message kind path data))).length =
        (Digest.urlChars (Digest.sha256 (message kind' path' data'))).length := by
      simp only [Digest.length_urlChars, Digest.length_sha256]
    obtain ⟨hchars, hending⟩ := List.append_inj h hlength
    exact ⟨Digest.bytesOf_inj.1 (hsha (Digest.urlChars_inj hchars)), ending_inj.1 hending⟩
  · rintro ⟨htext, hext⟩
    rw [message, message, htext, ending_inj.2 hext]

end Preview

namespace FileCommand

/-! ### Commands that have previews -/

/-- The preview of a command, if it has one. -/
def previewIn? (outputDir : Path) (c : FileCommand) : Option Preview :=
  c.preview?.map fun (path, data) =>
    ⟨c.kindName, path, Preview.place outputDir c.kindName path data⟩

/-- The place of the preview of a command, and what is written there. -/
def shown? (outputDir : Path) (c : FileCommand) : Option (Route × String) :=
  c.preview?.map fun (path, data) => ((Preview.place outputDir c.kindName path data).route, data)

/-- The preview of a command shows its new content. -/
def ShownIn (outputDir : Path) (t : FileTree) (c : FileCommand) : Prop :=
  ∀ s ∈ c.preview?, t.read (Preview.place outputDir c.kindName s.1 s.2) = .ok s.2

/-- **Commands that are confused**: they have the same kind, and paths with the same extension that make
the same text together with the contents, but the contents differ. -/
def Confused (c c' : FileCommand) : Prop :=
  ∃ s ∈ c.preview?, ∃ s' ∈ c'.preview?, c.kindName = c'.kindName ∧
    s.1.extension? = s'.1.extension? ∧ s.1.text ++ s.2 = s'.1.text ++ s'.2 ∧ s.2 ≠ s'.2

instance (c c' : FileCommand) : Decidable (c.Confused c') := by
  unfold Confused
  infer_instance

theorem length_kindName {c : FileCommand} {path : Path} {data : String}
    (h : c.preview? = some (path, data)) : c.kindName.toList.length = 10 := by
  cases c with
  | create p data format =>
    show "createFile".toList.length = 10
    decide
  | update p old data format =>
    show "updateFile".toList.length = 10
    decide
  | delete p => cases h
  | move p q => cases h
  | copy p q => cases h

theorem hashed_inj {c d : FileCommand} {path path' : Path} {data data' : String}
    (hc : c.preview? = some (path, data)) (hd : d.preview? = some (path', data')) :
    c.kindName ++ path.text ++ data = d.kindName ++ path'.text ++ data' ↔
      c.kindName = d.kindName ∧ path.text ++ data = path'.text ++ data' := by
  simp only [← String.toList_inj, String.toList_append, List.append_assoc]
  constructor
  · intro h
    exact List.append_inj h (by rw [length_kindName hc, length_kindName hd])
  · rintro ⟨hkind, htext⟩
    rw [hkind, htext]

end FileCommand

namespace Run

variable {w w' : World} {digest : String} {outputDir : Path} {commands : List FileCommand}
  {previews : List Preview}

/-! ### Writing previews in order -/

/-- Writes contents to places, one after another. -/
def writeAll (files : Std.ExtTreeMap Route String) (shown : List (Route × String)) :
    Std.ExtTreeMap Route String :=
  shown.foldl (fun files e => files.insert e.1 e.2) files

theorem apply_dry_of_ok {c : FileCommand} {preview : Option Preview}
    (h : apply (.dry digest outputDir) c w = .ok preview w') :
    preview = c.previewIn? outputDir ∧
      w'.tree.files = writeAll w.tree.files (c.shown? outputDir).toList := by
  unfold apply FileCommand.apply FileCommand.applyDry at h
  unfold FileCommand.previewIn? FileCommand.shown?
  cases hc : c.preview? with
  | none =>
    simp only [hc, EStateM.Result.ok.injEq] at h
    obtain ⟨rfl, rfl⟩ := h
    exact ⟨rfl, rfl⟩
  | some shown =>
    obtain ⟨path, data⟩ := shown
    simp only [hc] at h
    generalize hplace : Preview.place outputDir c.kindName path data = place at h
    rcases hattempt : w.tree.attempt [(·.makeFolders outputDir), (·.write place data)] with
      ⟨_ | _, t⟩
    · simp [hattempt] at h
    · simp only [hattempt, EStateM.Result.ok.injEq] at h
      obtain ⟨rfl, rfl⟩ := h
      obtain ⟨t₁, hfolders, hattempt⟩ := FileTree.attempt_cons_eq_ok.1 hattempt
      obtain ⟨t₂, hwrite, hattempt⟩ := FileTree.attempt_cons_eq_ok.1 hattempt
      obtain rfl := FileTree.attempt_nil_eq_ok.1 hattempt
      obtain ⟨-, rfl⟩ := FileTree.makeFolders_eq_ok.1 hfolders
      obtain ⟨-, -, rfl⟩ := FileTree.write_eq_ok.1 hwrite
      subst hplace
      exact ⟨rfl, by simp [writeAll]⟩

/-- **The previews of a dry run** are those of its commands in their order, and are all that is written. -/
theorem applyAll_dry_of_ok (h : applyAll (.dry digest outputDir) commands w = .ok previews w') :
    previews = commands.filterMap (·.previewIn? outputDir) ∧
      w'.tree.files = writeAll w.tree.files (commands.filterMap (·.shown? outputDir)) := by
  induction commands generalizing w previews with
  | nil =>
    obtain ⟨rfl, rfl⟩ := pure_eq_ok.1 h
    exact ⟨rfl, rfl⟩
  | cons c rest ih =>
    obtain ⟨preview, w₁, hc, h⟩ := bind_eq_ok.1 h
    obtain ⟨later, w₂, hrest, h⟩ := bind_eq_ok.1 h
    obtain ⟨rfl, rfl⟩ := pure_eq_ok.1 h
    obtain ⟨rfl, hfiles⟩ := apply_dry_of_ok hc
    obtain ⟨rfl, hlater⟩ := ih hrest
    rw [hlater, hfiles, List.filterMap_cons, List.filterMap_cons]
    unfold writeAll
    constructor
    · cases c.previewIn? outputDir <;> rfl
    · cases c.shown? outputDir <;> rfl

theorem getElem?_writeAll {files : Std.ExtTreeMap Route String} {shown : List (Route × String)}
    {place : Route} {data : String} (hmem : (place, data) ∈ shown)
    (hsame : ∀ data', (place, data') ∈ shown → data = data') :
    (writeAll files shown)[place]? = some data := by
  unfold writeAll
  induction shown using List.reverseRecOn with
  | nil => cases hmem
  | append_singleton before latest ih =>
    rw [List.foldl_append, List.foldl_cons, List.foldl_nil, Std.ExtTreeMap.getElem?_insert]
    split
    · rename_i hkey
      obtain rfl := Std.LawfulEqOrd.eq_of_compare hkey
      rw [hsame latest.2 (by simp)]
    · rename_i hkey
      have hother : (place, data) ≠ latest := by
        rintro rfl
        exact hkey Std.ReflOrd.compare_self
      exact ih (by simpa [hother] using hmem) fun data' hdata' => hsame data' (by simp [hdata'])

/-! ### Whole runs -/

theorem report_eq_ok {tools : Toolset} {d : Descriptor} {flow : Flow} {mode : RunMode}
    {raw : String → Option String} {rep : RunReport} (h : report tools d flow mode raw w = .ok rep w') :
    ∃ w₁, applyAll mode rep.commands w₁ = .ok rep.previews w' := by
  obtain ⟨_, _, -, h⟩ := bind_eq_ok.1 h
  obtain ⟨arguments, _, -, h⟩ := bind_eq_ok.1 h
  obtain ⟨_, _, -, h⟩ := bind_eq_ok.1 h
  obtain ⟨_, w₁, -, h⟩ := bind_eq_ok.1 h
  obtain ⟨previews, _, hall, h⟩ := bind_eq_ok.1 h
  obtain ⟨rfl, rfl⟩ := pure_eq_ok.1 h
  exact ⟨w₁, hall⟩

/-- What is hashed for the names of the previews of some commands. -/
def hashed (commands : List FileCommand) : List (List UInt8) :=
  commands.filterMap fun c => c.preview?.map fun (path, data) => Preview.message c.kindName path data

theorem mem_hashed {c : FileCommand} {path : Path} {data : String} (hc : c ∈ commands)
    (h : c.preview? = some (path, data)) : Preview.message c.kindName path data ∈ hashed commands :=
  List.mem_filterMap.2 ⟨c, hc, by rw [h]; rfl⟩

/-- Where the hashes of some commands do not collide, the previews of two of them share a place exactly if
the commands are of one kind, and their paths have one extension and make one text with the contents. -/
theorem route_place_inj_of_mem (hsha : ∀ m ∈ hashed commands, ∀ m' ∈ hashed commands,
      Digest.sha256 m = Digest.sha256 m' → m = m') {c c' : FileCommand} (hc : c ∈ commands)
    (hc' : c' ∈ commands) {s s' : Path × String} (hs : c.preview? = some s)
    (hs' : c'.preview? = some s') :
    (Preview.place outputDir c.kindName s.1 s.2).route =
        (Preview.place outputDir c'.kindName s'.1 s'.2).route ↔
      c.kindName = c'.kindName ∧ s.1.extension? = s'.1.extension? ∧
        s.1.text ++ s.2 = s'.1.text ++ s'.2 := by
  rw [Preview.route_place_inj (hsha _ (mem_hashed hc hs) _ (mem_hashed hc' hs')),
    FileCommand.hashed_inj hs hs']
  tauto

/-- **A preview shows its own change unless it is confused with another.** After a dry run that succeeds,
of any codemod on any tree, the previews are those of the commands with new contents, in their order. If
the hashes of the run do not collide, the preview of a command shows its new content unless the command is
confused with another; and of two commands that are confused, one is not shown. -/
theorem previews_own (tools : Toolset) (d : Descriptor) (flow : Flow) (digest : String)
    (outputDir : Path) (raw : String → Option String) (w w' : World) (rep : RunReport)
    (hrun : report tools d flow (.dry digest outputDir) raw w = .ok rep w')
    (hsha : ∀ m ∈ hashed rep.commands, ∀ m' ∈ hashed rep.commands,
      Digest.sha256 m = Digest.sha256 m' → m = m') :
    rep.previews = rep.commands.filterMap (·.previewIn? outputDir) ∧
      (∀ c ∈ rep.commands, (∀ c' ∈ rep.commands, ¬ c.Confused c') → c.ShownIn outputDir w'.tree) ∧
      ∀ c ∈ rep.commands, ∀ c' ∈ rep.commands, c.Confused c' →
        ¬ (c.ShownIn outputDir w'.tree ∧ c'.ShownIn outputDir w'.tree) := by
  obtain ⟨w₁, hall⟩ := report_eq_ok hrun
  obtain ⟨hpreviews, hfiles⟩ := applyAll_dry_of_ok hall
  refine ⟨hpreviews, fun c hc hclear s hshown => ?_, ?_⟩
  · rw [FileTree.read_eq_ok, hfiles]
    refine getElem?_writeAll (List.mem_filterMap.2 ⟨c, hc, ?_⟩) fun data' hmem => ?_
    · rw [FileCommand.shown?, hshown, Option.map_some]
    · obtain ⟨c', hc', hshown'⟩ := List.mem_filterMap.1 hmem
      obtain ⟨s', hpreview, hentry⟩ := Option.map_eq_some_iff.1 hshown'
      obtain ⟨hkey, rfl⟩ := Prod.mk.inj hentry
      obtain ⟨hkind, hext, htext⟩ := (route_place_inj_of_mem hsha hc hc' hshown hpreview).1 hkey.symm
      by_contra hdiffers
      exact hclear c' hc' ⟨s, hshown, s', hpreview, hkind, hext, htext, hdiffers⟩
  · rintro c hc c' hc' ⟨s, hshown, s', hpreview, hkind, hext, htext, hdiffers⟩ ⟨hown, hown'⟩
    have hplace : (Preview.place outputDir c.kindName s.1 s.2).route =
        (Preview.place outputDir c'.kindName s'.1 s'.2).route :=
      (route_place_inj_of_mem hsha hc hc' hshown hpreview).2 ⟨hkind, hext, htext⟩
    have hread := FileTree.read_eq_ok.1 (hown s hshown)
    rw [hplace, FileTree.read_eq_ok.1 (hown' s' hpreview)] at hread
    exact hdiffers (Option.some.inj hread).symm

/-- What a part that succeeds gives, with the world that it leaves. -/
def result? {α : Type} (part : Run α) (w : World) : Option (α × World) :=
  match part w with
  | .ok a w' => some (a, w')
  | .error _ _ => none

theorem result?_eq_some {α : Type} {part : Run α} {a : α} :
    result? part w = some (a, w') ↔ part w = .ok a w' := by
  unfold result?
  cases part w <;> simp

/-- A file whose path goes on where the path of another ends is shown beside it. -/
theorem previews_own_beside :
    ∃ rep w', report addingTools { engine := .jscodeshift, entryPath := ⟨"/add.js"⟩ }
        { target := ⟨"/p"⟩ } (.dry "" ⟨"/out"⟩) (fun _ => none)
        { tree := .ofFiles [(⟨"/p/a.ts"⟩, "1"), (⟨"/p/a.ts.ts"⟩, "2")] } = .ok rep w' ∧
      (∀ m ∈ hashed rep.commands, ∀ m' ∈ hashed rep.commands,
        Digest.sha256 m = Digest.sha256 m' → m = m') ∧
      rep.commands = [.update ⟨"/p/a.ts"⟩ "1" "1y" true, .update ⟨"/p/a.ts.ts"⟩ "2" "2y" true] ∧
      ∀ c ∈ rep.commands, c.ShownIn ⟨"/out"⟩ w'.tree := by
  have hresult : (result? (report addingTools { engine := .jscodeshift, entryPath := ⟨"/add.js"⟩ }
        { target := ⟨"/p"⟩ } (.dry "" ⟨"/out"⟩) fun _ => none)
        { tree := .ofFiles [(⟨"/p/a.ts"⟩, "1"), (⟨"/p/a.ts.ts"⟩, "2")] }).map (·.1.commands) =
      some [.update ⟨"/p/a.ts"⟩ "1" "1y" true, .update ⟨"/p/a.ts.ts"⟩ "2" "2y" true] := by
    decide +kernel
  obtain ⟨⟨rep, w'⟩, hresult, hcommands⟩ := Option.map_eq_some_iff.1 hresult
  have hrun := result?_eq_some.1 hresult
  have hsha : ∀ m ∈ hashed rep.commands, ∀ m' ∈ hashed rep.commands,
      Digest.sha256 m = Digest.sha256 m' → m = m' := by
    rw [hcommands]
    decide +kernel
  have hclear : ∀ c ∈ rep.commands, ∀ c' ∈ rep.commands, ¬ c.Confused c' := by
    rw [hcommands]
    decide +kernel
  obtain ⟨-, hown, -⟩ := previews_own _ _ _ _ _ _ _ _ _ hrun hsha
  exact ⟨rep, w', hrun, hsha, hcommands, fun c hc => hown c hc (hclear c hc)⟩

/-- A transform that gives each of two files a content of its own. -/
def splittingTools : Toolset where
  host := .builtin { transforms := [((⟨"/split.js"⟩ : Path).route,
    fun a => { ending := .returned (some (.str (if a.source = "1" then ".tsX" else "X"))) })] }

/-- **A preview need not show its own change.** Two files are updated, and the previews of both show the
content of the second. -/
theorem previews_confused :
    (result? (report splittingTools { engine := .jscodeshift, entryPath := ⟨"/split.js"⟩ }
        { target := ⟨"/p"⟩ } (.dry "" ⟨"/out"⟩) fun _ => none)
        { tree := .ofFiles [(⟨"/p/a.ts"⟩, "1"), (⟨"/p/a.ts.ts"⟩, "2")] }).map
      (fun (rep, w') => (rep.commands, rep.previews.map fun shown =>
        (shown.originalPath, w'.tree.read shown.previewPath))) =
    some ([.update ⟨"/p/a.ts"⟩ "1" ".tsX" true, .update ⟨"/p/a.ts.ts"⟩ "2" "X" true],
      [(⟨"/p/a.ts"⟩, .ok "X"), (⟨"/p/a.ts.ts"⟩, .ok "X")]) := by
  decide +kernel

end Run

end BulkEdit
