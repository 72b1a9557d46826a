import BulkEdit.Proofs.Path.Spelling
import Mathlib.Data.List.Infix

/-!
# Places

The routes that paths name are those in normal form: perhaps the root, perhaps one step up, and then
names (`IsPlace`, `route_isPlace`). Such a route is spelled by a path with the same components
(`components_toPath`), so spelling it and reading it again gives it back (`route_toPath`). The last
section compares the folder of a path with the folder of the place that it names.
-/

namespace BulkEdit

/-- A name that can stand between separators. -/
def Component.IsName (c : Component) : Prop :=
  ∃ text : String, c = .name text ∧ text.toList ≠ [] ∧ text.toList ≠ ['.'] ∧
    text.toList ≠ ['.', '.'] ∧ '/' ∉ text.toList

namespace Route

/-- What may stand before the names of a place. -/
def heads : List Route := [[], [.root], [.up], [.root, .up]]

/-- A route in normal form. -/
def IsPlace (r : Route) : Prop :=
  ∃ head names, r = head ++ names ∧ head ∈ heads ∧ ∀ c ∈ names, c.IsName

theorem isPlace_nil : IsPlace [] := ⟨[], [], rfl, by decide, by simp⟩

theorem parent?_append {r : Route} {c : Component} (hc : c ≠ .root) :
    parent? (r ++ [c]) = some r := by
  cases c <;> simp_all [parent?]

theorem IsName.ne_root {c : Component} (h : c.IsName) : c ≠ .root := by
  obtain ⟨text, rfl, -⟩ := h
  simp

theorem step_name {r : Route} {c : Component} (h : c.IsName) : r.step c = r ++ [c] := by
  obtain ⟨text, rfl, -⟩ := h
  rfl

theorem IsPlace.step {r : Route} (hr : IsPlace r) {c : Component} (hc : c = .up ∨ c.IsName) :
    IsPlace (r.step c) := by
  obtain ⟨head, names, rfl, hhead, hnames⟩ := hr
  rcases hc with rfl | hc
  · rcases List.eq_nil_or_concat names with rfl | ⟨before, last, rfl⟩
    · rw [List.append_nil]
      simp only [heads, List.mem_cons, List.not_mem_nil, or_false] at hhead
      rcases hhead with rfl | rfl | rfl | rfl
      · exact ⟨[.up], [], rfl, by decide, by simp⟩
      · exact ⟨[.root, .up], [], rfl, by decide, by simp⟩
      · exact ⟨[], [], rfl, by decide, by simp⟩
      · exact ⟨[.root], [], rfl, by decide, by simp⟩
    · -- the step up takes the last name back
      have hlast : last.IsName := hnames last (by simp)
      refine ⟨head, before, ?_, hhead, fun c hc => hnames c (by simp [hc])⟩
      simp only [Route.step]
      rw [List.concat_eq_append, ← List.append_assoc, parent?_append (IsName.ne_root hlast)]
  · refine ⟨head, names ++ [c], ?_, hhead, ?_⟩
    · rw [step_name hc, List.append_assoc]
    · intro d hd
      rcases List.mem_append.1 hd with hd | hd
      · exact hnames d hd
      · exact List.mem_singleton.1 hd ▸ hc

theorem head?_step {r : Route} (hr : r.head? = some .root) (c : Component) :
    (r.step c).head? = some .root := by
  obtain ⟨rest, rfl⟩ := List.head?_eq_some_iff.1 hr
  cases c with
  | current => rfl
  | up =>
    simp only [step]
    cases hparent : parent? (.root :: rest) with
    | none => rfl
    | some parent =>
      unfold parent? at hparent
      split at hparent
      · cases hparent
      · cases hparent
      · rename_i hroot hlast
        obtain rfl := Option.some.inj hparent
        cases rest with
        | nil => exact absurd (Option.some.inj hlast).symm hroot
        | cons d more => rfl
  | root => rfl
  | name text => rfl

theorem foldl_step_names (names : List Component) (h : ∀ c ∈ names, c.IsName) (r : Route) :
    names.foldl step r = r ++ names := by
  induction names generalizing r with
  | nil => simp
  | cons c rest ih =>
    have hrest := ih (fun d hd => h d (List.mem_cons_of_mem _ hd)) (r ++ [c])
    rw [List.foldl_cons, step_name (h c (List.mem_cons_self ..)), hrest, List.append_assoc]
    rfl

/-- A place is where its own components lead. -/
theorem IsPlace.foldl_step {r : Route} (hr : IsPlace r) : r.foldl Route.step [] = r := by
  obtain ⟨head, names, rfl, hhead, hnames⟩ := hr
  have hstart : head.foldl Route.step [] = head := by
    simp only [heads, List.mem_cons, List.not_mem_nil, or_false] at hhead
    rcases hhead with rfl | rfl | rfl | rfl <;> rfl
  rw [List.foldl_append, hstart, foldl_step_names names hnames]

theorem IsPlace.of_initial {r a : Route} (hr : IsPlace r) (ha : a <+: r) : IsPlace a := by
  obtain ⟨head, names, rfl, hhead, hnames⟩ := hr
  rcases List.prefix_or_prefix_of_prefix ha (List.prefix_append head names) with hpre | ⟨t, rfl⟩
  · have hclosed : ∀ h ∈ heads, ∀ a ∈ h.inits, a ∈ heads := by decide
    exact ⟨a, [], by simp, hclosed head hhead a ((List.mem_inits a head).2 hpre), by simp⟩
  · have ht : t <+: names := (List.prefix_append_right_inj head).1 ha
    exact ⟨head, t, rfl, hhead, fun c hc => hnames c (ht.subset hc)⟩

theorem IsPlace.root_not_mem_tail {r : Route} (hr : IsPlace r) : .root ∉ r.tail := by
  obtain ⟨head, names, rfl, hhead, hnames⟩ := hr
  have hroot : .root ∉ names := fun h => IsName.ne_root (hnames _ h) rfl
  have htails : ∀ h ∈ heads, .root ∉ h.tail := by decide
  cases head with
  | nil => exact fun h => hroot (List.mem_of_mem_tail h)
  | cons c rest =>
    rw [List.cons_append, List.tail_cons, List.mem_append]
    exact fun h => h.elim (htails _ hhead) hroot

end Route

namespace Path

open Route

theorem componentOf_step {s : List Char} (hplain : '/' ∉ s) (hvis : isVisible s = true) :
    componentOf s = .up ∨ (componentOf s).IsName := by
  simp only [isVisible, Bool.and_eq_true, decide_eq_true_eq, ne_eq] at hvis
  unfold componentOf
  split
  · exact Or.inl rfl
  · rename_i hup
    exact Or.inr ⟨String.ofList s, rfl, by simp_all⟩

/-- **Every path names a place.** -/
theorem route_isPlace (p : Path) : p.route.IsPlace := by
  have hsteps : ∀ c ∈ visible p.segments, c = .up ∨ c.IsName := by
    intro c hc
    obtain ⟨s, hs, rfl⟩ := List.mem_map.1 hc
    obtain ⟨hs, hvis⟩ := List.mem_filter.1 hs
    exact componentOf_step (segments_plain hs) hvis
  have hrun : ∀ (cs : List Component), (∀ c ∈ cs, c = .up ∨ c.IsName) → ∀ r : Route, r.IsPlace →
      (cs.foldl step r).IsPlace := by
    intro cs
    induction cs with
    | nil => exact fun _ r hr => hr
    | cons c rest ih =>
      exact fun h r hr => ih (fun d hd => h d (List.mem_cons_of_mem _ hd)) _
        (hr.step (h c (List.mem_cons_self ..)))
  unfold Path.route
  rw [components_eq, List.foldl_append]
  refine hrun _ hsteps _ ?_
  cases p.lead with
  | root => exact ⟨[.root], [], rfl, by decide, by simp⟩
  | _ => exact isPlace_nil

theorem head?_route {p : Path} (h : p.isAbsolute = true) : p.route.head? = some .root := by
  have hlead : p.lead = .root := by
    unfold isAbsolute at h
    rw [beq_iff_eq, List.head?_eq_some_iff] at h
    obtain ⟨rest, hrest⟩ := h
    rw [Path.lead, hrest]
    rfl
  have hrun : ∀ (cs : List Component) (r : Route), r.head? = some .root →
      (cs.foldl step r).head? = some .root := by
    intro cs
    induction cs with
    | nil => exact fun r hr => hr
    | cons c rest ih => exact fun r hr => ih _ (head?_step hr c)
  unfold Path.route
  rw [components_eq, hlead, List.foldl_append]
  exact hrun _ _ rfl

end Path

namespace Route

/-! ### Spelling a place -/

/-- The segments that spell some components. -/
def segments (r : Route) : List (List Char) := r.map fun c => c.text.toList

theorem visible_segments {r : Route} (h : ∀ c ∈ r, c = .up ∨ c.IsName) :
    Path.visible r.segments = r := by
  induction r with
  | nil => rfl
  | cons c rest ih =>
    have hrest := ih fun d hd => h d (List.mem_cons_of_mem _ hd)
    have hc : Path.isVisible c.text.toList = true ∧ Path.componentOf c.text.toList = c := by
      rcases h c (List.mem_cons_self ..) with rfl | ⟨text, rfl, hne, hdot, hup, -⟩
      · decide
      · simp [Path.isVisible, Path.componentOf, Component.text, hne, hdot, hup]
    unfold Path.visible at hrest ⊢
    simp only [segments, List.map_cons, List.filter_cons, hc.1, if_true, hc.2]
    rw [show (rest.map fun c => c.text.toList) = segments rest from rfl, hrest]

theorem plain_segments {r : Route} (h : ∀ c ∈ r, c = .up ∨ c.IsName) :
    ∀ s ∈ r.segments, '/' ∉ s := by
  intro s hs
  obtain ⟨c, hc, rfl⟩ := List.mem_map.1 hs
  rcases h c hc with rfl | ⟨text, rfl, -, -, -, hplain⟩
  · decide
  · exact hplain

theorem toList_intercalate_text (r : Route) :
    ("/".intercalate (r.map Component.text)).toList = Text.joined '/' r.segments := by
  rw [String.toList_intercalate, segments, ← Text.intercalate_eq_joined]
  simp [Function.comp_def]

theorem toPath_root (r : Route) : toPath (.root :: r) = Path.ofParts .root r.segments := by
  unfold toPath Path.ofParts text
  congr 1
  rw [← String.toList_inj, String.toList_ofList, String.toList_append, toList_intercalate_text]
  rfl

theorem toPath_relative {r : Route} (h : r.head? ≠ some .root) :
    toPath r = Path.ofParts .nothing r.segments := by
  unfold toPath Path.ofParts text
  congr 1
  rw [← String.toList_inj, String.toList_ofList]
  split
  · exact absurd rfl h
  · rw [toList_intercalate_text]
    rfl

theorem fits_segments {r : Route} (h : ∀ c ∈ r, c = .up ∨ c.IsName) :
    Path.Fits .nothing r.segments := by
  intro s hs
  cases r with
  | nil => simp [segments] at hs
  | cons c rest =>
    obtain rfl := Option.some.inj hs
    rcases h c (List.mem_cons_self ..) with rfl | ⟨text, rfl, hne, hdot, -, -⟩
    · decide
    · exact ⟨hne, hdot⟩

/-- The spelling of a place: its segments behind what it starts from. -/
theorem IsPlace.exists_parts {r : Route} (hr : IsPlace r) :
    ∃ (lead : Path.Lead) (steps : Route), (lead = .nothing ∨ lead = .root) ∧
      r = lead.components ++ steps ∧ (∀ c ∈ steps, c = .up ∨ c.IsName) ∧
      Path.Fits lead steps.segments ∧ r.toPath = Path.ofParts lead steps.segments := by
  have hcases : ∃ rest, (r = .root :: rest ∨ r = rest) ∧ ∀ c ∈ rest, c = .up ∨ c.IsName := by
    obtain ⟨head, names, rfl, hhead, hnames⟩ := hr
    have hsteps : ∀ c ∈ names, c = .up ∨ c.IsName := fun c hc => Or.inr (hnames c hc)
    simp only [heads, List.mem_cons, List.not_mem_nil, or_false] at hhead
    rcases hhead with rfl | rfl | rfl | rfl
    · exact ⟨names, Or.inr rfl, hsteps⟩
    · exact ⟨names, Or.inl rfl, hsteps⟩
    · exact ⟨.up :: names, Or.inr rfl, by simpa using hsteps⟩
    · exact ⟨.up :: names, Or.inl rfl, by simpa using hsteps⟩
  obtain ⟨rest, rfl | rfl, hrest⟩ := hcases
  · exact ⟨.root, rest, Or.inr rfl, rfl, hrest, trivial, toPath_root rest⟩
  · have hhead : r.head? ≠ some .root := by
      intro he
      rcases hrest .root (List.mem_of_mem_head? he) with h | ⟨text, h, -⟩ <;> cases h
    exact ⟨.nothing, r, Or.inl rfl, rfl, hrest, fits_segments hrest, toPath_relative hhead⟩

/-- **The path that spells a place has the components of the place.** -/
theorem IsPlace.components_toPath {r : Route} (hr : IsPlace r) : r.toPath.components = r := by
  obtain ⟨lead, steps, -, rfl, hsteps, hfit, htext⟩ := hr.exists_parts
  rw [htext, Path.components_ofParts hfit (plain_segments hsteps), visible_segments hsteps]

/-- **Spelling a place and reading the path again gives the place back.** -/
theorem IsPlace.route_toPath {r : Route} (hr : IsPlace r) : r.toPath.route = r := by
  unfold Path.route
  rw [hr.components_toPath, hr.foldl_step]

end Route

theorem Path.components_normalize (p : Path) : p.normalize.components = p.route :=
  p.route_isPlace.components_toPath

namespace Route

/-! ### Folders and ancestors -/

theorem folder?_append {r : Route} {c : Component} (hr : r ≠ []) (hc : c ≠ .root) :
    folder? (r ++ [c]) = some r := by
  unfold folder?
  rw [parent?_append hc]
  simp [Option.filter, hr]

theorem parent?_eq_some {r parent : Route} (h : r.parent? = some parent) :
    ∃ c, c ≠ .root ∧ r = parent ++ [c] := by
  unfold parent? at h
  rcases List.eq_nil_or_concat r with rfl | ⟨before, c, rfl⟩
  · simp at h
  · rw [List.concat_eq_append] at h ⊢
    rw [List.getLast?_concat, List.dropLast_concat] at h
    cases c <;> simp_all

theorem folder?_eq_some {r folder : Route} (h : r.folder? = some folder) :
    folder ≠ [] ∧ ∃ c, c ≠ .root ∧ r = folder ++ [c] := by
  obtain ⟨hparent, hne⟩ := Option.filter_eq_some_iff.1 h
  exact ⟨by simpa using hne, parent?_eq_some hparent⟩

theorem folder?_eq_none_of_length {r : Route} (h : r.length ≤ 1) : r.folder? = none := by
  cases hf : r.folder? with
  | none => rfl
  | some folder =>
    obtain ⟨hne, c, -, rfl⟩ := folder?_eq_some hf
    have hpos := List.length_pos_iff.2 hne
    rw [List.length_append, List.length_singleton] at h
    omega

theorem mem_ancestors {r a : Route} : a ∈ r.ancestors ↔ a ≠ [] ∧ a <+: r ∧ a ≠ r := by
  induction r generalizing a with
  | nil => simp only [ancestors, List.not_mem_nil, List.prefix_nil]; tauto
  | cons c rest ih =>
    cases a with
    | nil => cases rest <;> simp [ancestors]
    | cons d a =>
      cases rest with
      | nil => simp only [ancestors, List.not_mem_nil, List.cons_prefix_cons, List.prefix_nil]; aesop
      | cons e more =>
        simp only [ancestors, List.mem_append, List.mem_map, List.cons.injEq, List.mem_singleton,
          List.cons_prefix_cons, ih]
        by_cases ha : a = [] <;> aesop

theorem IsPlace.of_mem_ancestors {r a : Route} (hr : IsPlace r) (ha : a ∈ r.ancestors) : IsPlace a :=
  hr.of_initial (mem_ancestors.1 ha).2.1

theorem not_mem_ancestors_self (r : Route) : r ∉ r.ancestors := fun h => (mem_ancestors.1 h).2.2 rfl

theorem mem_ancestors_of_folder? {r folder : Route} (h : r.folder? = some folder) :
    folder ∈ r.ancestors := by
  obtain ⟨hne, c, -, rfl⟩ := folder?_eq_some h
  exact mem_ancestors.2 ⟨hne, List.prefix_append _ _, by simp⟩

theorem mem_ancestors_trans {a b r : Route} (hab : a ∈ b.ancestors) (hbr : b ∈ r.ancestors) :
    a ∈ r.ancestors := by
  obtain ⟨hne, hpre, hself⟩ := mem_ancestors.1 hab
  obtain ⟨-, hpre', hself'⟩ := mem_ancestors.1 hbr
  refine mem_ancestors.2 ⟨hne, hpre.trans hpre', ?_⟩
  rintro rfl
  exact hself' (hpre'.eq_of_length_le hpre.length_le)

theorem ancestors_of_folder? {r folder : Route} (h : r.folder? = some folder) :
    r.ancestors = folder :: folder.ancestors := by
  obtain ⟨hne, c, -, rfl⟩ := folder?_eq_some h
  clear h
  induction folder with
  | nil => exact absurd rfl hne
  | cons d rest ih =>
    cases rest with
    | nil => rfl
    | cons e more =>
      have hrest := ih (by simp)
      simp only [List.cons_append] at hrest
      simp only [List.cons_append, ancestors, hrest, List.map_cons]

theorem IsPlace.ancestors_of_folder?_none {r : Route} (hr : IsPlace r) (h : r.folder? = none) :
    r.ancestors = [] := by
  rw [List.eq_nil_iff_forall_not_mem]
  intro a ha
  obtain ⟨hne, ⟨tail, rfl⟩, hself⟩ := mem_ancestors.1 ha
  rcases List.eq_nil_or_concat tail with rfl | ⟨between, c, rfl⟩
  · simp at hself
  · have hlast : c ≠ .root := by
      rintro rfl
      obtain ⟨d, rest, rfl⟩ := List.exists_cons_of_ne_nil hne
      exact hr.root_not_mem_tail (by simp)
    rw [List.concat_eq_append, ← List.append_assoc, folder?_append (by simp [hne]) hlast] at h
    cases h

theorem pairwise_ancestors (r : Route) : r.ancestors.Pairwise fun a b => b ∈ a.ancestors := by
  induction r with
  | nil => exact List.Pairwise.nil
  | cons c rest ih =>
    cases rest with
    | nil => exact List.Pairwise.nil
    | cons d more =>
      rw [ancestors, List.pairwise_append]
      · refine ⟨List.pairwise_map.2 (ih.imp fun {a b} hab => ?_), by simp, ?_⟩
        · obtain ⟨hne, hpre, hself⟩ := mem_ancestors.1 hab
          exact mem_ancestors.2 ⟨by simp, List.cons_prefix_cons.2 ⟨rfl, hpre⟩, by simpa using hself⟩
        · intro a ha b hb
          obtain ⟨a', ha', rfl⟩ := List.mem_map.1 ha
          obtain rfl := List.mem_singleton.1 hb
          have hne := (mem_ancestors.1 ha').1
          exact mem_ancestors.2 ⟨by simp, by simp, by simpa using Ne.symm hne⟩
      · simp

end Route

/-- A path in a folder leads to an entry of the folder's place, or one step up from it. -/
theorem Path.route_of_folder? {p folder : Path} (h : p.folder? = some folder) :
    (∃ c, c ≠ .root ∧ p.components.getLast? = some c ∧ p.route = folder.route ++ [c]) ∨
      (p.components.getLast? = some .up ∧ folder.route.parent? = some p.route) := by
  obtain ⟨-, c, hc, hcomp⟩ := folder?_components h
  have hlast : p.components.getLast? = some c := by simp [hcomp]
  have hroute : p.route = folder.route.step c := by
    unfold Path.route
    rw [hcomp, List.foldl_append]
    rfl
  rcases hc with rfl | ⟨name, rfl⟩
  · cases hp : folder.route.parent? with
    | none => exact Or.inl ⟨.up, by simp, hlast, by rw [hroute, Route.step, hp]⟩
    | some parent => exact Or.inr ⟨hlast, by rw [hroute, Route.step, hp]⟩
  · exact Or.inl ⟨.name name, by simp, hlast, hroute⟩

/-- The last component of a route if it is an ordinary name. -/
def Route.fileName? (r : Route) : Option String :=
  match r.getLast? with
  | some (.name text) => some text
  | _ => none

theorem Path.fileName?_eq (p : Path) : p.fileName? = Route.fileName? p.components := rfl

theorem Path.fileName?_normalize (p : Path) : p.normalize.fileName? = p.route.fileName? := by
  rw [fileName?_eq, components_normalize]

/-- What stands above the folder of a path is the place of the path, or stands above it. -/
theorem Path.eq_or_mem_ancestors {p folder : Path} (h : p.folder? = some folder) {a : Route}
    (ha : a ∈ folder.route.ancestors) : a = p.route ∨ a ∈ p.route.ancestors := by
  obtain ⟨hne, hbelow, hself⟩ := Route.mem_ancestors.1 ha
  rcases Path.route_of_folder? h with ⟨c, -, -, hroute⟩ | ⟨-, hparent⟩
  · right
    rw [hroute]
    refine Route.mem_ancestors.2 ⟨hne, hbelow.trans (List.prefix_append ..), fun he => ?_⟩
    have hlength := hbelow.length_le
    rw [he, List.length_append, List.length_singleton] at hlength
    omega
  · -- the path leads up, to the place that its folder stands in
    obtain ⟨c, -, hfolder⟩ := Route.parent?_eq_some hparent
    rw [hfolder] at hbelow hself
    by_cases he : a = p.route
    · exact Or.inl he
    · have hinitial := (List.prefix_concat_iff.1 hbelow).resolve_left hself
      exact Or.inr (Route.mem_ancestors.2 ⟨hne, hinitial, he⟩)

/-- The folder of the place of a path is the place of its folder, unless the path leads up. -/
theorem Path.folder?_route {p folder : Path} (h : p.folder? = some folder) {r : Route}
    (hr : p.route.folder? = some r) : r = folder.route ∨ p.route ∈ folder.route.ancestors := by
  rcases Path.route_of_folder? h with ⟨c, hc, -, hroute⟩ | ⟨-, hparent⟩
  · left
    rw [hroute] at hr
    by_cases hnil : folder.route = []
    · rw [hnil, Route.folder?_eq_none_of_length (by simp)] at hr
      cases hr
    · rw [Route.folder?_append hnil hc] at hr
      exact (Option.some.inj hr).symm
  · right
    obtain ⟨hne, c, -, hroute⟩ := Route.folder?_eq_some hr
    have hup : folder.route.folder? = some p.route := by
      simp [Route.folder?, hparent, Option.filter, hroute]
    exact Route.mem_ancestors_of_folder? hup

/-- The place of a path without a folder has none either, and has the name of the path. -/
theorem Path.route_of_folder?_none {p : Path} (h : p.folder? = none) :
    p.route.folder? = none ∧ p.route.fileName? = p.fileName? := by
  have hlen := length_components_of_folder?_eq_none h
  unfold Path.route Path.fileName?
  match hp : p.components, hlen with
  | [], _ => exact ⟨rfl, rfl⟩
  | [c], _ => cases c <;> exact ⟨rfl, rfl⟩

theorem Path.folder?_of_isPlace {p folder : Path} (hp : Route.IsPlace p.components)
    (h : p.folder? = some folder) : Route.folder? p.components = some folder.route := by
  obtain ⟨hne, c, hc, hcomp⟩ := Path.folder?_components h
  have hfolder : folder.route = folder.components :=
    (hp.of_initial (hcomp ▸ List.prefix_append _ _)).foldl_step
  have hroot : c ≠ .root := by rcases hc with rfl | ⟨name, rfl⟩ <;> simp
  rw [hcomp, hfolder]
  exact Route.folder?_append hne hroot

end BulkEdit
