import BulkEdit.Proofs.Settings.RoundTrip

/-!
# Descriptors are one level deep

A value that is read as a descriptor lists its codemods in one array at most, each of them is read as a
descriptor, and these are the steps (`ofJson_eq_ok`). So all that stands anywhere among its codemods and the
codemods of these is read (`Within.exists_ofJson`), and keeps the rule for steps. With the constructors, which
keep the rule too (`Made.wellFormed`), and with `ofJson_toJson` this settles which descriptors there are and
what is written for them (`oneLevel`).
-/

namespace BulkEdit

open Json (under)

namespace Json

variable {seen : List (String × Json)} {name other : String} {value : Json}

theorem under_concat_self : under (seen ++ [(name, value)]) name = under seen name ++ [value] := by
  simp [under]

theorem under_concat_of_ne (h : name ≠ other) : under (seen ++ [(name, value)]) other = under seen other := by
  simp [under, h]

end Json

namespace Descriptor

variable {v w : Json} {d : Descriptor}

/-! ### What a value says -/

/-- The members of a value; an array gives the fields in order. -/
def entries : Json → List (String × Json)
  | .obj members => members
  | .arr items => fields.zip items
  | _ => []

def itemsOf : Json → List Json
  | .arr items => items
  | _ => []

/-- The values that are listed as the codemods of a value. -/
def children (v : Json) : List Json :=
  (under (entries v) "codemods").flatMap itemsOf

/-- Whether the value says that it is a recipe. -/
def IsRecipe (v : Json) : Prop :=
  ∃ value ∈ under (entries v) "engine", Engine.ofJson? value = some .recipe

/-- The values that stand where a descriptor stands: a value itself, its codemods, the codemods of these, and
so on. -/
inductive Within (v : Json) : Json → Prop
  | self : Within v v
  | child {w c : Json} : Within v w → c ∈ children w → Within v c

/-! ### What is read -/

/-- What a draft keeps of the members that it has taken in: an engine and steps, each at most once. -/
structure Draft.Keeps (draft : Draft) (seen : List (String × Json)) : Prop where
  engine : (under seen "engine").map Engine.ofJson? = draft.engine.toList.map some
  steps : draft.steps = none ∧ under seen "codemods" = [] ∨
    ∃ items steps, draft.steps = some steps ∧ under seen "codemods" = [.arr items] ∧
      ofSteps items = .ok steps

theorem Draft.fill_eq_ok {α : Type} {part value : Option α} {set : α → Draft} {draft : Draft} :
    fill part value set = .ok draft ↔ part = none ∧ ∃ a, value = some a ∧ draft = set a := by
  unfold fill
  split
  · simp [eq_comm]
  · rename_i hother
    refine iff_of_false (fun h => nomatch h) ?_
    rintro ⟨rfl, a, rfl, -⟩
    exact hother a rfl rfl

namespace Draft.Keeps

variable {draft draft' : Draft} {seen : List (String × Json)} {name : String} {value : Json}

theorem empty : Keeps {} [] := ⟨rfl, Or.inl ⟨rfl, rfl⟩⟩

/-- Another member than the engine and the steps changes neither. -/
theorem of_same (h : draft.Keeps seen) (hengine : name ≠ "engine") (hsteps : name ≠ "codemods")
    (hsame : draft'.engine = draft.engine ∧ draft'.steps = draft.steps) :
    draft'.Keeps (seen ++ [(name, value)]) := by
  constructor
  · rw [Json.under_concat_of_ne hengine, hsame.1]
    exact h.engine
  · rw [Json.under_concat_of_ne hsteps, hsame.2]
    exact h.steps

/-- Nor does a part that is filled with what such a member gives. -/
theorem of_fill {α : Type} {part given : Option α} {set : α → Draft} (h : draft.Keeps seen)
    (hfill : fill part given set = .ok draft') (hengine : name ≠ "engine") (hsteps : name ≠ "codemods")
    (hset : ∀ a, (set a).engine = draft.engine ∧ (set a).steps = draft.steps) :
    draft'.Keeps (seen ++ [(name, value)]) := by
  obtain ⟨-, a, -, rfl⟩ := fill_eq_ok.1 hfill
  exact h.of_same hengine hsteps (hset a)

theorem take (h : draft.Keeps seen) (hsteps : name ≠ "codemods")
    (htake : draft.take name value = .ok draft') : draft'.Keeps (seen ++ [(name, value)]) := by
  unfold Draft.take at htake
  split at htake
  · exact h.of_fill htake (by decide) hsteps fun _ => ⟨rfl, rfl⟩
  · -- the engine
    obtain ⟨hnone, e, hread, rfl⟩ := fill_eq_ok.1 htake
    have hfirst := h.engine
    rw [hnone] at hfirst
    constructor
    · rw [Json.under_concat_self, List.map_append, hfirst, List.map_singleton, hread]
      rfl
    · rw [Json.under_concat_of_ne hsteps]
      exact h.steps
  · exact h.of_fill htake (by decide) hsteps fun _ => ⟨rfl, rfl⟩
  · exact h.of_fill htake (by decide) hsteps fun _ => ⟨rfl, rfl⟩
  · exact h.of_fill htake (by decide) hsteps fun _ => ⟨rfl, rfl⟩
  · rename_i hengine _ _ _
    split at htake
    · obtain rfl := Except.ok.inj htake
      exact h.of_same hengine hsteps ⟨rfl, rfl⟩
    · cases htake

theorem ofMember (h : draft.Keeps seen) (hmember : Descriptor.ofMember draft name value = .ok draft') :
    draft'.Keeps (seen ++ [(name, value)]) := by
  unfold Descriptor.ofMember at hmember
  split at hmember
  · rename_i hname
    subst hname
    split at hmember
    · -- the first list of codemods
      rename_i items hnone
      split at hmember
      · rename_i steps hread
        obtain rfl := Except.ok.inj hmember
        have hfirst : under seen "codemods" = [] := by
          rcases h.steps with ⟨-, hfirst⟩ | ⟨_, _, hsome, -, -⟩
          · exact hfirst
          · rw [hnone] at hsome
            cases hsome
        constructor
        · rw [Json.under_concat_of_ne (by decide)]
          exact h.engine
        · refine Or.inr ⟨items, steps, rfl, ?_, hread⟩
          rw [Json.under_concat_self, hfirst, List.nil_append]
      · cases hmember
    · split at hmember <;> cases hmember
    · cases hmember
  · rename_i hname
    exact h.take hname hmember

theorem ofMembers {more : List (String × Json)} (h : draft.Keeps seen)
    (hmembers : Descriptor.ofMembers draft more = .ok draft') : draft'.Keeps (seen ++ more) := by
  induction more generalizing draft seen with
  | nil =>
    obtain rfl := Except.ok.inj hmembers
    rwa [List.append_nil]
  | cons member rest ih =>
    obtain ⟨name, value⟩ := member
    rw [Descriptor.ofMembers] at hmembers
    split at hmembers
    · rename_i next hmember
      have hrest := ih (h.ofMember hmember) hmembers
      rwa [List.append_assoc] at hrest
    · cases hmembers

end Draft.Keeps

/-- An array is read as the members that it gives. -/
theorem ofMembers_zip {draft draft' : Draft} {names : List String} {items : List Json}
    (h : ofFields draft names items = .ok draft') : ofMembers draft (names.zip items) = .ok draft' := by
  induction items generalizing draft names with
  | nil =>
    rw [ofFields] at h
    rw [List.zip_nil_right, ofMembers, h]
  | cons value rest ih =>
    cases names with
    | nil =>
      rw [ofFields] at h
      cases h
    | cons name names =>
      rw [ofFields] at h
      rw [List.zip_cons_cons, ofMembers]
      split at h
      · exact ih h
      · cases h

/-- What is read as a descriptor is a draft of its members that is complete. -/
theorem exists_draft (h : ofJson v = .ok d) :
    ∃ draft, ofMembers {} (entries v) = .ok draft ∧ draft.finish = .ok d := by
  unfold ofJson at h
  split at h
  · split at h
    · rename_i draft hread
      exact ⟨draft, hread, h⟩
    · cases h
  · split at h
    · rename_i draft hread
      exact ⟨draft, ofMembers_zip hread, h⟩
    · cases h
  · split at h <;> cases h
  · split at h <;> cases h
  · cases h

theorem mapError_eq_ok {ε ε' α : Type} {x : Except ε α} {f : ε → ε'} {a : α} :
    x.mapError f = .ok a ↔ x = .ok a := by
  cases x with
  | error e => exact iff_of_false (fun h => nomatch h) fun h => nomatch h
  | ok b => exact iff_of_eq ((Except.ok.injEq b a).trans (Except.ok.injEq b a).symm)

theorem finish_eq_ok {draft : Draft} (h : draft.finish = .ok d) :
    draft.engine = some d.engine ∧ d.steps = draft.steps.getD [] ∧ d.WellFormed := by
  unfold Draft.finish at h
  split at h
  · cases h
  · rename_i engine hengine
    obtain ⟨rfl, hwell⟩ := assemble_eq_ok.1 (mapError_eq_ok.1 h)
    exact ⟨hengine, rfl, hwell⟩

theorem ofSteps_eq_ok {items : List Json} {steps : List Codemod} (h : ofSteps items = .ok steps) :
    ∃ ds : List Descriptor, items.map ofJson = ds.map .ok ∧ steps = ds.map toCodemod := by
  induction items generalizing steps with
  | nil =>
    obtain rfl := Except.ok.inj h
    exact ⟨[], rfl, rfl⟩
  | cons item rest ih =>
    rw [ofSteps] at h
    split at h
    · cases h
    · rename_i d hitem
      split at h
      · cases h
      · rename_i more hrest
        obtain rfl := Except.ok.inj h
        obtain ⟨ds, hds, rfl⟩ := ih hrest
        exact ⟨d :: ds, by rw [List.map_cons, List.map_cons, hitem, hds], rfl⟩

/-- **What is read as a descriptor** keeps the rule for steps; it says that it is a recipe exactly if it is
read as one; and its codemods are read as descriptors, which are the steps. -/
theorem ofJson_eq_ok (h : ofJson v = .ok d) :
    d.WellFormed ∧ (IsRecipe v ↔ d.engine = .recipe) ∧
      ∃ ds : List Descriptor, (children v).map ofJson = ds.map .ok ∧ d.steps = ds.map toCodemod := by
  obtain ⟨draft, hread, hfinish⟩ := exists_draft h
  obtain ⟨hengine, hsteps, hwell⟩ := finish_eq_ok hfinish
  have hkeeps := Draft.Keeps.empty.ofMembers hread
  rw [List.nil_append] at hkeeps
  refine ⟨hwell, ?_, ?_⟩
  · have hengines := hkeeps.engine
    rw [hengine] at hengines
    have hmem : IsRecipe v ↔ some .recipe ∈ (under (entries v) "engine").map Engine.ofJson? := by
      simp [IsRecipe]
    rw [hmem, hengines]
    simp [eq_comm]
  · rcases hkeeps.steps with ⟨hnone, hnil⟩ | ⟨items, steps, hsome, hlist, hitems⟩
    · refine ⟨[], ?_, ?_⟩
      · rw [children, hnil]
        rfl
      · rw [hsteps, hnone]
        rfl
    · obtain ⟨ds, hds, rfl⟩ := ofSteps_eq_ok hitems
      refine ⟨ds, ?_, ?_⟩
      · rwa [children, hlist, List.flatMap_singleton]
      · rw [hsteps, hsome]
        rfl

/-! ### What is refused -/

theorem exists_child_of_map {cs : List Json} {ds : List Descriptor} (h : cs.map ofJson = ds.map .ok)
    {c : Json} (hc : c ∈ cs) : ∃ child ∈ ds, ofJson c = .ok child := by
  have hread : ofJson c ∈ ds.map .ok := h ▸ List.mem_map_of_mem hc
  obtain ⟨child, hchild, heq⟩ := List.mem_map.1 hread
  exact ⟨child, hchild, heq.symm⟩

/-- All that stands where a descriptor stands in a value is read if the value is. -/
theorem Within.exists_ofJson (h : Within v w) (hread : ofJson v = .ok d) : ∃ d', ofJson w = .ok d' := by
  induction h with
  | self => exact ⟨d, hread⟩
  | child _ hc ih =>
    obtain ⟨_, hw⟩ := ih
    obtain ⟨-, -, ds, hds, -⟩ := ofJson_eq_ok hw
    obtain ⟨child, -, hchild⟩ := exists_child_of_map hds hc
    exact ⟨child, hchild⟩

theorem not_isRecipe_of_mem_children (h : ofJson v = .ok d) {c : Json} (hc : c ∈ children v) :
    ¬IsRecipe c := by
  obtain ⟨hwell, -, ds, hds, hsteps⟩ := ofJson_eq_ok h
  obtain ⟨child, hin, hchild⟩ := exists_child_of_map hds hc
  rw [(ofJson_eq_ok hchild).2.1]
  exact hwell.2 child.toCodemod (hsteps ▸ List.mem_map_of_mem hin)

/-- What is read and lists codemods says that it is a recipe. -/
theorem isRecipe_of_children (h : ofJson v = .ok d) (hsome : children v ≠ []) : IsRecipe v := by
  obtain ⟨hwell, hrecipe, ds, hds, hsteps⟩ := ofJson_eq_ok h
  refine hrecipe.2 (hwell.1 fun hnil => hsome ?_)
  rw [hsteps, List.map_eq_nil_iff] at hnil
  rwa [hnil, List.map_nil, List.map_eq_nil_iff] at hds

/-! ### What there is -/

/-- The descriptors that there are: what is read, what is made new, and what becomes of these. -/
inductive Made : Descriptor → Prop
  | ofJson {v : Json} {d : Descriptor} : Descriptor.ofJson v = .ok d → Made d
  | single (engine : Engine) (entryPath : Path) : Made (Descriptor.single engine entryPath)
  | recipe {name : Option String} {children : List Descriptor} {d : Descriptor} :
      (∀ child ∈ children, Made child) →
        Descriptor.recipe name (children.map toCodemod) = .ok d → Made d
  | withName {d : Descriptor} (name : String) : Made d → Made (d.withName name)
  | withIncluded {d : Descriptor} (patterns : List String) : Made d → Made (d.withIncluded patterns)
  | withArguments {d : Descriptor} (arguments : List ArgumentDefinition) :
      Made d → Made (d.withArguments arguments)

/-- **Every descriptor keeps the rule for steps.** -/
theorem Made.wellFormed (h : Made d) : d.WellFormed := by
  induction h with
  | ofJson hread => exact (ofJson_eq_ok hread).1
  | single engine entryPath => exact ⟨fun hsome => absurd rfl hsome, by simp [Descriptor.single]⟩
  | recipe _ hrecipe _ => exact (assemble_eq_ok.1 hrecipe).2
  | withName name _ ih => exact ih
  | withIncluded patterns _ ih => exact ih
  | withArguments arguments _ ih => exact ih

/-- What is made a step has no steps that could be lost. -/
theorem steps_of_children {children : List Descriptor} (hwell : d.WellFormed)
    (hsteps : d.steps = children.map toCodemod) (hchildren : ∀ child ∈ children, child.WellFormed) :
    ∀ child ∈ children, child.steps = [] := by
  intro child hchild
  have hsingle : child.engine ≠ .recipe :=
    hwell.2 child.toCodemod (hsteps ▸ List.mem_map_of_mem hchild)
  exact Decidable.of_not_not fun hsome => hsingle ((hchildren child hchild).1 hsome)

/-- **Descriptors are one level deep.** Every descriptor keeps the rule for steps, and what is written for it
is read as the descriptor again exactly if its defaults are finite. The codemods that are listed in a value
that is read, or of which a recipe is made, have no steps and are the steps of the result. No value is read
in which anything that stands where a descriptor stands lists a recipe, or lists codemods and is none. -/
theorem oneLevel :
    (∀ d, Made d → d.WellFormed ∧ (ofJson d.toJson.asWritten = .ok d ↔ d.IsFinite)) ∧
      (∀ v d, ofJson v = .ok d → ∃ ds : List Descriptor, (children v).map ofJson = ds.map .ok ∧
        d.steps = ds.map toCodemod ∧ ∀ child ∈ ds, child.steps = []) ∧
      (∀ (name : Option String) (ds : List Descriptor) (d : Descriptor), (∀ child ∈ ds, Made child) →
        recipe name (ds.map toCodemod) = .ok d →
        d.steps = ds.map toCodemod ∧ ∀ child ∈ ds, child.steps = []) ∧
      ∀ v w, Within v w → (∃ c ∈ children w, IsRecipe c) ∨ children w ≠ [] ∧ ¬IsRecipe w →
        ∃ e, ofJson v = .error e := by
  refine ⟨fun d hd => ⟨hd.wellFormed, ?_⟩, fun v d h => ?_, fun name ds d hds h => ?_, fun v w hw h => ?_⟩
  · rw [ofJson_toJson hd.wellFormed, Except.ok.injEq]
    exact written_eq_self_iff
  · obtain ⟨hwell, -, ds, hds, hsteps⟩ := ofJson_eq_ok h
    refine ⟨ds, hds, hsteps, steps_of_children hwell hsteps fun child hchild => ?_⟩
    have hread : Except.ok child ∈ (children v).map ofJson := hds ▸ List.mem_map_of_mem hchild
    obtain ⟨c, -, hc⟩ := List.mem_map.1 hread
    exact (ofJson_eq_ok hc).1
  · obtain ⟨rfl, hwell⟩ := assemble_eq_ok.1 h
    exact ⟨rfl, steps_of_children hwell rfl fun child hchild => (hds child hchild).wellFormed⟩
  · cases hread : ofJson v with
    | error e => exact ⟨e, rfl⟩
    | ok d =>
      obtain ⟨_, hread⟩ := hw.exists_ofJson hread
      rcases h with ⟨c, hc, hrecipe⟩ | ⟨hsome, hsingle⟩
      · exact absurd hrecipe (not_isRecipe_of_mem_children hread hc)
      · exact absurd (isRecipe_of_children hread hsome) hsingle

/-- A codemod with an argument of each kind of value. -/
def appending : Descriptor :=
  (((single .jscodeshift ⟨"/mods/append.js"⟩).withName "append").withIncluded ["src/"]).withArguments
    [⟨"ratio", .number, false, some (.number ⟨0x3fe0000000000000⟩)⟩,
      ⟨"quote", .choice ["single", "double"], true, some (.text "single")⟩,
      ⟨"deep", .boolean, false, some (.boolean true)⟩, ⟨"mark", .text, true, none⟩]

/-- A recipe of two codemods. -/
def upgrading : Descriptor :=
  { name := some "upgrade", engine := .recipe,
    steps := [(single .filemod ⟨"/mods/rename"⟩).toCodemod, appending.toCodemod] }

/-- A recipe that gives its fields in order. -/
def namelessRecipe : Json :=
  .arr [.null, .str "recipe", .str ""]

/-- A codemod that lists the recipe. -/
def listingRecipe : Json :=
  .obj [("engine", .str "filemod"), ("codemods", .arr [namelessRecipe])]

/-- A recipe is read again, and one is refused because of a recipe two levels down. -/
theorem oneLevel_upgrading :
    ofJson upgrading.toJson.asWritten = .ok upgrading ∧
      ∃ e, ofJson (.obj [("engine", .str "recipe"), ("codemods", .arr [listingRecipe])]) = .error e := by
  obtain ⟨hmade, -, -, hrefused⟩ := oneLevel
  have hfirst : Made (single .filemod ⟨"/mods/rename"⟩) := .single _ _
  have hsecond : Made appending := .withArguments _ (.withIncluded _ (.withName _ (.single _ _)))
  have hchildren : ∀ child ∈ [single .filemod ⟨"/mods/rename"⟩, appending], Made child := by
    simp [hfirst, hsecond]
  have hrecipe : recipe (some "upgrade") ([single .filemod ⟨"/mods/rename"⟩, appending].map toCodemod) =
      .ok upgrading := rfl
  have hfinite : upgrading.IsFinite := by
    have hargument : ∀ definition ∈ appending.arguments, definition.IsFinite := by
      simp only [ArgumentDefinition.IsFinite]
      decide +kernel
    have hnone : ∀ definition ∈ ([] : List ArgumentDefinition), definition.IsFinite := by simp
    refine ⟨hnone, ?_⟩
    simp only [upgrading, List.forall_mem_cons]
    exact ⟨hnone, hargument, by simp⟩
  refine ⟨(hmade _ (.recipe hchildren hrecipe)).2.2 hfinite, ?_⟩
  have hwithin : listingRecipe ∈
      children (.obj [("engine", .str "recipe"), ("codemods", .arr [listingRecipe])]) :=
    List.mem_singleton.2 rfl
  refine hrefused _ listingRecipe (.child .self hwithin) (.inl ⟨namelessRecipe, ?_, ?_⟩)
  · exact List.mem_singleton.2 rfl
  · exact ⟨.str "recipe", List.mem_singleton.2 rfl, rfl⟩

end Descriptor

end BulkEdit
