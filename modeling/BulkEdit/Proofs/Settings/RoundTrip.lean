import BulkEdit.Json.Printer
import BulkEdit.Settings.Codemod

/-!
# Writing descriptors and reading them again

A number that is not finite is written as null (`Json.asWritten`, `render_asWritten`), and null stands for
no default. So what is read again is the descriptor without the defaults that are not finite
(`ofJson_toJson`): the descriptor itself exactly if all its defaults are finite (`written_eq_self_iff`).
-/

namespace BulkEdit

theorem map_eq_self_iff {α : Type} {f : α → α} {l : List α} : l.map f = l ↔ ∀ a ∈ l, f a = a := by
  have h := List.map_inj_left (l := l) (f := f) (g := id)
  rwa [List.map_id] at h

/-! ### What is written -/

namespace Json

mutual

/-- The value that the text of a value spells: what is not finite is null. -/
def asWritten : Json → Json
  | real d => if d.isNaN || d.isInfinite then null else real d
  | arr items => arr (itemsAsWritten items)
  | obj members => obj (membersAsWritten members)
  | value => value

def itemsAsWritten : List Json → List Json
  | [] => []
  | item :: rest => item.asWritten :: itemsAsWritten rest

def membersAsWritten : List (String × Json) → List (String × Json)
  | [] => []
  | (name, item) :: rest => (name, item.asWritten) :: membersAsWritten rest

end

mutual

theorem render_asWritten : (value : Json) → value.asWritten.render = value.render
  | real d => by
    rw [asWritten]
    split
    · rename_i hinfinite
      rw [render, render, realText, if_pos hinfinite]
    · rfl
  | arr items => by rw [asWritten, render, render, renderItems_asWritten]
  | obj members => by rw [asWritten, render, render, renderMembers_asWritten]
  | null | bool _ | int _ | str _ | unreadable | partly _ _ => rfl

theorem renderItems_asWritten : (items : List Json) → renderItems (itemsAsWritten items) = renderItems items
  | [] => rfl
  | item :: rest => by
    rw [itemsAsWritten, renderItems, renderItems, render_asWritten, renderItems_asWritten]

theorem renderMembers_asWritten :
    (members : List (String × Json)) → renderMembers (membersAsWritten members) = renderMembers members
  | [] => rfl
  | (name, item) :: rest => by
    rw [membersAsWritten, renderMembers, renderMembers, render_asWritten, renderMembers_asWritten]

end

theorem asWritten_arr (items : List Json) : (arr items).asWritten = arr (items.map asWritten) := by
  have hitems : itemsAsWritten items = items.map asWritten := by
    induction items with
    | nil => rfl
    | cons item rest ih => rw [itemsAsWritten, ih, List.map_cons]
  rw [asWritten, hitems]

theorem asWritten_ofTexts (texts : List String) : (ofTexts texts).asWritten = ofTexts texts := by
  rw [ofTexts, asWritten_arr, List.map_map]
  rfl

theorem isReadable_ofTexts (texts : List String) : (ofTexts texts).isReadable = true := by
  rw [ofTexts, isReadable]
  induction texts with
  | nil => rfl
  | cons text rest ih => rw [List.map_cons, areReadable, ih]; rfl

/-- Items that can be read one by one give the list of what they are read as. -/
theorem list?_map {α β : Type} {write : α → Json} {read? : Json → Option β} {f : α → β}
    (h : ∀ a, read? (write a) = some (f a)) (l : List α) :
    list? read? (arr (l.map write)) = some (l.map f) := by
  rw [list?]
  induction l with
  | nil => rfl
  | cons a rest ih => simp [h, ih]

theorem list?_ofTexts (texts : List String) : list? text? (ofTexts texts) = some texts := by
  have h := list?_map (f := id) (fun text => (rfl : text? (str text) = some text)) texts
  rwa [List.map_id] at h

end Json

/-! ### Arguments -/

/-- Whether the value is no number, or a finite one. -/
def ArgumentValue.isFinite : ArgumentValue → Bool
  | .number d => !(d.isNaN || d.isInfinite)
  | _ => true

namespace ArgumentDefinition

/-- The definition as it is read again: a default that is not finite is lost. -/
def written (definition : ArgumentDefinition) : ArgumentDefinition :=
  { definition with fallback := definition.fallback.filter ArgumentValue.isFinite }

/-- Whether the default, if there is one, is finite. -/
def IsFinite (definition : ArgumentDefinition) : Prop :=
  ∀ v ∈ definition.fallback, v.isFinite = true

theorem written_eq_self_iff {definition : ArgumentDefinition} :
    definition.written = definition ↔ definition.IsFinite := by
  obtain ⟨name, kind, required, fallback⟩ := definition
  cases fallback with
  | none => simp [written, IsFinite]
  | some v => cases hv : v.isFinite <;> simp [written, IsFinite, Option.filter, hv]

/-- A default can be read again, as null if it is not finite. -/
theorem readable_fallback (fallback : Option ArgumentValue) :
    (Json.ofOption ArgumentValue.toJson fallback).asWritten.isReadable = true ∧
      Json.nullable? ArgumentValue.ofJson? (Json.ofOption ArgumentValue.toJson fallback).asWritten =
        some (fallback.filter ArgumentValue.isFinite) := by
  rcases fallback with _ | ⟨b | d | s⟩
  · exact ⟨rfl, rfl⟩
  · exact ⟨rfl, rfl⟩
  · rw [Json.ofOption, ArgumentValue.toJson, Json.asWritten]
    split
    · rename_i hinfinite
      have hlost : (ArgumentValue.number d).isFinite = false := by simp [ArgumentValue.isFinite, hinfinite]
      exact ⟨rfl, by simp [Json.nullable?, Option.filter, hlost]⟩
    · rename_i hfinite
      have hkept : (ArgumentValue.number d).isFinite = true := by simpa [ArgumentValue.isFinite] using hfinite
      exact ⟨rfl, by simp [Json.nullable?, ArgumentValue.ofJson?, Option.filter, hkept]⟩
  · exact ⟨rfl, rfl⟩

theorem asWritten_toJson (definition : ArgumentDefinition) : definition.toJson.asWritten =
    .obj (("name", .str definition.name) :: definition.kind.toMembers ++
      [("required", .bool definition.required),
        ("default", (Json.ofOption ArgumentValue.toJson definition.fallback).asWritten)]) := by
  rw [toJson]
  cases definition.kind <;>
    simp [ArgumentKind.toMembers, Json.asWritten, Json.membersAsWritten, Json.asWritten_ofTexts]

/-- **A definition is read again**, a default that is not finite apart. -/
theorem ofJson?_toJson (definition : ArgumentDefinition) :
    ofJson? definition.toJson.asWritten = some definition.written := by
  obtain ⟨hreadable, hfallback⟩ := readable_fallback definition.fallback
  rw [asWritten_toJson, ofJson?, written]
  generalize (Json.ofOption ArgumentValue.toJson definition.fallback).asWritten = fallback at *
  generalize definition.fallback.filter ArgumentValue.isFinite = kept at *
  obtain ⟨name, kind, required, _⟩ := definition
  have hread : Json.membersReadable (("name", .str name) :: kind.toMembers ++
      [("required", .bool required), ("default", fallback)]) = true := by
    cases kind <;>
      simp [ArgumentKind.toMembers, Json.membersReadable, Json.isReadable, Json.isReadable_ofTexts, hreadable]
  have hpass : (guard (true = true) : Option Unit) = some () := rfl
  rw [hread, hpass]
  cases kind with
  | choice options =>
    have hoptions := Json.list?_ofTexts options
    simp [ArgumentKind.toMembers, ArgumentKind.ofTag?, ArgumentKind.tagName?, ArgumentKind.name,
      Json.field?, Json.nullableField?, Json.fieldOr?, Json.optional?, Json.under, Json.text?, Json.bool?,
      hfallback, hoptions]
  | text | number | boolean =>
    simp [ArgumentKind.toMembers, ArgumentKind.ofTag?, ArgumentKind.tagName?, ArgumentKind.name,
      Json.field?, Json.nullableField?, Json.fieldOr?, Json.optional?, Json.under, Json.text?, Json.bool?,
      hfallback]

end ArgumentDefinition

/-! ### Codemods -/

namespace Codemod

def written (c : Codemod) : Codemod :=
  { c with arguments := c.arguments.map ArgumentDefinition.written }

def IsFinite (c : Codemod) : Prop :=
  ∀ definition ∈ c.arguments, definition.IsFinite

theorem written_eq_self_iff {c : Codemod} : c.written = c ↔ c.IsFinite := by
  obtain ⟨name, engine, entryPath, included, arguments⟩ := c
  simp only [written, IsFinite, mk.injEq, true_and, ← ArgumentDefinition.written_eq_self_iff]
  exact map_eq_self_iff

end Codemod

namespace Descriptor

variable {c : Codemod} {steps : List Codemod} {d : Descriptor}

def written (d : Descriptor) : Descriptor :=
  { d.toCodemod.written with steps := d.steps.map Codemod.written }

/-- Whether all defaults are finite, those of the steps too. -/
def IsFinite (d : Descriptor) : Prop :=
  d.toCodemod.IsFinite ∧ ∀ step ∈ d.steps, step.IsFinite

theorem written_eq_self_iff : d.written = d ↔ d.IsFinite := by
  obtain ⟨c, steps⟩ := d
  simp only [written, IsFinite, mk.injEq, ← Codemod.written_eq_self_iff]
  exact and_congr Iff.rfl map_eq_self_iff

/-- What is put together keeps the rule for steps. -/
theorem assemble_eq_ok : assemble c steps = .ok d ↔ d = { c with steps } ∧ d.WellFormed := by
  unfold assemble WellFormed
  split
  · rename_i hrecipe
    split
    · rename_i nested hnested
      have hin := List.mem_of_find?_eq_some hnested
      have hengine : nested.engine = .recipe := by simpa using List.find?_some hnested
      refine iff_of_false (fun h => nomatch h) ?_
      rintro ⟨rfl, -, hsteps⟩
      exact hsteps nested hin hengine
    · rename_i hnone
      have hsteps : ∀ step ∈ steps, step.engine ≠ .recipe := by simpa using List.find?_eq_none.1 hnone
      rw [Except.ok.injEq, eq_comm]
      refine ⟨?_, And.left⟩
      rintro rfl
      exact ⟨rfl, fun _ => hrecipe, hsteps⟩
  · rename_i hsingle
    split
    · rename_i hnil
      rw [Except.ok.injEq, eq_comm]
      refine ⟨?_, And.left⟩
      rintro rfl
      exact ⟨rfl, fun hsome => absurd hnil hsome, by simp [hnil]⟩
    · rename_i hsome
      refine iff_of_false (fun h => nomatch h) ?_
      rintro ⟨rfl, hengine, -⟩
      exact hsingle (hengine hsome)

theorem ofMembers_fill {α : Type} {draft : Draft} {name : String} {value : Json} {part given : Option α}
    {set : α → Draft} {a : α} (hname : name ≠ "codemods")
    (htake : draft.take name value = Draft.fill part given set) (hempty : part = none)
    (hgiven : given = some a) (rest : List (String × Json)) :
    ofMembers draft ((name, value) :: rest) = ofMembers (set a) rest := by
  have hmember : ofMember draft name value = .ok (set a) := by
    unfold ofMember
    rw [if_neg hname, htake, hempty, hgiven]
    rfl
  rw [ofMembers, hmember]

theorem ofMembers_members (c : Codemod) (items : List Json) :
    ofMembers {} (Json.membersAsWritten (members c items)) =
      match ofSteps (items.map Json.asWritten) with
      | .error e => .error e
      | .ok steps => .ok {
        name := some c.name
        engine := some c.engine
        entryPath := some c.entryPath
        included := some c.included
        arguments := some (c.arguments.map ArgumentDefinition.written)
        steps := some steps } := by
  have hname : Json.nullable? Json.text? (Json.ofOption Json.str c.name).asWritten = some c.name := by
    cases c.name <;> rfl
  have hengine : Engine.ofJson? c.engine.toJson.asWritten = some c.engine := Engine.ofName?_name c.engine
  have hpath : (Json.str c.entryPath.text).asWritten.text?.map Path.mk = some c.entryPath := rfl
  have hincluded : Json.nullable? (Json.list? Json.text?) (Json.ofOption Json.ofTexts c.included).asWritten =
      some c.included := by
    cases c.included with
    | none => rfl
    | some patterns =>
      rw [Json.ofOption, Json.asWritten_ofTexts]
      exact congrArg (Option.map some) (Json.list?_ofTexts patterns)
  have harguments : Json.list? ArgumentDefinition.ofJson?
      (Json.arr (c.arguments.map ArgumentDefinition.toJson)).asWritten =
        some (c.arguments.map ArgumentDefinition.written) := by
    rw [Json.asWritten_arr, List.map_map]
    exact Json.list?_map ArgumentDefinition.ofJson?_toJson c.arguments
  -- stated for any value: a text that is known would be taken in by evaluation
  have htake : ∀ (draft : Draft) (value : Json), draft.take "entryPath" value =
      Draft.fill draft.entryPath (value.text?.map Path.mk) fun a => { draft with entryPath := some a } :=
    fun _ _ => rfl
  simp only [members, Json.membersAsWritten]
  refine (ofMembers_fill (by decide) rfl rfl hname _).trans ?_
  refine (ofMembers_fill (by decide) rfl rfl hengine _).trans ?_
  refine (ofMembers_fill (by decide) (htake _ _) rfl hpath _).trans ?_
  refine (ofMembers_fill (by decide) rfl rfl hincluded _).trans ?_
  refine (ofMembers_fill (by decide) rfl rfl harguments _).trans ?_
  rw [Json.asWritten_arr]
  simp only [ofMembers, ofMember, if_true]
  cases ofSteps (items.map Json.asWritten) <;> rfl

/-- A codemod that is written with its steps is read, and then its steps are checked. -/
theorem ofJson_obj_members (c : Codemod) (items : List Json) :
    ofJson (Json.obj (members c items)).asWritten =
      match ofSteps (items.map Json.asWritten) with
      | .error e => .error e
      | .ok steps => (assemble c.written steps).mapError .rule := by
  rw [Json.asWritten, ofJson, ofMembers_members]
  cases ofSteps (items.map Json.asWritten) <;> rfl

theorem ofSteps_members (steps : List Codemod) :
    ofSteps ((steps.map fun step => Json.obj (members step [])).map Json.asWritten) =
      .ok (steps.map Codemod.written) := by
  induction steps with
  | nil => rfl
  | cons step rest ih =>
    have hstep : ofJson (Json.obj (members step [])).asWritten = .ok { step.written with steps := [] } := by
      have hchecked : assemble step.written [] = .ok { step.written with steps := [] } :=
        assemble_eq_ok.2 ⟨rfl, by simp [WellFormed]⟩
      rw [ofJson_obj_members]
      show (assemble step.written []).mapError _ = _
      rw [hchecked]
      rfl
    rw [List.map_cons, List.map_cons, ofSteps, hstep]
    dsimp only
    rw [ih]
    rfl

/-- **What is written is read again**, the defaults that are not finite apart, as long as the rule for steps
is kept. -/
theorem ofJson_toJson (h : d.WellFormed) : ofJson d.toJson.asWritten = .ok d.written := by
  have hchecked : assemble d.toCodemod.written (d.steps.map Codemod.written) = .ok d.written := by
    refine assemble_eq_ok.2 ⟨rfl, fun hsome => h.1 (by simpa [written] using hsome), ?_⟩
    intro step hstep
    obtain ⟨original, horiginal, rfl⟩ := List.mem_map.1 hstep
    exact h.2 original horiginal
  rw [toJson, ofJson_obj_members, ofSteps_members]
  dsimp only
  rw [hchecked]
  rfl

end Descriptor

end BulkEdit
