import BulkEdit.Settings.Argument
import Mathlib.Data.List.Nodup

/-!
# Records of arguments

What values a kind admits (`ArgumentKind.Admits`) and what texts stand for them (`ArgumentKind.Spells`,
`read_eq_ok`). A record is built from the values that the definitions give (`Gives`), one entry for each
(`Filled.mem_iff`), unless a definition refuses what is there, and then the first of those decides
(`build_eq_error`). A value that is read from a text is of the kind that was declared. A default is taken as
it is, so that the record is typed as declared exactly if the defaults that are used are (`build_typed`); one
that is not can be seen in the record (`default_untyped`).
-/

namespace BulkEdit

/-! ### Kinds -/

namespace ArgumentKind

/-- The values that an argument of a kind may have. -/
inductive Admits : ArgumentKind → ArgumentValue → Prop
  | text (s : String) : Admits text (.text s)
  | number (d : Double) : Admits number (.number d)
  | boolean (b : Bool) : Admits boolean (.boolean b)
  | choice {options : List String} {s : String} (h : s ∈ options) : Admits (choice options) (.text s)

/-- The texts that stand for a value of a kind. -/
inductive Spells : ArgumentKind → String → ArgumentValue → Prop
  | text (s : String) : Spells text s (.text s)
  | number {s : String} {d : Double} (h : Number.literal (Text.trim s) = .ok d) :
      Spells number s (.number d)
  | yes {s : String} (h : Text.lowerAscii (Text.trim s) ∈ ["true", "1", "yes"]) :
      Spells boolean s (.boolean true)
  | no {s : String} (h : Text.lowerAscii (Text.trim s) ∈ ["false", "0", "no"]) :
      Spells boolean s (.boolean false)
  | choice {options : List String} {s : String} (h : s ∈ options) : Spells (choice options) s (.text s)

variable {kind : ArgumentKind} {s : String} {v : ArgumentValue}

theorem Spells.admits (h : Spells kind s v) : kind.Admits v := by
  cases h with
  | text => exact .text s
  | number => exact .number _
  | yes => exact .boolean true
  | no => exact .boolean false
  | choice h => exact .choice h

theorem not_yes_and_no {word : String} (h : word ∈ ["false", "0", "no"]) :
    word ∉ ["true", "1", "yes"] := by
  simp only [List.mem_cons, List.not_mem_nil, or_false] at h
  rcases h with rfl | rfl | rfl <;> decide

/-- **Reading gives the value that a text stands for**, and fails if there is none. -/
theorem read_eq_ok : kind.read s = .ok v ↔ Spells kind s v := by
  constructor
  · intro h
    cases kind with
    | text =>
      obtain rfl := Except.ok.inj h
      exact .text s
    | number =>
      simp only [read] at h
      split at h
      · rename_i d hd
        obtain rfl := Except.ok.inj h
        exact .number hd
      · cases h
    | boolean =>
      simp only [read] at h
      split at h
      · rename_i hyes
        obtain rfl := Except.ok.inj h
        exact .yes (by simpa using hyes)
      · split at h
        · rename_i hno
          obtain rfl := Except.ok.inj h
          exact .no (by simpa using hno)
        · cases h
    | choice options =>
      simp only [read] at h
      split at h
      · rename_i hin
        obtain rfl := Except.ok.inj h
        exact .choice (by simpa using hin)
      · cases h
  · intro h
    cases h with
    | text => rfl
    | number h => simp only [read, h]
    | yes h =>
      simp only [List.mem_cons, List.not_mem_nil, or_false] at h
      simp only [read, if_pos h]
    | no h =>
      have hyes := not_yes_and_no h
      simp only [List.mem_cons, List.not_mem_nil, or_false] at h hyes
      simp only [read, if_neg hyes, if_pos h]
    | choice h => simp [read, h]

end ArgumentKind

/-! ### Definitions -/

namespace ArgumentDefinition

variable {d : ArgumentDefinition} {raw : String → Option String} {v : ArgumentValue}

/-- The value that an argument has: what is spelled by the text given for it, or else its default. -/
inductive Gives (d : ArgumentDefinition) (raw : String → Option String) : ArgumentValue → Prop
  | given {s : String} {v : ArgumentValue} (hs : raw d.name = some s) (hv : d.kind.Spells s v) :
      Gives d raw v
  | default {v : ArgumentValue} (hnone : raw d.name = none) (hv : d.fallback = some v) : Gives d raw v

/-- Why an argument is refused: it is required and has neither text nor default, or its text stands for no
value. -/
inductive Refuses (d : ArgumentDefinition) (raw : String → Option String) : ConfigError → Prop
  | missing (hnone : raw d.name = none) (hdefault : d.fallback = none) (hrequired : d.required = true) :
      Refuses d raw (.missingArgument d.name)
  | misspelled {s reason : String} (hs : raw d.name = some s) (hread : d.kind.read s = .error reason) :
      Refuses d raw (.invalidArgument d.name reason)

/-- An argument that is required has neither text nor default. -/
def Lacks (d : ArgumentDefinition) (raw : String → Option String) : Prop :=
  raw d.name = none ∧ d.fallback = none ∧ d.required = true

/-- The text that is given for an argument stands for no value of its kind. -/
def Misspelled (d : ArgumentDefinition) (raw : String → Option String) : Prop :=
  ∃ s, raw d.name = some s ∧ ∀ v, ¬ d.kind.Spells s v

theorem exists_refuses_iff : (∃ e, d.Refuses raw e) ↔ d.Lacks raw ∨ d.Misspelled raw := by
  constructor
  · rintro ⟨_, ⟨hnone, hdefault, hrequired⟩ | ⟨hs, hread⟩⟩
    · exact Or.inl ⟨hnone, hdefault, hrequired⟩
    · refine Or.inr ⟨_, hs, fun v hv => ?_⟩
      rw [← ArgumentKind.read_eq_ok, hread] at hv
      cases hv
  · rintro (⟨hnone, hdefault, hrequired⟩ | ⟨s, hs, hspells⟩)
    · exact ⟨_, .missing hnone hdefault hrequired⟩
    · cases hread : d.kind.read s with
      | ok v => exact absurd (ArgumentKind.read_eq_ok.1 hread) (hspells v)
      | error reason => exact ⟨_, .misspelled hs hread⟩

theorem value_eq_some : d.value (raw d.name) = .ok (some v) ↔ d.Gives raw v := by
  constructor
  · intro h
    unfold value at h
    split at h
    · rename_i s hs
      split at h
      · rename_i v' hread
        obtain rfl := Option.some.inj (Except.ok.inj h)
        exact .given hs (ArgumentKind.read_eq_ok.1 hread)
      · cases h
    · rename_i hnone
      split at h
      · rename_i v' hv
        obtain rfl := Option.some.inj (Except.ok.inj h)
        exact .default hnone hv
      · split at h <;> cases h
  · intro h
    cases h with
    | given hs hv => simp only [value, hs, ArgumentKind.read_eq_ok.2 hv]
    | default hnone hv => simp only [value, hnone, hv]

theorem value_eq_none : d.value (raw d.name) = .ok none ↔
    raw d.name = none ∧ d.fallback = none ∧ d.required = false := by
  unfold value
  cases raw d.name with
  | some s => cases hread : d.kind.read s <;> simp [hread]
  | none =>
    cases d.fallback with
    | some v => simp
    | none => cases d.required <;> simp

theorem value_eq_error {e : ConfigError} : d.value (raw d.name) = .error e ↔ d.Refuses raw e := by
  constructor
  · intro h
    unfold value at h
    split at h
    · rename_i s hs
      split at h
      · cases h
      · rename_i reason hread
        obtain rfl := Except.error.inj h
        exact .misspelled hs hread
    · rename_i hnone
      split at h
      · cases h
      · rename_i hdefault
        split at h
        · rename_i hrequired
          obtain rfl := Except.error.inj h
          exact .missing hnone hdefault hrequired
        · cases h
  · intro h
    cases h with
    | missing hnone hdefault hrequired => simp only [value, hnone, hdefault, hrequired, if_true]
    | misspelled hs hread => simp only [value, hs, hread]

theorem not_refuses_of_value {found : Option ArgumentValue} (h : d.value (raw d.name) = .ok found)
    (e : ConfigError) : ¬ d.Refuses raw e := by
  rw [← value_eq_error, h]
  nofun

end ArgumentDefinition

/-! ### Records -/

namespace ArgumentRecord

variable {record record' : ArgumentRecord} {name : String} {v : ArgumentValue}

def names (record : ArgumentRecord) : List String :=
  record.map Prod.fst

/-- The entries stand in the order of their names, each name once. -/
def Ascending (record : ArgumentRecord) : Prop :=
  record.Pairwise fun a b => compare a.1 b.1 = .lt

theorem mem_names : name ∈ record.names ↔ ∃ v, (name, v) ∈ record := by
  simp [names]

theorem ascending_nil : Ascending [] := List.Pairwise.nil

theorem mem_insert (h : record.Ascending) {entry : String × ArgumentValue} :
    entry ∈ record.insert name v ↔ entry = (name, v) ∨ entry ∈ record ∧ entry.1 ≠ name := by
  induction record with
  | nil => simp [ArgumentRecord.insert, Json.sortMembers.insert]
  | cons first rest ih =>
    obtain ⟨hfirst, hrest⟩ := List.pairwise_cons.1 h
    have hne : ∀ {a b : String}, compare a b = .lt → b ≠ a := by
      rintro _ b hab rfl
      have hself : compare b b = .eq := Std.ReflCmp.compare_self
      rw [hself] at hab
      cases hab
    unfold ArgumentRecord.insert Json.sortMembers.insert
    cases hcompare : compare name first.1 with
    | lt =>
      -- all entries come after the new one
      have hlater : ∀ e ∈ first :: rest, e.1 ≠ name :=
        List.forall_mem_cons.2 ⟨hne hcompare, fun e he => hne (Std.TransCmp.lt_trans hcompare (hfirst e he))⟩
      simp only [List.mem_cons (b := (name, v))]
      exact or_congr_right ⟨fun he => ⟨he, hlater entry he⟩, And.left⟩
    | eq =>
      obtain rfl := Std.LawfulEqOrd.eq_of_compare hcompare
      have hlater : ∀ e ∈ rest, e.1 ≠ first.1 := fun e he => hne (hfirst e he)
      simp only [List.mem_cons]
      constructor
      · rintro (he | he)
        · exact Or.inl he
        · exact Or.inr ⟨Or.inr he, hlater entry he⟩
      · rintro (he | ⟨rfl | he, hother⟩)
        · exact Or.inl he
        · exact absurd rfl hother
        · exact Or.inr he
    | gt =>
      have hother : first.1 ≠ name := (hne (Std.OrientedCmp.gt_iff_lt.1 hcompare)).symm
      have ih := ih hrest
      unfold ArgumentRecord.insert at ih
      simp only [List.mem_cons, ih]
      constructor
      · rintro (rfl | he | he)
        · exact Or.inr ⟨Or.inl rfl, hother⟩
        · exact Or.inl he
        · exact Or.inr ⟨Or.inr he.1, he.2⟩
      · rintro (he | ⟨rfl | he, hne⟩)
        · exact Or.inr (Or.inl he)
        · exact Or.inl rfl
        · exact Or.inr (Or.inr ⟨he, hne⟩)

theorem Ascending.insert (h : record.Ascending) : (record.insert name v).Ascending := by
  induction record with
  | nil => exact List.pairwise_singleton ..
  | cons first rest ih =>
    obtain ⟨hfirst, hrest⟩ := List.pairwise_cons.1 h
    have hmem : ∀ e ∈ ArgumentRecord.insert rest name v, e = (name, v) ∨ e ∈ rest := fun e he =>
      ((mem_insert hrest).1 he).imp id And.left
    unfold ArgumentRecord.insert Json.sortMembers.insert
    cases hcompare : compare name first.1 with
    | lt =>
      refine List.pairwise_cons.2 ⟨List.forall_mem_cons.2 ⟨hcompare, fun e he => ?_⟩, h⟩
      exact Std.TransCmp.lt_trans hcompare (hfirst e he)
    | eq =>
      obtain rfl := Std.LawfulEqOrd.eq_of_compare hcompare
      exact List.pairwise_cons.2 ⟨hfirst, hrest⟩
    | gt =>
      refine List.pairwise_cons.2 ⟨fun e he => ?_, ih hrest⟩
      rcases hmem e he with rfl | he
      · exact Std.OrientedCmp.gt_iff_lt.1 hcompare
      · exact hfirst e he

/-! ### Filling and building -/

variable {raw : String → Option String} {definitions : List ArgumentDefinition} {e : ConfigError}

theorem exists_first_cons {α : Type} {P Q : α → Prop} {x : α} {rest : List α} :
    (∃ before a after, x :: rest = before ++ a :: after ∧ (∀ b ∈ before, P b) ∧ Q a) ↔
      Q x ∨ P x ∧ ∃ before a after, rest = before ++ a :: after ∧ (∀ b ∈ before, P b) ∧ Q a := by
  constructor
  · rintro ⟨_ | ⟨y, before⟩, a, after, he, hbefore, ha⟩
    · obtain ⟨rfl, rfl⟩ := List.cons.inj he
      exact Or.inl ha
    · obtain ⟨rfl, rfl⟩ := List.cons.inj he
      obtain ⟨hx, hbefore⟩ := List.forall_mem_cons.1 hbefore
      exact Or.inr ⟨hx, before, a, after, rfl, hbefore, ha⟩
  · rintro (hx | ⟨hx, before, a, after, rfl, hbefore, ha⟩)
    · exact ⟨[], x, rest, rfl, nofun, hx⟩
    · exact ⟨x :: before, a, after, rfl, List.forall_mem_cons.2 ⟨hx, hbefore⟩, ha⟩

/-- **The first definition that refuses what is there decides.** -/
theorem fill_eq_error : fill raw record definitions = .error e ↔
    ∃ before d after, definitions = before ++ d :: after ∧
      (∀ b ∈ before, ∀ e, ¬ b.Refuses raw e) ∧ d.Refuses raw e := by
  induction definitions generalizing record with
  | nil => simp [fill]
  | cons d rest ih =>
    rw [exists_first_cons, fill]
    cases hvalue : d.value (raw d.name) with
    | error e' =>
      have hrefuses : ∀ e, d.Refuses raw e ↔ e' = e := fun e => by
        rw [← ArgumentDefinition.value_eq_error, hvalue, Except.error.injEq]
      simp [hrefuses]
    | ok found =>
      have hrefuses := ArgumentDefinition.not_refuses_of_value hvalue
      rw [or_iff_right (hrefuses e), and_iff_right hrefuses]
      cases found <;> exact ih

/-- A record is filled with what the definitions give, and with nothing else. -/
theorem fill_eq_ok (hnames : (definitions.map (·.name)).Nodup) (hrecord : record.Ascending)
    (hfresh : ∀ d ∈ definitions, d.name ∉ record.names) (h : fill raw record definitions = .ok record') :
    record'.Ascending ∧ ∀ name v, (name, v) ∈ record' ↔
      (name, v) ∈ record ∨ ∃ d ∈ definitions, d.name = name ∧ d.Gives raw v := by
  induction definitions generalizing record with
  | nil =>
    obtain rfl := Except.ok.inj h
    exact ⟨hrecord, by simp⟩
  | cons d rest ih =>
    obtain ⟨hother, hrest⟩ := List.nodup_cons.1 hnames
    obtain ⟨hd, hfresh⟩ := List.forall_mem_cons.1 hfresh
    rw [fill] at h
    cases hvalue : d.value (raw d.name) with
    | error e => simp [hvalue] at h
    | ok found =>
      have hgives : ∀ v, d.Gives raw v ↔ found = some v := fun v => by
        rw [← ArgumentDefinition.value_eq_some, hvalue, Except.ok.injEq]
      cases found with
      | none =>
        simp only [hvalue] at h
        obtain ⟨hascending, hmem⟩ := ih hrest hrecord hfresh h
        refine ⟨hascending, fun name v => ?_⟩
        rw [hmem]
        simp [hgives]
      | some value =>
        simp only [hvalue] at h
        have hnew : ∀ entry, entry ∈ record.insert d.name value ↔ entry = (d.name, value) ∨ entry ∈ record :=
          fun entry => by
            rw [mem_insert hrecord]
            refine or_congr_right (and_iff_left_of_imp fun he hname => hd ?_)
            exact mem_names.2 ⟨entry.2, hname ▸ he⟩
        have hfresh' : ∀ b ∈ rest, b.name ∉ (record.insert d.name value).names := by
          intro b hb hin
          obtain ⟨v, hv⟩ := mem_names.1 hin
          rcases (hnew _).1 hv with he | hv
          · exact hother (List.mem_map.2 ⟨b, hb, (Prod.mk.inj he).1⟩)
          · exact hfresh b hb (mem_names.2 ⟨v, hv⟩)
        obtain ⟨hascending, hmem⟩ := ih hrest hrecord.insert hfresh' h
        refine ⟨hascending, fun name v => ?_⟩
        have hfirst : (name, v) = (d.name, value) ↔ d.name = name ∧ d.Gives raw v := by
          rw [hgives, Prod.mk.injEq, Option.some.injEq, eq_comm (a := name), eq_comm (a := v)]
        rw [hmem, hnew, hfirst, or_assoc, or_left_comm]
        simp only [List.mem_cons, or_and_right, exists_or, exists_eq_left]

theorem not_refuses_of_fill (h : fill raw record definitions = .ok record') :
    ∀ d ∈ definitions, ∀ e, ¬ d.Refuses raw e := by
  induction definitions generalizing record with
  | nil => exact nofun
  | cons d rest ih =>
    rw [fill] at h
    cases hvalue : d.value (raw d.name) with
    | error e => simp [hvalue] at h
    | ok found =>
      have hd := ArgumentDefinition.not_refuses_of_value hvalue
      rw [hvalue] at h
      cases found <;> exact List.forall_mem_cons.2 ⟨hd, ih h⟩

/-- **What a record holds** that was built from definitions and texts. -/
structure Filled (definitions : List ArgumentDefinition) (raw : String → Option String)
    (record : ArgumentRecord) : Prop where
  /-- Each name has one entry. -/
  ascending : record.Ascending
  /-- The entries are what the definitions give: the value that a text stands for, or else the default. -/
  mem_iff : ∀ name v, (name, v) ∈ record ↔ ∃ d ∈ definitions, d.name = name ∧ d.Gives raw v
  /-- The names are the declared ones that have a text or a default. -/
  names_iff : ∀ name, name ∈ record.names ↔
    ∃ d ∈ definitions, d.name = name ∧ (raw name ≠ none ∨ d.fallback ≠ none)
  /-- All that is required is there. -/
  required : ∀ d ∈ definitions, d.required = true → d.name ∈ record.names
  /-- All values are of the declared kinds exactly if the defaults are that stand in for texts. -/
  typed_iff : (∀ d ∈ definitions, ∀ v, (d.name, v) ∈ record → d.kind.Admits v) ↔
    ∀ d ∈ definitions, raw d.name = none → ∀ v, d.fallback = some v → d.kind.Admits v

theorem filled_of_build (hnames : (definitions.map (·.name)).Nodup)
    (h : build definitions raw = .ok record) : Filled definitions raw record := by
  obtain ⟨hascending, hmem⟩ := fill_eq_ok hnames ascending_nil (fun _ _ => List.not_mem_nil) h
  simp only [List.not_mem_nil, false_or] at hmem
  have hrefuses := not_refuses_of_fill h
  have hgives : ∀ d ∈ definitions, raw d.name ≠ none ∨ d.fallback ≠ none → ∃ v, d.Gives raw v := by
    intro d hd hthere
    cases hs : raw d.name with
    | some s =>
      cases hread : d.kind.read s with
      | ok v => exact ⟨v, .given hs (ArgumentKind.read_eq_ok.1 hread)⟩
      | error reason => exact absurd (.misspelled hs hread) (hrefuses d hd _)
    | none =>
      obtain ⟨v, hv⟩ := Option.ne_none_iff_exists'.1 (hthere.resolve_left fun hne => hne hs)
      exact ⟨v, .default hs hv⟩
  have hnamed : ∀ name, name ∈ record.names ↔
      ∃ d ∈ definitions, d.name = name ∧ (raw name ≠ none ∨ d.fallback ≠ none) := by
    intro name
    rw [mem_names]
    constructor
    · rintro ⟨v, hv⟩
      obtain ⟨d, hd, rfl, hgive⟩ := (hmem _ v).1 hv
      refine ⟨d, hd, rfl, ?_⟩
      cases hgive with
      | given hs _ => exact Or.inl (by simp [hs])
      | default _ hv => exact Or.inr (by simp [hv])
    · rintro ⟨d, hd, rfl, hthere⟩
      obtain ⟨v, hv⟩ := hgives d hd hthere
      exact ⟨v, (hmem _ v).2 ⟨d, hd, rfl, hv⟩⟩
  refine ⟨hascending, hmem, hnamed, fun d hd hrequired => (hnamed _).2 ⟨d, hd, rfl, ?_⟩,
    fun htyped d hd hnone v hv => htyped d hd v ((hmem _ v).2 ⟨d, hd, rfl, .default hnone hv⟩),
    fun hdefaults d hd v hv => ?_⟩
  · by_contra hnot
    rw [not_or, not_not, not_not] at hnot
    exact hrefuses d hd _ (.missing hnot.1 hnot.2 hrequired)
  · obtain ⟨b, hb, hname, hgive⟩ := (hmem _ v).1 hv
    obtain rfl := List.inj_on_of_nodup_map hnames hb hd hname
    cases hgive with
    | given _ hspells => exact hspells.admits
    | default hnone hv => exact hdefaults b hb hnone v hv

/-- **The record is typed as declared, up to the defaults.** Definitions with different names and any texts
give no record exactly if an argument that is required has neither text nor default, or a text stands for no
value of its kind, and the error tells of the first definition with which this is so. If they give a record, it
holds for each declared name the value of its text, or else its default, and nothing else; and its values are
of the declared kinds exactly if this is true of the defaults among them. -/
theorem build_typed (definitions : List ArgumentDefinition) (raw : String → Option String)
    (hnames : (definitions.map (·.name)).Nodup) :
    ((∃ e, build definitions raw = .error e) ↔ ∃ d ∈ definitions, d.Lacks raw ∨ d.Misspelled raw) ∧
      (∀ e, build definitions raw = .error e ↔ ∃ before d after, definitions = before ++ d :: after ∧
        (∀ b ∈ before, ¬ b.Lacks raw ∧ ¬ b.Misspelled raw) ∧ d.Refuses raw e) ∧
      ∀ record, build definitions raw = .ok record → Filled definitions raw record := by
  have hfirst : ∀ e, build definitions raw = .error e ↔ ∃ before d after,
      definitions = before ++ d :: after ∧ (∀ b ∈ before, ¬ b.Lacks raw ∧ ¬ b.Misspelled raw) ∧
        d.Refuses raw e := by
    intro e
    rw [build, fill_eq_error]
    simp only [← not_exists, ArgumentDefinition.exists_refuses_iff, not_or]
  refine ⟨⟨?_, ?_⟩, hfirst, fun record h => filled_of_build hnames h⟩
  · rintro ⟨e, he⟩
    obtain ⟨before, d, after, rfl, -, hd⟩ := (hfirst e).1 he
    exact ⟨d, by simp, ArgumentDefinition.exists_refuses_iff.1 ⟨e, hd⟩⟩
  · rintro ⟨d, hd, hbad⟩
    obtain ⟨e, he⟩ := ArgumentDefinition.exists_refuses_iff.2 hbad
    cases hbuild : build definitions raw with
    | ok record => exact absurd he (not_refuses_of_fill hbuild d hd e)
    | error e => exact ⟨e, rfl⟩

/-- Texts for a number, a truth value and a choice, a default, and an argument that is left out. -/
theorem build_typed_mixed :
    let definitions : List ArgumentDefinition := [⟨"depth", .number, true, none⟩,
      ⟨"dry", .boolean, false, none⟩, ⟨"mode", .choice ["fast", "safe"], false, some (.text "fast")⟩,
      ⟨"quote", .text, true, some (.text "single")⟩, ⟨"width", .number, false, none⟩]
    let raw : String → Option String := fun name =>
      List.lookup name [("dry", " YES "), ("depth", "3"), ("mode", "safe"), ("unknown", "x")]
    let record : ArgumentRecord := [("depth", .number (.ofNat 3)), ("dry", .boolean true),
      ("mode", .text "safe"), ("quote", .text "single")]
    (definitions.map (·.name)).Nodup ∧ build definitions raw = .ok record ∧
      Filled definitions raw record := by
  intro definitions raw record
  have hnames : (definitions.map (·.name)).Nodup := by decide +kernel
  have hbuild : build definitions raw = .ok record := by decide +kernel
  exact ⟨hnames, hbuild, (build_typed definitions raw hnames).2.2 record hbuild⟩

/-- **A default is taken as it is**, though it be no value of the declared kind. -/
theorem default_untyped :
    let depth : ArgumentDefinition := ⟨"depth", .number, false, some (.text "deep")⟩
    build [depth] (fun _ => none) = .ok [("depth", .text "deep")] ∧ ¬ depth.kind.Admits (.text "deep") := by
  intro depth
  exact ⟨by decide +kernel, nofun⟩

end ArgumentRecord

end BulkEdit
