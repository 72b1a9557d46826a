import BulkEdit.Proofs.Command.Effect
import BulkEdit.Run.Runner

/-!
# Applying commands in a run

Parts of a run that succeed, taken apart (`bind_eq_ok`), and the two ways in which a run applies
commands in order: both succeed exactly if the commands can be carried out on the tree, and change
nothing else (`applyAll_wet_eq_ok`, `forM_applyWet_eq_ok`).
-/

namespace BulkEdit.Run

variable {α β : Type} {w w' : World} {digest : String}

/-! ### Parts that succeed -/

theorem bind_eq_ok {x : Run α} {f : α → Run β} {b : β} : (x >>= f) w = .ok b w' ↔
    ∃ a w₁, x w = .ok a w₁ ∧ f a w₁ = .ok b w' := by
  show EStateM.bind x f w = .ok b w' ↔ _
  unfold EStateM.bind
  cases x w <;> simp

theorem bind_of_eq_ok {x : Run α} {f : α → Run β} {a : α} (h : x w = .ok a w') :
    (x >>= f) w = f a w' := by
  show EStateM.bind x f w = f a w'
  unfold EStateM.bind
  rw [h]

theorem pure_eq_ok {a b : α} : (pure a : Run α) w = .ok b w' ↔ a = b ∧ w = w' := by
  show EStateM.Result.ok a w = .ok b w' ↔ _
  simp

theorem require_eq_ok {ε : Type} {wrap : ε → RunError} {x : Except ε α} {a : α} :
    require wrap x w = .ok a w' ↔ x = .ok a ∧ w = w' := by
  cases x with
  | ok b =>
    rw [require, pure_eq_ok]
    simp
  | error e =>
    show EStateM.Result.error _ w = .ok a w' ↔ _
    simp

/-! ### Applying commands in order -/

theorem apply_wet_eq_ok {c : FileCommand} {preview : Option Preview} :
    apply (.wet digest) c w = .ok preview w' ↔
      preview = none ∧ ∃ t, c.applyWet w.tree = (.ok (), t) ∧ w' = { w with tree := t } := by
  unfold apply FileCommand.apply
  rcases c.applyWet w.tree with ⟨_ | _, t⟩
  · simp [Except.map]
  · simp [Except.map, eq_comm]

theorem applyAll_wet_eq_ok {commands : List FileCommand} {previews : List Preview} :
    applyAll (.wet digest) commands w = .ok previews w' ↔
      previews = [] ∧ ∃ t, FileCommand.carryOut w.tree commands = .ok t ∧
        w' = { w with tree := t } := by
  induction commands generalizing w w' previews with
  | nil =>
    rw [applyAll, pure_eq_ok]
    constructor
    · rintro ⟨rfl, rfl⟩
      exact ⟨rfl, w.tree, rfl, rfl⟩
    · rintro ⟨rfl, t, ht, rfl⟩
      obtain rfl := Except.ok.inj ht
      exact ⟨rfl, rfl⟩
  | cons c rest ih =>
    rw [applyAll, bind_eq_ok]
    simp only [bind_eq_ok, pure_eq_ok, apply_wet_eq_ok, ih, FileCommand.carryOut_cons_eq_ok]
    constructor
    · rintro ⟨_, _, ⟨rfl, t₁, hc, rfl⟩, _, _, ⟨rfl, t₂, hrest, rfl⟩, rfl, rfl⟩
      exact ⟨rfl, t₂, ⟨t₁, hc, hrest⟩, rfl⟩
    · rintro ⟨rfl, t₂, ⟨t₁, hc, hrest⟩, rfl⟩
      exact ⟨none, _, ⟨rfl, t₁, hc, rfl⟩, [], _, ⟨rfl, t₂, hrest, rfl⟩, rfl, rfl⟩

theorem applyWet_eq_ok {c : FileCommand} {u : Unit} : Run.applyWet c w = .ok u w' ↔
    ∃ t, c.applyWet w.tree = (.ok (), t) ∧ w' = { w with tree := t } := by
  unfold Run.applyWet
  rcases c.applyWet w.tree with ⟨_ | _, t⟩ <;> simp [eq_comm]

theorem forM_applyWet_eq_ok {commands : List FileCommand} {u : Unit} :
    commands.forM Run.applyWet w = .ok u w' ↔
      ∃ t, FileCommand.carryOut w.tree commands = .ok t ∧ w' = { w with tree := t } := by
  induction commands generalizing w with
  | nil =>
    rw [List.forM_eq_forM, List.forM_nil, pure_eq_ok]
    constructor
    · rintro ⟨-, rfl⟩
      exact ⟨w.tree, rfl, rfl⟩
    · rintro ⟨t, ht, rfl⟩
      obtain rfl := Except.ok.inj ht
      exact ⟨rfl, rfl⟩
  | cons c rest ih =>
    rw [List.forM_eq_forM, List.forM_cons, bind_eq_ok]
    simp only [← List.forM_eq_forM, applyWet_eq_ok, ih, FileCommand.carryOut_cons_eq_ok]
    constructor
    · rintro ⟨_, _, ⟨t₁, hc, rfl⟩, t₂, hrest, rfl⟩
      exact ⟨t₂, ⟨t₁, hc, hrest⟩, rfl⟩
    · rintro ⟨t₂, ⟨t₁, hc, hrest⟩, rfl⟩
      exact ⟨(), _, ⟨t₁, hc, rfl⟩, t₂, hrest, rfl⟩

end BulkEdit.Run
