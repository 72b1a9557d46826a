import BulkEdit.Proofs.Path.Place
import Mathlib.Data.Fintype.EquivFin

/-!
# Locations of relative paths

Seen from a folder, a relative path goes some folders up and from there along some names down
(`Route.locate_eq`): these are the steps up that found no name to take back, and the names that no step
up has taken back (`Route.balance`). Two paths lead to the same location from every folder exactly if
they agree in both (`Route.locate_ext`).

Normalizing keeps the names and only whether the steps up are odd in number, since a step up also takes
back a step up before it (`Route.foldl_step_rise`). So the normalized path leads where the path leads
exactly if there is at most one step up, and paths of different locations may have one fingerprint
(`normalize_relative`).
-/

namespace BulkEdit

namespace Route

variable {cs cs' : List Component}

/-! ### Steps up that cancel names -/

/-- What is left of components when each step up has cancelled the nearest name before it that was not
cancelled yet: how many steps up found none, and the names. Read from the end, a step up waits for the
next name that comes. -/
def balance : List Component → Nat × List String
  | [] => (0, [])
  | .up :: rest => ((balance rest).1 + 1, (balance rest).2)
  | .name text :: rest =>
    match balance rest with
    | (0, names) => (0, text :: names)
    | (waiting + 1, names) => (waiting, names)
  | _ :: rest => balance rest

theorem balance_name_of_none {text : String} (h : (balance cs).1 = 0) :
    balance (.name text :: cs) = (0, text :: (balance cs).2) := by
  rw [balance]
  generalize balance cs = left at h ⊢
  obtain ⟨ups, names⟩ := left
  obtain rfl : ups = 0 := h
  rfl

theorem balance_name_of_some {text : String} {ups : Nat} (h : (balance cs).1 = ups + 1) :
    balance (.name text :: cs) = (ups, (balance cs).2) := by
  rw [balance]
  generalize balance cs = left at h ⊢
  obtain ⟨waiting, names⟩ := left
  obtain rfl : waiting = ups + 1 := h
  rfl

/-! ### Where components lead from a folder -/

/-- Where components lead from a folder, both given by the names from the top down. The step up from the
top leads nowhere else. -/
def locate : List String → List Component → List String
  | folder, [] => folder
  | folder, .up :: rest => locate folder.dropLast rest
  | folder, .name text :: rest => locate (folder ++ [text]) rest
  | folder, _ :: rest => locate folder rest

/-- Components lead up as often as steps are left, and down along the names that are left. -/
theorem locate_eq (folder : List String) (cs : List Component) :
    locate folder cs = folder.take (folder.length - (balance cs).1) ++ (balance cs).2 := by
  induction cs generalizing folder with
  | nil => simp [locate, balance]
  | cons c rest ih =>
    cases c with
    | root => exact ih folder
    | current => exact ih folder
    | up =>
      have hlength : folder.length - ((balance rest).1 + 1) ≤ folder.length - 1 := by omega
      rw [locate, ih, balance, List.length_dropLast, List.dropLast_eq_take, List.take_take, Nat.sub_sub,
        Nat.add_comm 1, Nat.min_eq_left hlength]
    | name text =>
      rw [locate, ih, List.length_append, List.length_singleton]
      cases hups : (balance rest).1 with
      | zero =>
        have hall : folder.length + 1 - 0 = (folder ++ [text]).length := by simp
        rw [balance_name_of_none hups, hall, List.take_length]
        simp
      | succ ups =>
        have hshort : folder.length + 1 - (ups + 1) ≤ folder.length := by omega
        rw [balance_name_of_some hups, List.take_append_of_le_length hshort, Nat.add_sub_add_right]

/-- **Components lead to the same location from every folder** exactly if the same is left of them. -/
theorem locate_ext : (∀ folder, locate folder cs = locate folder cs') ↔ balance cs = balance cs' := by
  constructor
  · intro h
    -- a folder that is deep enough on both sides, below names that do not occur in the components
    obtain ⟨fresh, hfresh⟩ :=
      Infinite.exists_notMem_finset ((balance cs).2 ++ (balance cs').2).toFinset
    rw [List.mem_toFinset, List.mem_append, not_or] at hfresh
    have hfrom := h (List.replicate ((balance cs).1 + (balance cs').1) fresh)
    rw [locate_eq, locate_eq, List.length_replicate, List.take_replicate, List.take_replicate] at hfrom
    have hcount := congrArg (List.count fresh) hfrom
    rw [List.count_append, List.count_append, List.count_replicate_self, List.count_replicate_self,
      List.count_eq_zero_of_not_mem hfresh.1, List.count_eq_zero_of_not_mem hfresh.2] at hcount
    have hups : (balance cs).1 = (balance cs').1 := by omega
    rw [hups] at hfrom
    exact Prod.ext hups (List.append_cancel_left hfrom)
  · intro h folder
    rw [locate_eq, locate_eq, h]

/-! ### Where normalizing leads -/

/-- The place above which there are `ups` steps up, as far as a place can have them: one if they are odd
in number, and none if they are even. -/
def rise (ups : Nat) (names : List String) : Route :=
  List.replicate (ups % 2) .up ++ names.map .name

theorem step_up_rise_nil (ups : Nat) : (rise ups []).step .up = rise (ups + 1) [] := by
  unfold rise
  rcases Nat.mod_two_eq_zero_or_one ups with h | h
  · rw [h, show (ups + 1) % 2 = 1 by omega]
    rfl
  · rw [h, show (ups + 1) % 2 = 0 by omega]
    rfl

theorem step_up_rise_concat (ups : Nat) (names : List String) (text : String) :
    (rise ups (names ++ [text])).step .up = rise ups names := by
  have hlast : rise ups (names ++ [text]) = rise ups names ++ [.name text] := by simp [rise]
  rw [hlast, step, parent?_append (by simp)]

theorem step_name_rise (ups : Nat) (names : List String) (text : String) :
    (rise ups names).step (.name text) = rise ups (names ++ [text]) := by
  simp [rise, step]

/-- **Steps from a place:** what is left of the components cancels the last names of the place first. -/
theorem foldl_step_rise (hroot : .root ∉ cs) (ups : Nat) (names : List String) :
    cs.foldl step (rise ups names) =
      rise (ups + ((balance cs).1 - names.length))
        (names.take (names.length - (balance cs).1) ++ (balance cs).2) := by
  induction cs generalizing ups names with
  | nil => simp [balance]
  | cons c rest ih =>
    rw [List.mem_cons, not_or] at hroot
    have ih := ih hroot.2
    rw [List.foldl_cons]
    cases c with
    | root => exact absurd rfl hroot.1
    | current => exact ih ups names
    | up =>
      rw [balance]
      rcases List.eq_nil_or_concat names with rfl | ⟨before, text, rfl⟩
      · rw [step_up_rise_nil, ih]
        simp [Nat.add_assoc, Nat.add_comm 1]
      · rw [List.concat_eq_append, step_up_rise_concat, ih, List.length_append, List.length_singleton,
          Nat.add_sub_add_right, Nat.add_sub_add_right,
          List.take_append_of_le_length (Nat.sub_le before.length (balance rest).1)]
    | name text =>
      rw [step_name_rise, ih, List.length_append, List.length_singleton]
      cases hups : (balance rest).1 with
      | zero =>
        have hall : names.length + 1 - 0 = (names ++ [text]).length := by simp
        rw [balance_name_of_none hups, hall, List.take_length]
        simp
      | succ left =>
        have hshort : names.length + 1 - (left + 1) ≤ names.length := by omega
        rw [balance_name_of_some hups, List.take_append_of_le_length hshort, Nat.add_sub_add_right,
          Nat.add_sub_add_right]

theorem ups_names_inj {ups ups' : Nat} {names names' : List String}
    (h : (List.replicate ups .up ++ names.map .name : Route) =
      List.replicate ups' .up ++ names'.map .name) : ups = ups' ∧ names = names' := by
  have hnone : ∀ texts : List String, List.count Component.up (texts.map .name) = 0 := fun texts =>
    List.count_eq_zero_of_not_mem (by simp)
  have hcount := congrArg (List.count Component.up) h
  rw [List.count_append, List.count_append, List.count_replicate_self, List.count_replicate_self,
    hnone, hnone] at hcount
  have hups : ups = ups' := hcount
  rw [hups] at h
  have hinj : Function.Injective Component.name := fun a b hab => Component.name.inj hab
  exact ⟨hups, List.map_injective_iff.2 hinj (List.append_cancel_left h)⟩

end Route

namespace Path

variable {p q : Path}

/-- How many steps up of the path find no name to take back. -/
def climbs (p : Path) : Nat :=
  (Route.balance p.components).1

/-- The names of the path that no step up takes back. -/
def descent (p : Path) : List String :=
  (Route.balance p.components).2

def locate (folder : List String) (p : Path) : List String :=
  Route.locate folder p.components

theorem root_not_mem_components (h : p.isAbsolute = false) : .root ∉ p.components := by
  have hlead : .root ∉ p.lead.components := by
    unfold isAbsolute at h
    unfold Path.lead cutLead
    split
    · rename_i htext
      simp [htext] at h
    all_goals simp [Lead.components]
  rw [components_eq, List.mem_append, not_or]
  refine ⟨hlead, fun hmem => ?_⟩
  obtain ⟨s, -, hs⟩ := List.mem_map.1 hmem
  rcases componentOf_eq s with hup | ⟨name, hname⟩
  · rw [hup] at hs
    cases hs
  · rw [hname] at hs
    cases hs

/-- A relative path is normalized to its names, after one step up if those left are odd in number. -/
theorem route_eq_rise (h : p.isAbsolute = false) : p.route = Route.rise p.climbs p.descent := by
  have hsteps := Route.foldl_step_rise (root_not_mem_components h) 0 []
  simpa [Path.route, Route.rise, climbs, descent] using hsteps

theorem normalize_inj : p.normalize = q.normalize ↔ p.route = q.route := by
  refine ⟨fun h => ?_, fun h => by rw [normalize, normalize, h]⟩
  rw [← components_normalize, ← components_normalize, h]

/-- Two relative paths lead to the same location from every folder exactly if they go up and down alike. -/
theorem locate_ext : (∀ folder, p.locate folder = q.locate folder) ↔
    p.climbs = q.climbs ∧ p.descent = q.descent :=
  Route.locate_ext.trans Prod.ext_iff

/-- Where fingerprints do not collide, two relative paths have the same one exactly if they go down alike
and their steps up are both even or both odd in number. -/
theorem digest_eq_iff (hp : p.isAbsolute = false) (hq : q.isAbsolute = false)
    (hhash : p.digest = q.digest → p.normalize.text = q.normalize.text) :
    p.digest = q.digest ↔ p.climbs % 2 = q.climbs % 2 ∧ p.descent = q.descent := by
  constructor
  · intro h
    have hroute := normalize_inj.1 (Path.mk.injEq .. ▸ hhash h)
    rw [route_eq_rise hp, route_eq_rise hq] at hroute
    exact Route.ups_names_inj hroute
  · rintro ⟨hclimbs, hdescent⟩
    have hroute : p.route = q.route := by
      rw [route_eq_rise hp, route_eq_rise hq, Route.rise, Route.rise, hclimbs, hdescent]
    rw [digest, digest, normalize_inj.2 hroute]

/-- **What normalizing keeps of a relative path.** The normalized path goes down along the names that no
step up has cancelled; of the steps up that have cancelled none it keeps one if they are odd in number, and
none if they are even. So it is the path's normal form exactly if there is at most one of them. Two paths
lead to the same location from every folder exactly if they have as many of these steps up and the same
names, but they have the same fingerprint already if these numbers are both even or both odd; so the
fingerprints tell locations apart as long as there is at most one such step. -/
theorem normalize_relative (p q : Path) (hp : p.isAbsolute = false) (hq : q.isAbsolute = false)
    (hhash : p.digest = q.digest → p.normalize.text = q.normalize.text) :
    p.normalize.components = List.replicate (p.climbs % 2) .up ++ p.descent.map .name ∧
      (p.normalize.components = List.replicate p.climbs .up ++ p.descent.map .name ↔ p.climbs ≤ 1) ∧
      ((∀ folder, p.locate folder = q.locate folder) ↔ p.climbs = q.climbs ∧ p.descent = q.descent) ∧
      (p.digest = q.digest ↔ p.climbs % 2 = q.climbs % 2 ∧ p.descent = q.descent) ∧
      (p.climbs ≤ 1 → q.climbs ≤ 1 →
        (p.digest = q.digest ↔ ∀ folder, p.locate folder = q.locate folder)) := by
  have hform : p.normalize.components = List.replicate (p.climbs % 2) .up ++ p.descent.map .name := by
    rw [components_normalize, route_eq_rise hp, Route.rise]
  have hdigest := digest_eq_iff hp hq hhash
  refine ⟨hform, ?_, locate_ext, hdigest, fun hsmall hsmall' => ?_⟩
  · rw [hform]
    constructor
    · intro h
      have hclimbs := (Route.ups_names_inj h).1
      omega
    · intro h
      rw [Nat.mod_eq_of_lt (by omega)]
  · rw [hdigest, locate_ext, Nat.mod_eq_of_lt (by omega), Nat.mod_eq_of_lt (by omega)]

/-- Three steps up are left of the four, and one of the three is kept. -/
theorem normalize_relative_astray :
    (⟨"../../x/../../lib/./a.ts"⟩ : Path).isAbsolute = false ∧
      (⟨"./lib/a.ts"⟩ : Path).isAbsolute = false ∧
      ((⟨"../../x/../../lib/./a.ts"⟩ : Path).digest = (⟨"./lib/a.ts"⟩ : Path).digest →
        (⟨"../../x/../../lib/./a.ts"⟩ : Path).normalize.text = (⟨"./lib/a.ts"⟩ : Path).normalize.text) ∧
      (⟨"../../x/../../lib/./a.ts"⟩ : Path).climbs = 3 ∧
      (⟨"../../x/../../lib/./a.ts"⟩ : Path).normalize.components = [.up, .name "lib", .name "a.ts"] ∧
      (⟨"../../x/../../lib/./a.ts"⟩ : Path).digest ≠ (⟨"./lib/a.ts"⟩ : Path).digest := by
  have hhash : (⟨"../../x/../../lib/./a.ts"⟩ : Path).digest = (⟨"./lib/a.ts"⟩ : Path).digest →
      (⟨"../../x/../../lib/./a.ts"⟩ : Path).normalize.text =
        (⟨"./lib/a.ts"⟩ : Path).normalize.text := by decide +kernel
  have hclimbs : (⟨"../../x/../../lib/./a.ts"⟩ : Path).climbs = 3 := by decide +kernel
  obtain ⟨hform, -, -, hdigest, -⟩ := normalize_relative _ _ (by decide +kernel) (by decide +kernel) hhash
  refine ⟨by decide +kernel, by decide +kernel, hhash, hclimbs, ?_, ?_⟩
  · rw [hform]
    decide +kernel
  · rw [ne_eq, hdigest]
    decide +kernel

/-- **The second step up takes back the first**, so that a file two folders up has the normalized path and
the fingerprint of a file in the folder itself. -/
theorem normalize_loses_climbs :
    (⟨"../../a.ts"⟩ : Path).climbs = 2 ∧ (⟨"../../a.ts"⟩ : Path).normalize = ⟨"a.ts"⟩ ∧
      (⟨"../../a.ts"⟩ : Path).digest = (⟨"a.ts"⟩ : Path).digest ∧
      (⟨"../../a.ts"⟩ : Path).locate ["home", "code", "src"] = ["home", "a.ts"] ∧
      (⟨"a.ts"⟩ : Path).locate ["home", "code", "src"] = ["home", "code", "src", "a.ts"] := by
  decide +kernel

end Path

end BulkEdit
