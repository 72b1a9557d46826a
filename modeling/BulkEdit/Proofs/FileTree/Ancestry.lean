import BulkEdit.Proofs.FileTree.Shape

/-!
# Folders above all entries

When a file is seeded or a folder is made, the folders above it are added from the nearest one on, up to the
first that is there already. This is enough: in every tree that comes about from the empty one, whatever is
tried on it (`run`), what stands above an entry is a folder, so nothing is missing above a folder that is
there, and stopping at it is the same as going on to the top (`addAncestors_eq`, `run_rooted`).
-/

namespace BulkEdit.FileTree

open Route (Above)

variable {t : FileTree}

/-! ### Whatever is tried -/

/-- What can be done to a tree: seeding a file always succeeds, and an operation may fail. -/
inductive Action where
  | seed (p : Path) (data : String)
  | attempt (op : Op)
deriving DecidableEq, Repr

/-- The tree after an action; one that fails leaves the tree as it is. -/
def act (t : FileTree) : Action → FileTree
  | .seed p data => t.seed p data
  | .attempt op =>
    match op.step t with
    | .ok t' => t'
    | .error _ => t

def run (t : FileTree) (actions : List Action) : FileTree :=
  actions.foldl act t

theorem Built.act (h : t.Built) (action : Action) : (t.act action).Built := by
  cases action with
  | seed p data => exact h.seed p data
  | attempt op =>
    cases hop : op.step t with
    | ok t' => simpa only [FileTree.act, hop] using h.step hop
    | error e => simpa only [FileTree.act, hop] using h

theorem Built.run (h : t.Built) (actions : List Action) : (t.run actions).Built := by
  unfold FileTree.run
  induction actions generalizing t with
  | nil => exact h
  | cons action rest ih => exact ih (h.act action)

/-! ### What stands above -/

theorem Built.mem_folders_of_above (h : t.Built) {a r : Route} (hr : t.Holds r) (habove : Above a r)
    (ha : a ≠ []) : a ∈ t.folders :=
  h.mem_folders_of_holds hr (habove.mem_ancestors (h.isPlace_of_holds hr) ha)

/-- **Stopping early** at a folder that is there is the same as adding all folders above a place. -/
theorem Closed.addAncestors_eq (h : t.Closed) (r : Route) :
    t.addAncestors r = { t with folders := t.folders.insertMany r.ancestors } := by
  have hfolders : (t.addAncestors r).folders = t.folders.insertMany r.ancestors := by
    refine Std.ExtTreeSet.ext_mem fun a => ?_
    rw [mem_addAncestors h, Std.ExtTreeSet.mem_insertMany_list, List.contains_iff_mem]
  rw [← hfolders]
  rfl

/-- **The folders above all entries are there**, after any actions on the empty tree, of which some succeed
and some fail. So where the folders above a place are added up to the first one that is there, all of them
are there afterwards: the tree is the same as if they had all been added. -/
theorem run_rooted (actions : List Action) :
    (∀ r a, (run .empty actions).Holds r → Above a r → a ≠ [] → a ∈ (run .empty actions).folders) ∧
      ∀ p : Path,
        (run .empty actions).addAncestors p.route =
            { run .empty actions with
              folders := (run .empty actions).folders.insertMany p.route.ancestors } ∧
          ∀ a, Above a p.route → a ≠ [] → a ∈ ((run .empty actions).addAncestors p.route).folders := by
  have hbuilt : (run .empty actions).Built := Built.empty.run actions
  refine ⟨fun r a hr habove ha => hbuilt.mem_folders_of_above hr habove ha, fun p => ⟨?_, ?_⟩⟩
  · exact hbuilt.closed.addAncestors_eq p.route
  · intro a habove ha
    exact (mem_addAncestors hbuilt.closed p.route a).2 (Or.inr (habove.mem_ancestors p.route_isPlace ha))

end BulkEdit.FileTree
