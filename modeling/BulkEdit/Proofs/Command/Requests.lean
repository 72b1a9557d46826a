import BulkEdit.Proofs.Command.Effect
import BulkEdit.Proofs.FileTree.Shape

/-!
# When a tree stays a tree

Operations and commands are asked of a tree one after another, and some of them fail. A command is made of
operations (`applyWet_eq_attempt`), so all that happens is a history of operations that succeed. Every tree of
this history is proper exactly if none of the operations misplaces anything (`stays_proper_iff`). That a folder
can be made below a file is not prevented (`not_always_proper`).
-/

namespace BulkEdit.FileTree

variable {t t' : FileTree}

/-! ### Commands as operations -/

namespace Op

/-- What is done for the folder of a path. -/
def forFolder (p : Path) : List Op :=
  match p.folder? with
  | some folder => [.makeFolders folder]
  | none => []

def ofCommand : FileCommand → List Op
  | .create newPath newData _ => forFolder newPath ++ [.write newPath newData]
  | .update oldPath _ newData _ => [.write oldPath newData]
  | .delete oldPath => [.remove oldPath]
  | .move oldPath newPath => forFolder newPath ++ [.copy oldPath newPath, .remove oldPath]
  | .copy oldPath newPath => forFolder newPath ++ [.copy oldPath newPath]

end Op

theorem attempt_forFolder (p : Path) (rest : List TreeStep) :
    t.attempt ((·.ensureFolder p) :: rest) = t.attempt ((Op.forFolder p).map Op.step ++ rest) := by
  unfold Op.forFolder
  rw [attempt]
  cases hp : p.folder? with
  | none => simp [ensureFolder, hp]
  | some folder =>
    simp only [ensureFolder, hp, List.map_cons, List.map_nil, List.cons_append, List.nil_append, attempt]
    rfl

theorem applyWet_eq_attempt (c : FileCommand) :
    c.applyWet t = t.attempt ((Op.ofCommand c).map Op.step) := by
  unfold FileCommand.applyWet
  cases c with
  | create p data format =>
    rw [FileCommand.steps, attempt_forFolder, Op.ofCommand, List.map_append]
    rfl
  | update p old data format => rfl
  | delete p => rfl
  | move p q =>
    rw [FileCommand.steps, attempt_forFolder, Op.ofCommand, List.map_append]
    rfl
  | copy p q =>
    rw [FileCommand.steps, attempt_forFolder, Op.ofCommand, List.map_append]
    rfl

/-! ### Requests and their history -/

/-- What can be asked of a tree: a single operation, or a command. -/
inductive Request where
  | single (op : Op)
  | command (c : FileCommand)
deriving DecidableEq, Repr

/-- The tree after a request, whether it succeeds or fails. -/
def serve (t : FileTree) : Request → FileTree
  | .single op =>
    match op.step t with
    | .ok t' => t'
    | .error _ => t
  | .command c => (c.applyWet t).2

def Request.ops : Request → List Op
  | single op => [op]
  | command c => Op.ofCommand c

/-- An operation that succeeds, with the trees before and after it. -/
structure Stage where
  before : FileTree
  op : Op
  after : FileTree

/-- The stages of some operations, up to the first that fails. -/
def stages (t : FileTree) : List Op → List Stage
  | [] => []
  | op :: rest =>
    match op.step t with
    | .ok t' => ⟨t, op, t'⟩ :: stages t' rest
    | .error _ => []

/-- The stages of some requests, each of them made of what the earlier ones left. -/
def history (t : FileTree) : List Request → List Stage
  | [] => []
  | request :: rest => t.stages request.ops ++ history (t.serve request) rest

theorem serve_eq_attempt (request : Request) :
    t.serve request = (t.attempt (request.ops.map Op.step)).2 := by
  cases request with
  | single op =>
    simp only [serve, Request.ops, List.map_cons, List.map_nil, attempt]
    cases op.step t <;> rfl
  | command c => rw [serve, applyWet_eq_attempt, Request.ops]

/-- What holds of a tree and of all that comes after it in the stages holds of what is left. -/
theorem attempt_of_stages {P : FileTree → Prop} (ht : P t) {ops : List Op}
    (hstages : ∀ s ∈ t.stages ops, P s.after) : P (t.attempt (ops.map Op.step)).2 := by
  induction ops generalizing t with
  | nil => exact ht
  | cons op rest ih =>
    rw [List.map_cons, attempt]
    unfold stages at hstages
    cases hop : op.step t with
    | error e => exact ht
    | ok t' =>
      simp only [hop, List.forall_mem_cons] at hstages
      exact ih hstages.1 hstages.2

theorem serve_of_stages {P : FileTree → Prop} (ht : P t) {request : Request}
    (hstages : ∀ s ∈ t.stages request.ops, P s.after) : P (t.serve request) :=
  serve_eq_attempt request ▸ attempt_of_stages ht hstages

theorem Built.stages (h : t.Built) (ops : List Op) : ∀ s ∈ t.stages ops, s.after.Built := by
  induction ops generalizing t with
  | nil => exact fun s hs => nomatch hs
  | cons op rest ih =>
    unfold FileTree.stages
    cases hop : op.step t with
    | error e => exact fun s hs => nomatch hs
    | ok t' => exact List.forall_mem_cons.2 ⟨h.step hop, ih (h.step hop)⟩

/-- The trees of the stages are proper exactly if nothing is misplaced. -/
theorem Proper.stages_iff (h : t.Proper) (hbuilt : t.Built) (ops : List Op) :
    (∀ s ∈ t.stages ops, s.after.Proper) ↔ ∀ s ∈ t.stages ops, ¬ s.op.Misplaces s.before := by
  induction ops generalizing t with
  | nil => exact iff_of_true (fun s hs => nomatch hs) (fun s hs => nomatch hs)
  | cons op rest ih =>
    unfold FileTree.stages
    cases hop : op.step t with
    | error e => exact iff_of_true (fun s hs => nomatch hs) (fun s hs => nomatch hs)
    | ok t' =>
      rw [List.forall_mem_cons, List.forall_mem_cons, ← h.step_iff hbuilt hop]
      exact and_congr_right fun h' => ih h' (hbuilt.step hop)

theorem Proper.history_iff (h : t.Proper) (hbuilt : t.Built) (requests : List Request) :
    (∀ s ∈ t.history requests, s.after.Proper) ↔
      ∀ s ∈ t.history requests, ¬ s.op.Misplaces s.before := by
  induction requests generalizing t with
  | nil => exact iff_of_true (fun s hs => nomatch hs) (fun s hs => nomatch hs)
  | cons request rest ih =>
    unfold FileTree.history
    rw [List.forall_mem_append, List.forall_mem_append, ← h.stages_iff hbuilt request.ops]
    exact and_congr_right fun hstages =>
      ih (serve_of_stages h hstages) (serve_of_stages hbuilt (hbuilt.stages request.ops))

/-- Where the trees of the stages are proper, so is the tree in the end. -/
theorem Proper.foldl_serve (h : t.Proper) {requests : List Request}
    (hstages : ∀ s ∈ t.history requests, s.after.Proper) : (requests.foldl serve t).Proper := by
  induction requests generalizing t with
  | nil => exact h
  | cons request rest ih =>
    unfold FileTree.history at hstages
    rw [List.forall_mem_append] at hstages
    exact ih (serve_of_stages h hstages.1) hstages.2

/-- **A tree stays a tree as long as nothing is misplaced.** Of all trees that a sequence of operations and
commands passes through, from the empty one on, and whether they succeed or fail, every one is proper exactly
if no operation that succeeds makes a folder below a file, or puts a file at the empty place above an entry;
then the tree in the end is proper too. -/
theorem stays_proper_iff (requests : List Request) :
    ((∀ s ∈ FileTree.empty.history requests, s.after.Proper) ↔
        ∀ s ∈ FileTree.empty.history requests, ¬ s.op.Misplaces s.before) ∧
      ((∀ s ∈ FileTree.empty.history requests, ¬ s.op.Misplaces s.before) →
        (requests.foldl serve .empty).Proper) := by
  have hiff := proper_empty.history_iff .empty requests
  exact ⟨hiff, fun h => proper_empty.foldl_serve (hiff.2 h)⟩

/-- **A folder can be made below a file.** The file is then hiding a folder, be the folder asked for alone or
come with a new file. -/
theorem not_always_proper :
    let file := [Request.single (.makeFolders ⟨"/"⟩), .single (.write ⟨"/a"⟩ "x")]
    let alone := file ++ [.single (.makeFolders ⟨"/a/b"⟩)]
    let withFile := file ++ [.command (.create ⟨"/a/b/c"⟩ "y" false)]
    ¬ (alone.foldl serve .empty).Proper ∧ ¬ (withFile.foldl serve .empty).Proper := by
  intro file alone withFile
  have halone : ¬ (alone.foldl serve .empty).Unhidden := by decide +kernel
  have hwithFile : ¬ (withFile.foldl serve .empty).Unhidden := by decide +kernel
  exact ⟨fun h => halone h.unhidden, fun h => hwithFile h.unhidden⟩

end BulkEdit.FileTree
