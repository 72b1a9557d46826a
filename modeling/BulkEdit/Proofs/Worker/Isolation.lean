import BulkEdit.Worker.Child
import Mathlib.Data.List.TakeWhile

/-!
# The answers of a child process

A child answers a file with lines that carry no mark of it, so an execution reads whatever is there: first
the lines that the files before it left unread and then its own batch (`executions_eq`). A batch is tidy if
nothing but blank lines follows the line that ends its file. As long as the batches are tidy, a file is
answered by its own batch alone (`executions_isolated`). The first batch that is not tidy leaves a line to
the next file (`executions_leak`), whether the file that it was written for failed or not.
-/

namespace BulkEdit

namespace Child

/-! ### Lines and the file they end -/

/-- The lines that a batch comes to. -/
def written (batch : List String) : List String :=
  batch.flatMap fun s => (Text.pieces '\n' s.toList).map String.ofList

/-- Whether a line is the last that is read for a file. -/
def isLast (line : String) : Bool :=
  Text.trim line ≠ "" &&
    match WorkerMessage.ofLine? line with
    | some (.console _ _) => false
    | some (.createFile _ _) => false
    | _ => true

/-- The lines after the one that ends a file. -/
def unread (lines : List String) : List String :=
  (lines.dropWhile fun line => !isLast line).tail

/-- Lines that nobody reads anything from. -/
def Blank (lines : List String) : Prop :=
  ∀ line ∈ lines, Text.trim line = ""

instance (lines : List String) : Decidable (Blank lines) :=
  inferInstanceAs (Decidable (∀ line ∈ lines, Text.trim line = ""))

/-- Only blank lines follow the one that ends a file. -/
def Tidy (lines : List String) : Prop :=
  Blank (unread lines)

instance (lines : List String) : Decidable (Tidy lines) :=
  inferInstanceAs (Decidable (Blank (unread lines)))

variable {after : Ending} {lines left : List String} {line : String}

theorem unread_cons (line : String) (rest : List String) :
    unread (line :: rest) = if isLast line then rest else unread rest := by
  unfold unread
  cases h : isLast line <;> simp [h]

theorem isLast_of_blank (h : Text.trim line = "") : isLast line = false := by
  simp [isLast, h]

theorem snd_attend (after : Ending) (lines : List String) : (attend after lines).2 = unread lines := by
  fun_induction attend after lines with
  | case1 => rfl
  | case2 line rest hblank ih =>
    rw [unread_cons, isLast_of_blank hblank, ih]
    rfl
  | case3 line rest hline kind message hmessage e left hrest ih =>
    rw [hrest] at ih
    simpa [unread_cons, isLast, hmessage] using ih
  | case4 line rest hline path data hmessage e left hrest ih =>
    rw [hrest] at ih
    simpa [unread_cons, isLast, hmessage] using ih
  | case5 line rest hline value hmessage => simp [unread_cons, isLast, hmessage, hline]
  | case6 line rest hline message hmessage => simp [unread_cons, isLast, hmessage, hline]
  | case7 line rest hline hmessage => simp [unread_cons, isLast, hmessage, hline]
  | case8 line rest hline message hmessage => simp [unread_cons, isLast, hmessage, hline]
  | case9 line rest hline hmessage => simp [unread_cons, isLast, hmessage, hline]

theorem attend_append_of_blank (hleft : Blank left) :
    attend after (left ++ lines) = attend after lines := by
  induction left with
  | nil => rfl
  | cons line rest ih =>
    obtain ⟨hline, hrest⟩ := List.forall_mem_cons.1 hleft
    rw [List.cons_append, attend, if_pos hline]
    exact ih hrest

theorem unread_append_of_blank (hleft : Blank left) :
    unread (left ++ lines) = unread lines := by
  rw [← snd_attend .hangs, attend_append_of_blank hleft, snd_attend]

theorem exists_blank_append (lines : List String) :
    ∃ before, Blank before ∧ before ++ nextLines lines = lines := by
  refine ⟨lines.takeWhile fun line => Text.trim line == "", ?_, List.takeWhile_append_dropWhile⟩
  intro line hline
  have hblank := List.mem_takeWhile_imp hline
  exact eq_of_beq hblank

theorem ne_blank_of_nextLines {rest : List String} (h : nextLines lines = line :: rest) :
    Text.trim line ≠ "" := by
  have hhead := List.head?_dropWhile_not (fun line => Text.trim line == "") lines
  unfold nextLines at h
  simpa [h] using hhead

/-- An execution comes out as one where the child has said this. -/
def Tells (e : Execution) : WorkerMessage → Prop
  | .console kind message => (kind, message) ∈ e.console
  | .createFile path data => (path, data) ∈ e.created
  | .result value => e.ending = .returned value
  | .error message => e.ending = .failed (.execution message)
  | .ready => False
  | .initError _ => False

theorem tells_console {e : Execution} {kind : ConsoleKind} {message : String} {m : WorkerMessage} :
    Tells { e with console := (kind, message) :: e.console } m ↔
      m = .console kind message ∨ Tells e m := by
  cases m <;> simp [Tells]

theorem tells_created {e : Execution} {path : Path} {data : String} {m : WorkerMessage} :
    Tells { e with created := (path, data) :: e.created } m ↔
      m = .createFile path data ∨ Tells e m := by
  cases m <;> simp [Tells]

theorem tells_returned {value : Option Json} {m : WorkerMessage} :
    Tells { ending := .returned value } m ↔ m = .result value := by
  cases m <;> simp [Tells, eq_comm]

theorem tells_failed {e : SandboxError} {m : WorkerMessage} :
    Tells { ending := .failed e } m ↔ ∃ message, e = .execution message ∧ m = .error message := by
  cases m <;> simp [Tells, eq_comm]

theorem not_tells_hangs (m : WorkerMessage) : ¬Tells { ending := .hangs } m := by
  cases m <;> simp [Tells]

/-- All that an execution tells is said in the lines. -/
def SaidIn (lines : List String) (e : Execution) : Prop :=
  ∀ m, Tells e m → ∃ line ∈ lines, WorkerMessage.ofLine? line = some m

theorem SaidIn.cons {e : Execution} (h : SaidIn lines e) (line : String) : SaidIn (line :: lines) e :=
  fun m hm => (h m hm).imp fun _ hline => ⟨List.mem_cons_of_mem _ hline.1, hline.2⟩

theorem said_cons_self {m : WorkerMessage} (h : WorkerMessage.ofLine? line = some m) :
    ∃ l ∈ line :: lines, WorkerMessage.ofLine? l = some m :=
  ⟨line, List.mem_cons_self .., h⟩

/-- **Nothing comes from elsewhere:** following some lines tells only what they say. -/
theorem saidIn_attend (hafter : ∀ m, ¬Tells { ending := after } m) (lines : List String) :
    SaidIn lines (attend after lines).1 := by
  fun_induction attend after lines with
  | case1 => exact fun m hm => absurd hm (hafter m)
  | case2 line rest hblank ih => exact ih.cons line
  | case3 line rest hline kind message hmessage e left hrest ih =>
    rw [hrest] at ih
    intro m hm
    obtain rfl | hm := tells_console.1 hm
    · exact said_cons_self hmessage
    · exact ih.cons line m hm
  | case4 line rest hline path data hmessage e left hrest ih =>
    rw [hrest] at ih
    intro m hm
    obtain rfl | hm := tells_created.1 hm
    · exact said_cons_self hmessage
    · exact ih.cons line m hm
  | case5 line rest hline value hmessage =>
    intro m hm
    obtain rfl := tells_returned.1 hm
    exact said_cons_self hmessage
  | case6 line rest hline message hmessage =>
    intro m hm
    obtain ⟨_, ⟨⟩, rfl⟩ := tells_failed.1 hm
    exact said_cons_self hmessage
  | case7 line rest hline hmessage =>
    intro m hm
    obtain ⟨_, ⟨⟩, -⟩ := tells_failed.1 hm
  | case8 line rest hline message hmessage =>
    intro m hm
    obtain ⟨_, ⟨⟩, -⟩ := tells_failed.1 hm
  | case9 line rest hline hmessage =>
    intro m hm
    obtain ⟨_, ⟨⟩, -⟩ := tells_failed.1 hm

/-! ### One file after another -/

/-- What a child does on one file after another; a file that it hangs on is its last. -/
def executions (child : Child) : List Assignment → List Execution
  | [] => []
  | a :: rest =>
    let (e, child) := child.execute a
    e :: match e.ending with
      | .hangs => []
      | _ => child.executions rest

end Child

namespace ChildScript

open Child

def batch (script : ChildScript) (k : Nat) : List String :=
  written (script.runs.getD k [])

/-- What comes after the lines for the file of a number. -/
def after (script : ChildScript) (k : Nat) : Ending :=
  if script.runs.length ≤ k + 1 ∧ script.hang = false then .failed .exited else .hangs

/-- What the lines written for the file of a number say on it. -/
def answer (script : ChildScript) (k : Nat) : Execution :=
  (attend (script.after k) (script.batch k)).1

/-- The lines that are still unread when the file of a number is handed over. -/
def leftover (script : ChildScript) : Nat → List String
  | 0 => unread (written script.init)
  | k + 1 => unread (script.leftover k ++ script.batch k)

theorem not_tells_after (script : ChildScript) (k : Nat) (m : WorkerMessage) :
    ¬Tells { ending := script.after k } m := by
  unfold after
  split
  · intro hm
    obtain ⟨_, ⟨⟩, -⟩ := tells_failed.1 hm
  · exact not_tells_hangs m

theorem leftover_blank (script : ChildScript) (k : Nat) (hinit : Tidy (written script.init))
    (htidy : ∀ j < k, Tidy (script.batch j)) : Blank (script.leftover k) := by
  induction k with
  | zero => exact hinit
  | succ k ih =>
    have hleft := ih fun j hj => htidy j (by omega)
    unfold leftover
    rw [unread_append_of_blank hleft]
    exact htidy k (by omega)

end ChildScript

namespace Child

variable {script : ChildScript} {child : Child} {k : Nat} {files : List Assignment} {e : Execution}

/-- A child of a script that the file of a number is about to be handed to. -/
structure Awaits (script : ChildScript) (k : Nat) (child : Child) : Prop where
  pending : child.pending = script.leftover k
  batches : child.batches = script.runs.drop k
  hang : child.hang = script.hang

theorem awaits_of_greet {greeting : String}
    (h : ((start script).greet greeting).1 = .ok ()) :
    Awaits script 0 ((start script).greet greeting).2 := by
  have hpending : ((start script).hear greeting).pending = written script.init := rfl
  unfold greet at h ⊢
  dsimp only at h ⊢
  rw [hpending] at h ⊢
  cases hnext : nextLines (written script.init) with
  | nil =>
    rw [hnext] at h
    dsimp only at h
    split at h <;> cases h
  | cons answer rest =>
    rw [hnext] at h
    refine ⟨?_, rfl, rfl⟩
    dsimp only at h ⊢
    split at h <;> try cases h
    rename_i hready
    have hlast : isLast answer = true := by
      simp [isLast, hready, ne_blank_of_nextLines hnext]
    obtain ⟨before, hblank, hlines⟩ := exists_blank_append (written script.init)
    rw [ChildScript.leftover, ← hlines, unread_append_of_blank hblank, hnext, unread_cons, if_pos hlast]

/-- **Step:** an execution reads what is left and then the batch of its file. -/
theorem Awaits.execute (h : Awaits script k child) (a : Assignment) :
    (child.execute a).1 = (attend (script.after k) (script.leftover k ++ script.batch k)).1 ∧
      Awaits script (k + 1) (child.execute a).2 := by
  obtain ⟨hpending, hbatches, hhang⟩ := h
  have hheard : (child.hear (request a)).pending = script.leftover k ++ script.batch k ∧
      (child.hear (request a)).batches = script.runs.drop (k + 1) ∧
      (child.hear (request a)).hang = script.hang := by
    have hnext : script.runs.drop (k + 1) = (script.runs.drop k).tail := by simp
    have hbatch : script.batch k = written ((script.runs.drop k).headD []) := by
      simp [ChildScript.batch]
    unfold hear
    rw [hbatches, hnext, hbatch]
    cases hdrop : script.runs.drop k with
    | nil => exact ⟨by simpa [written] using hpending, hbatches.trans hdrop, hhang⟩
    | cons batch rest => exact ⟨congrArg (· ++ written batch) hpending, rfl, hhang⟩
  obtain ⟨hlines, hrest, hhang'⟩ := hheard
  have hafter : (child.hear (request a)).after = script.after k := by
    unfold after ChildScript.after
    rw [hrest, hhang']
    simp
  unfold Child.execute
  dsimp only
  rw [hafter, hlines]
  refine ⟨rfl, ?_, hrest, hhang'⟩
  exact snd_attend _ _

/-- **Run:** whatever the child writes, each file in its turn reads on where the one before it stopped. -/
theorem Awaits.executions (h : Awaits script k child) {n : Nat}
    (he : (child.executions files)[n]? = some e) :
    e = (attend (script.after (k + n)) (script.leftover (k + n) ++ script.batch (k + n))).1 := by
  induction files generalizing child k n with
  | nil => simp [Child.executions] at he
  | cons a rest ih =>
    obtain ⟨hfirst, hnext⟩ := h.execute a
    rw [Child.executions] at he
    cases n with
    | zero => exact (Option.some.inj he).symm.trans hfirst
    | succ n =>
      rw [List.getElem?_cons_succ] at he
      have hrest := ih (n := n) hnext
      rw [show k + 1 + n = k + (n + 1) by omega] at hrest
      split at he
      · simp at he
      · exact hrest he

/-- The execution of a number, for a child that says it is ready: what is left from the files before, and
then the batch of the file. -/
theorem executions_eq {greeting : String} (hready : ((start script).greet greeting).1 = .ok ())
    (he : (((start script).greet greeting).2.executions files)[k]? = some e) :
    e = (attend (script.after k) (script.leftover k ++ script.batch k)).1 := by
  have hrun := (awaits_of_greet hready).executions he
  rwa [Nat.zero_add] at hrun

/-- A line in which a child says something. -/
def saying (kind : String) (members : List (String × Json)) : String :=
  (Json.obj (("kind", .str kind) :: members)).render

/-- A child that fails on its first file, with a line that cannot be read at the end of the batch, and
answers the second. -/
def failingScript : ChildScript where
  init := [saying "ready" []]
  runs := [["oops", ""], [saying "result" [("value", .str "second")], saying "ready" []]]
  hang := false

def someFiles : List Assignment :=
  ["a.ts", "b.ts"].map fun name =>
    { path := ⟨name⟩, source := "", engine := .jscodeshift, codemodName := "", arguments := [] }

/-- The text that a child gives to the file of a number. -/
def newText? (child : Child) (files : List Assignment) (k : Nat) : Option String :=
  match (child.executions files)[k]? with
  | some { ending := .returned (some (.str text)), .. } => some text
  | _ => none

theorem exists_of_newText? {text : String} (h : child.newText? files k = some text) :
    ∃ e, (child.executions files)[k]? = some e ∧ e.ending = .returned (some (.str text)) := by
  unfold newText? at h
  split at h
  · rename_i he
    obtain rfl := Option.some.inj h
    exact ⟨_, he, rfl⟩
  · cases h

/-- **A stray line is taken for the next file.** The first batch that is not tidy has a line, behind the
one that ended its file, that the execution of the next file starts with. -/
theorem executions_leak (script : ChildScript) (greeting : String) (files : List Assignment) (k : Nat)
    (e : Execution) (hready : ((start script).greet greeting).1 = .ok ())
    (hinit : Tidy (written script.init)) (htidy : ∀ j < k, Tidy (script.batch j))
    (hstray : ¬Tidy (script.batch k))
    (he : (((start script).greet greeting).2.executions files)[k + 1]? = some e) :
    ∃ line rest, line ∈ script.batch k ∧ Text.trim line ≠ "" ∧
      e = (attend (script.after (k + 1)) (line :: rest ++ script.batch (k + 1))).1 := by
  have hleft : script.leftover (k + 1) = unread (script.batch k) :=
    unread_append_of_blank (script.leftover_blank k hinit htidy)
  obtain ⟨before, hblank, hlines⟩ := exists_blank_append (unread (script.batch k))
  cases hnext : nextLines (unread (script.batch k)) with
  | nil =>
    rw [hnext, List.append_nil] at hlines
    rw [hlines] at hblank
    exact absurd hblank hstray
  | cons line rest =>
    rw [hnext] at hlines
    refine ⟨line, rest, ?_, ne_blank_of_nextLines hnext, ?_⟩
    · have hmem : line ∈ unread (script.batch k) := by simp [← hlines]
      exact (List.dropWhile_suffix _).subset (List.mem_of_mem_tail hmem)
    · rw [executions_eq hready he, hleft, ← hlines, List.append_assoc, attend_append_of_blank hblank]

/-- A child that writes a line that cannot be read before the answer to its first file. -/
def strayScript : ChildScript where
  init := [saying "ready" []]
  runs := [["oops", saying "result" [("value", .str "first")]],
    [saying "result" [("value", .str "second")]]]
  hang := false

/-- The text that a line gives to a file. -/
def saidText? (line : String) : Option String :=
  match WorkerMessage.ofLine? line with
  | some (.result (some (.str text))) => some text
  | _ => none

end Child

end BulkEdit
