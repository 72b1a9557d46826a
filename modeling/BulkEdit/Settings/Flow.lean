import BulkEdit.Settings.Codemod

/-!
# Settings of a run

Where a run works, on which files and with how many workers, and whether it changes the tree or only
writes previews.
-/

namespace BulkEdit

/-- Where and how a codemod runs. -/
structure Flow where
  included : Option (List String) := none
  excluded : List String := []
  files : Option (List Path) := none
  target : Path
  threads : Nat := 1
  format : Bool := true
  idleTimeoutMs : Nat := 30000
deriving DecidableEq, Repr

namespace Flow

/-- There is always at least one worker. -/
def workerCount (flow : Flow) : Nat :=
  max flow.threads 1

def ofJson? (value : Json) : Option Flow := do
  let fields := ["include", "exclude", "files", "target", "threads", "format", "idleTimeoutMs"]
  let members ← Json.record? fields ["exclude"] value
  pure {
    included := ← Json.nullableField? members "include" (Json.list? Json.text?)
    excluded := ← Json.fieldOr? members "exclude" (some []) (Json.list? Json.text?)
    files := ← Json.nullableField? members "files" (Json.list? fun v => v.text?.map Path.mk)
    target := ← Json.field? members "target" fun v => v.text?.map Path.mk
    threads := ← Json.field? members "threads" Json.count?
    format := ← Json.field? members "format" Json.bool?
    idleTimeoutMs := ← Json.field? members "idleTimeoutMs" Json.count? }

def toJson (flow : Flow) : Json :=
  .obj [("include", Json.ofOption Json.ofTexts flow.included),
    ("exclude", Json.ofTexts flow.excluded),
    ("files", Json.ofOption (fun paths => Json.ofTexts (paths.map Path.text)) flow.files),
    ("target", .str flow.target.text), ("threads", .int flow.threads),
    ("format", .bool flow.format), ("idleTimeoutMs", .int flow.idleTimeoutMs)]

end Flow

/-- Whether a run changes the tree, or only writes previews into a folder. -/
inductive RunMode where
  | wet (caseDigest : String)
  | dry (caseDigest : String) (outputDir : Path)
deriving DecidableEq, Repr

namespace RunMode

/-- Whether the run leaves the tree as it is. -/
def isDry : RunMode → Bool
  | wet _ => false
  | dry _ _ => true

/-- The digest that identifies the run. -/
def caseDigest : RunMode → String
  | wet digest => digest
  | dry digest _ => digest

def outputDir? : RunMode → Option Path
  | wet _ => none
  | dry _ dir => some dir

/-- The same run, but changing the tree. -/
def asWet (mode : RunMode) : RunMode :=
  wet mode.caseDigest

def ofJson? (value : Json) : Option RunMode := do
  let (tag, body) ← Json.tagged? "mode" value
  match tag with
  | .str "wet" =>
    let members ← Json.record? ["caseHashDigest"] [] body
    pure (wet (← Json.field? members "caseHashDigest" Json.text?))
  | .str "dry" =>
    let members ← Json.record? ["caseHashDigest", "outputDir"] [] body
    let digest ← Json.field? members "caseHashDigest" Json.text?
    let dir ← Json.field? members "outputDir" Json.text?
    pure (dry digest ⟨dir⟩)
  | _ => none

def toJson : RunMode → Json
  | wet digest => .obj [("mode", .str "wet"), ("caseHashDigest", .str digest)]
  | dry digest dir =>
    .obj [("mode", .str "dry"), ("caseHashDigest", .str digest), ("outputDir", .str dir.text)]

end RunMode

end BulkEdit
