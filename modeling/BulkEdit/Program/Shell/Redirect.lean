import BulkEdit.Program.Shell.Expansion

/-!
# Redirections

What descriptors lead to while a command runs.
-/

namespace BulkEdit.Program.Shell

/-- The descriptor that a name of a file stands for. -/
def descriptorOf? (name : Octets) : Option Nat :=
  match String.ofList name with
  | "/dev/stdin" => some 0
  | "/dev/stdout" => some 1
  | "/dev/stderr" => some 2
  | _ =>
    let digit (lead : String) : Option Nat :=
      match name.drop lead.length with
      | [c] => if lead.toList.isPrefixOf name && c.isDigit then some (c.toNat - 48) else none
      | _ => none
    (digit "/dev/fd/").or (digit "/proc/self/fd/")

namespace Run

/-- Lets a descriptor lead somewhere. -/
def setHandle (descriptor : Nat) (h : Option Handle) : Run Unit :=
  modify fun s =>
    let others := s.descriptors.filter (·.1 ≠ descriptor)
    { s with descriptors := match h with
        | some h => (descriptor, h) :: others
        | none => others }

/-- Lets a descriptor lead to a text. -/
def setSource (descriptor : Nat) (text : Octets) : Run Unit := do
  let (number, world) := (← get).world.addSource text
  modify fun s => { s with world }
  setHandle descriptor (some (.source number))

end Run

/-- A complaint about a file that cannot be opened. -/
def cannot {α : Type} (what : String) (name : Octets) (why : String) : Run α :=
  Run.fault (octets ("cannot " ++ what ++ " ") ++ name ++ octets (": " ++ why))

def openToRead (descriptor : Nat) (name : Octets) : Run Unit := do
  let s ← get
  match descriptorOf? name with
  | some other => Run.setHandle descriptor (s.descriptors.lookup other)
  | none =>
    match s.world.disk.look (pathOf name) with
    | .ok (_, .file bytes) =>
      if name.isEmpty then cannot "open" name "No such file"
      else Run.setSource descriptor (ofBytes bytes)
    | .ok (_, .device) => Run.setSource descriptor []
    | .ok _ => if name.isEmpty then cannot "open" name "No such file" else Run.setSource descriptor []
    | .error _ => cannot "open" name "No such file"

/-- Opens a file for writing; it is emptied unless `keeps` says otherwise. -/
def openToWrite (descriptor : Nat) (name : Octets) (keeps : Bool) : Run Unit := do
  let s ← get
  let p := pathOf name
  match descriptorOf? name with
  | some other => Run.setHandle descriptor (s.descriptors.lookup other)
  | none =>
    if name.isEmpty then cannot "create" name "Directory nonexistent"
    else
      match s.world.disk.look p with
      | .ok (_, .device) => Run.setHandle descriptor (some .null)
      | .ok (_, .folder) => cannot "create" name "Is a directory"
      | found =>
        let isKept := keeps && (match found with
          | .ok (_, .file _) => true
          | _ => false)
        if isKept then Run.setHandle descriptor (some (.file p))
        else
          match s.world.disk.writeBytes p [] with
          | .ok disk =>
            modify fun s => { s with world := { s.world with disk } }
            Run.setHandle descriptor (some (.file p))
          | .error _ => cannot "create" name "Directory nonexistent"

/-- Lets a descriptor lead where another one leads, or nowhere. -/
def duplicate (descriptor : Nat) (name : Octets) : Run Unit := do
  match name with
  | ['-'] => Run.setHandle descriptor none
  | [c] =>
    if c.isDigit then
      match (← get).descriptors.lookup (c.toNat - 48) with
      | some h => Run.setHandle descriptor (some h)
      | none => Run.fault (name ++ octets ": Bad file descriptor")
    else Run.fault (octets "Syntax error: Bad fd number")
  | _ => Run.fault (octets "Syntax error: Bad fd number")

def redirectionTargetText (d : Deeper) : Redirection → Run Octets
  | .mk _ (.document number) _ => do
    match (← get).documents.lookup number with
    | some w => do pure (glyphText (← d.expand false false w))
    | none => pure []
  | .mk _ .duplicate target => do
    let text ← expandText d target
    match text with
    | ['-'] => pure text
    | [c] => if c.isDigit then pure text else Run.fault (octets "Syntax error: Bad fd number")
    | _ => Run.fault (octets "Syntax error: Bad fd number")
  | .mk _ _ target => expandText d target

def redirectionTargets (d : Deeper) : List Redirection → Run (List (Redirection × Octets))
  | [] => pure []
  | r :: rest => do
    let text ← redirectionTargetText d r
    pure ((r, text) :: (← redirectionTargets d rest))

def redirect : Redirection × Octets → Run Unit
  | (.mk n .read _, name) => openToRead n name
  | (.mk n .write _, name) => openToWrite n name false
  | (.mk n .append _, name) => openToWrite n name true
  | (.mk n .readWrite _, name) => openToRead n name
  | (.mk n .duplicate _, name) => duplicate n name
  | (.mk n (.document _) _, text) => Run.setSource n text

def redirectAll : List (Redirection × Octets) → Run Unit
  | [] => pure ()
  | r :: rest => do
    redirect r
    redirectAll rest

end BulkEdit.Program.Shell
