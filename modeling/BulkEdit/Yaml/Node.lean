import BulkEdit.Yaml.Layout

/-!
# YAML documents

Documents are trees of nodes, with their anchors and tags. They are read one after the other, so
that a fault in a later one does not touch those before it.
-/

namespace BulkEdit.Yaml

/-- What may stand before a node. A tag is a row of bytes, since it need not spell a text. -/
structure Properties where
  anchor : Option String := none
  tag : Option (List UInt8) := none
deriving DecidableEq, Repr

inductive Node where
  | reference (name : String)
  | scalar (properties : Properties) (text : String) (style : Style)
  | sequence (properties : Properties) (items : List Node)
  | mapping (properties : Properties) (entries : List (Node × Node))
deriving Repr

namespace Node

/-- The node that stands where nothing is written. -/
def missing : Node :=
  scalar {} "" .plain

def defaultShorthands : List (String × List UInt8) :=
  [("!", [0x21]), ("!!", "tag:yaml.org,2002:".toUTF8.toList)]

/-- The tag of a handle and a suffix under the shorthands of a document. -/
def resolveTag? (shorthands : List (String × List UInt8)) (handle : String) (suffix : List UInt8) :
    Option (List UInt8) :=
  if handle = "" then some suffix
  else ((shorthands ++ defaultShorthands).lookup handle).map (· ++ suffix)

/-- The anchor and the tag before a node, in either order. -/
def properties? (shorthands : List (String × List UInt8)) :
    List Token → Option (Properties × List Token)
  | .anchor name :: .tag handle suffix :: rest => do
    let tag ← resolveTag? shorthands handle suffix
    pure (⟨some name, some tag⟩, rest)
  | .anchor name :: rest => some (⟨some name, none⟩, rest)
  | .tag handle suffix :: .anchor name :: rest => do
    let tag ← resolveTag? shorthands handle suffix
    pure (⟨some name, some tag⟩, rest)
  | .tag handle suffix :: rest => do
    let tag ← resolveTag? shorthands handle suffix
    pure (⟨none, some tag⟩, rest)
  | rest => some ({}, rest)

/-- Whether the next token is one of the given ones. -/
def next (tokens : List Token) (among : List Token) : Bool :=
  match tokens with
  | t :: _ => among.contains t
  | [] => false

mutual

/-- A node. Block collections are allowed in block context only, and a sequence without indentation
only as part of a mapping. -/
def node? (shorthands : List (String × List UInt8)) :
    Nat → Bool → Bool → List Token → Option (Node × List Token)
  | 0, _, _, _ => none
  | _ + 1, _, _, .reference name :: rest => some (reference name, rest)
  | fuel + 1, inBlock, indentless, tokens => do
    let (p, rest) ← properties? shorthands tokens
    match rest with
    | .blockEntry :: _ =>
      if indentless then
        let (items, rest) ← entries? shorthands fuel false rest
        pure (sequence p items, rest)
      else if p = {} then none
      else pure (scalar p "" .plain, rest)
    | .scalar text style :: rest => pure (scalar p text style, rest)
    | .flowSequenceStart :: rest =>
      let (items, rest) ← flowItems? shorthands fuel true rest
      pure (sequence p items, rest)
    | .flowMappingStart :: rest =>
      let (entries, rest) ← flowEntries? shorthands fuel true rest
      pure (mapping p entries, rest)
    | .blockSequenceStart :: more =>
      if inBlock then
        let (items, rest) ← entries? shorthands fuel true more
        pure (sequence p items, rest)
      else if p = {} then none
      else pure (scalar p "" .plain, rest)
    | .blockMappingStart :: more =>
      if inBlock then
        let (entries, rest) ← pairs? shorthands fuel more
        pure (mapping p entries, rest)
      else if p = {} then none
      else pure (scalar p "" .plain, rest)
    | _ => if p = {} then none else pure (scalar p "" .plain, rest)

/-- The items of a block sequence; one with its own indentation has an end token. -/
def entries? (shorthands : List (String × List UInt8)) :
    Nat → Bool → List Token → Option (List Node × List Token)
  | 0, _, _ => none
  | fuel + 1, closed, .blockEntry :: rest => do
    let ends := [Token.blockEntry, .blockEnd] ++ (if closed then [] else [.key, .value])
    let (item, rest) ←
      if next rest ends then some (missing, rest) else node? shorthands fuel true false rest
    let (items, rest) ← entries? shorthands fuel closed rest
    pure (item :: items, rest)
  | _ + 1, true, .blockEnd :: rest => some ([], rest)
  | _ + 1, true, _ => none
  | _ + 1, false, rest => some ([], rest)

def pairs? (shorthands : List (String × List UInt8)) :
    Nat → List Token → Option (List (Node × Node) × List Token)
  | 0, _ => none
  | fuel + 1, .key :: rest => do
    let ends := [Token.key, .value, .blockEnd]
    let (key, rest) ←
      if next rest ends then some (missing, rest) else node? shorthands fuel true true rest
    let (value, rest) ←
      match rest with
      | .value :: rest =>
        if next rest ends then some (missing, rest) else node? shorthands fuel true true rest
      | _ => some (missing, rest)
    let (entries, rest) ← pairs? shorthands fuel rest
    pure ((key, value) :: entries, rest)
  | _ + 1, .blockEnd :: rest => some ([], rest)
  | _ + 1, _ => none

/-- The items of a flow sequence; a single pair is a mapping of one entry. -/
def flowItems? (shorthands : List (String × List UInt8)) :
    Nat → Bool → List Token → Option (List Node × List Token)
  | 0, _, _ => none
  | _ + 1, _, .flowSequenceEnd :: rest => some ([], rest)
  | fuel + 1, first, tokens => do
    let rest ←
      if first then some tokens
      else match tokens with
        | .flowEntry :: rest => some rest
        | _ => none
    match rest with
    | .flowSequenceEnd :: rest => pure ([], rest)
    | .key :: rest =>
      let (key, rest) ←
        if next rest [.value, .flowEntry, .flowSequenceEnd] then some (missing, rest.tail)
        else node? shorthands fuel false false rest
      let (value, rest) ←
        match rest with
        | .value :: rest =>
          if next rest [.flowEntry, .flowSequenceEnd] then some (missing, rest)
          else node? shorthands fuel false false rest
        | _ => some (missing, rest)
      let (items, rest) ← flowItems? shorthands fuel false rest
      pure (mapping {} [(key, value)] :: items, rest)
    | _ =>
      let (item, rest) ← node? shorthands fuel false false rest
      let (items, rest) ← flowItems? shorthands fuel false rest
      pure (item :: items, rest)

def flowEntries? (shorthands : List (String × List UInt8)) :
    Nat → Bool → List Token → Option (List (Node × Node) × List Token)
  | 0, _, _ => none
  | _ + 1, _, .flowMappingEnd :: rest => some ([], rest)
  | fuel + 1, first, tokens => do
    let rest ←
      if first then some tokens
      else match tokens with
        | .flowEntry :: rest => some rest
        | _ => none
    match rest with
    | .flowMappingEnd :: rest => pure ([], rest)
    | .key :: rest =>
      let (key, rest) ←
        if next rest [.value, .flowEntry, .flowMappingEnd] then some (missing, rest)
        else node? shorthands fuel false false rest
      let (value, rest) ←
        match rest with
        | .value :: rest =>
          if next rest [.flowEntry, .flowMappingEnd] then some (missing, rest)
          else node? shorthands fuel false false rest
        | _ => some (missing, rest)
      let (entries, rest) ← flowEntries? shorthands fuel false rest
      pure ((key, value) :: entries, rest)
    | _ =>
      let (key, rest) ← node? shorthands fuel false false rest
      let (entries, rest) ← flowEntries? shorthands fuel false rest
      pure ((key, missing) :: entries, rest)

end

/-- The directives before a document: at most one version, which must be known, and the shorthands,
none of them twice. -/
def directives? : Nat → Bool → List (String × List UInt8) → List Token →
    Option (List (String × List UInt8) × List Token)
  | 0, _, _, _ => none
  | fuel + 1, versioned, shorthands, .version major minor :: rest =>
    if versioned || major ≠ 1 || (minor ≠ 1 && minor ≠ 2) then none
    else directives? fuel true shorthands rest
  | fuel + 1, versioned, shorthands, .tagShorthand handle expansion :: rest =>
    if (shorthands.lookup handle).isSome then none
    else directives? fuel versioned (shorthands ++ [(handle, expansion)]) rest
  | _ + 1, _, shorthands, rest => some (shorthands, rest)

/-- Whether a document without content ends here. -/
def endsDocument : List Token → Bool
  | .version _ _ :: _ => true
  | .tagShorthand _ _ :: _ => true
  | .documentStart :: _ => true
  | .documentEnd :: _ => true
  | .streamEnd :: _ => true
  | _ => false

/-- Whether the content of a first document begins without a marker. -/
def startsBare : List Token → Bool
  | [] => false
  | .documentEnd :: _ => true
  | tokens => !endsDocument tokens

/-- One document after the other; a fault ends the list with `none`. Only the first document may
begin without a marker. -/
def documentsFrom : Nat → Bool → List Token → List (Option Node)
  | 0, _, _ => [none]
  | fuel + 1, first, tokens =>
    let size := 4 * tokens.length + 8
    let finish (content : Option (Node × List Token)) : List (Option Node) :=
      match content with
      | none => [none]
      | some (_, []) => [none]
      | some (node, rest) =>
        let rest := match rest with
          | .documentEnd :: rest => rest
          | rest => rest
        some node :: documentsFrom fuel false rest
    if first && startsBare tokens then
      finish (node? [] size true false tokens)
    else
      let tokens := if first then tokens else tokens.dropWhile (· = .documentEnd)
      match tokens with
      | [.streamEnd] => []
      | _ =>
        match directives? size false [] tokens with
        | some (shorthands, .documentStart :: rest) =>
          if endsDocument rest then finish (some (missing, rest))
          else finish (node? shorthands size true false rest)
        | _ => [none]

/-- The documents of a text; a fault ends the list with `none`. -/
def documents (text : String) : List (Option Node) :=
  let ts := tokens text
  match documentsFrom (ts.length + 1) true ts with
  | [] => [some missing]
  | found => found

end Node

end BulkEdit.Yaml
