import BulkEdit.Number.Literal
import BulkEdit.Text.Utf8
import BulkEdit.Yaml.Node

/-!
# YAML values

What YAML nodes stand for. Plain scalars are resolved by their form: null, truth values, whole
numbers in four bases and doubles; everything else is text. Local tags are kept.
-/

namespace BulkEdit.Yaml

/-- A YAML value. The name of a tag has no exclamation mark before it, unless it is nothing else. -/
inductive Value where
  | null
  | bool (value : Bool)
  | int (value : Int)
  | real (value : Double)
  | str (value : String)
  | sequence (items : List Value)
  | mapping (entries : List (Value × Value))
  | tagged (tag : String) (value : Value)
deriving Repr

/-! ### Scalars -/

def isNullWord (s : String) : Bool :=
  s = "null" || s = "Null" || s = "NULL" || s = "~"

def boolWord? (s : String) : Option Bool :=
  if s = "true" ∨ s = "True" ∨ s = "TRUE" then some true
  else if s = "false" ∨ s = "False" ∨ s = "FALSE" then some false
  else none

def digits? (base : Nat) (cs : List Char) : Option Nat :=
  if cs.isEmpty then none
  else cs.foldlM (fun n c => (hexDigit? c).bind fun d => if d < base then some (base * n + d)
    else none) 0

/-- Whether the text is a row of digits that begins with an idle zero; such a text is no number. -/
def hasIdleZero (cs : List Char) : Bool :=
  let cs := match cs with
    | '-' :: rest => rest
    | '+' :: rest => rest
    | rest => rest
  match cs with
  | '0' :: d :: rest => (d :: rest).all Char.isDigit
  | _ => false

/-- The unsigned digits after a base mark, or in base ten. -/
def based? (idleZero : Bool) : List Char → Option Nat
  | '0' :: 'x' :: rest => digits? 16 rest
  | '0' :: 'o' :: rest => digits? 8 rest
  | '0' :: 'b' :: rest => digits? 2 rest
  | cs => if idleZero then none else digits? 10 cs

/-- A whole number with an optional sign. -/
def whole? (cs : List Char) : Option Int :=
  let idleZero := hasIdleZero cs
  match cs with
  | '-' :: rest => (based? idleZero rest).map fun n => -(n : Int)
  | '+' :: rest => (based? idleZero rest).map Int.ofNat
  | rest => (based? idleZero rest).map Int.ofNat

/-- A double in decimal digits, infinity or "not a number". -/
def double? (s : String) : Option Double :=
  let unsigned := match s.toList with
    | '+' :: rest => rest
    | rest => rest
  let signTwice := match s.toList with
    | '+' :: '+' :: _ => true
    | '+' :: '-' :: _ => true
    | _ => false
  let word := String.ofList unsigned
  if signTwice then none
  else if word = ".inf" ∨ word = ".Inf" ∨ word = ".INF" then some (Double.infinity false)
  else if s = "-.inf" ∨ s = "-.Inf" ∨ s = "-.INF" then some (Double.infinity true)
  else if s = ".nan" ∨ s = ".NaN" ∨ s = ".NAN" then some Double.nan
  else
    match Number.literal word with
    | .ok d => if d.isNaN || d.isInfinite then none else some d
    | .error _ => none

/-- Whether a number fits in a word of sixty-four bits, with or without a sign. -/
def fitsWord (n : Int) : Bool :=
  n < 0x10000000000000000 && -0x8000000000000000 ≤ n

/-- Whether a number fits in a word of twice that size. -/
def fitsLongWord (n : Int) : Bool :=
  n < 0x100000000000000000000000000000000 && -0x80000000000000000000000000000000 ≤ n

/-- What a plain scalar is resolved to; a whole number that fits only in a long word is refused. -/
def resolve? (s : String) : Option Value :=
  if s = "" || isNullWord s then some .null
  else
    match boolWord? s with
    | some b => some (.bool b)
    | none =>
      match whole? s.toList with
      | some n =>
        if fitsWord n then some (.int n)
        else if fitsLongWord n then none
        else some ((double? s).map Value.real |>.getD (.str s))
      | none =>
        if hasIdleZero s.toList then some (.str s)
        else some ((double? s).map Value.real |>.getD (.str s))

def standardTag (name : String) : List UInt8 :=
  ("tag:yaml.org,2002:" ++ name).toUTF8.toList

/-- The value of a scalar with a tag that is not local. -/
def standardValue? (tag : List UInt8) (text : String) : Option Value :=
  if tag = standardTag "bool" then (boolWord? text).map .bool
  else if tag = standardTag "int" then
    (whole? text.toList).bind fun n =>
      if fitsWord n then some (.int n) else none
  else if tag = standardTag "float" then (double? text).map .real
  else if tag = standardTag "null" then if isNullWord text then some .null else none
  else some (.str text)

def isLocalTag (tag : List UInt8) : Bool :=
  tag.head? == some 0x21

/-- A name without the exclamation mark before it; one that is nothing else stays. -/
def withoutBang (name : List Char) : List Char :=
  match name with
  | '!' :: c :: rest => c :: rest
  | name => name

/-- The name of a local tag, if its bytes spell one. The mark of the tag itself is not part of the
name, and one further mark is passed over. -/
def localTag? (tag : List UInt8) : Option String :=
  if isLocalTag tag then
    (Text.ofBytes? tag).map fun name => String.ofList (withoutBang (withoutBang name.toList))
  else none

/-! ### Sameness -/

namespace Value

mutual

/-- Whether two values are the same as keys: doubles by value, and mappings whatever the order of
their entries. -/
def same : Value → Value → Bool
  | null, null => true
  | bool a, bool b => a = b
  | int a, int b => a = b
  | real a, real b => a.equals b || (a.isNaN && b.isNaN)
  | str a, str b => a = b
  | sequence as, sequence bs => sameItems as bs
  | mapping as, mapping bs => as.length = bs.length && allFound as bs
  | tagged s a, tagged t b => s = t && same a b
  | _, _ => false

def sameItems : List Value → List Value → Bool
  | [], [] => true
  | a :: as, b :: bs => same a b && sameItems as bs
  | _, _ => false

/-- Whether each of the entries has its like among others. -/
def allFound : List (Value × Value) → List (Value × Value) → Bool
  | [], _ => true
  | (key, value) :: rest, others =>
    others.any (fun other => same key other.1 && same value other.2) && allFound rest others

end

end Value

/-! ### Anchors -/

/-- The anchors seen so far by name, and the nodes that they stand for by number. A new anchor takes
the count of different names as its number. -/
structure Anchors where
  numbers : List (String × Nat) := []
  nodes : List (Nat × Node) := []

def Anchors.note (a : Anchors) (p : Properties) (n : Node) : Anchors :=
  match p.anchor with
  | none => a
  | some name =>
    let number := a.numbers.length
    ⟨(name, number) :: a.numbers.filter (·.1 != name), (number, n) :: a.nodes⟩

/-- Puts the finished node in the place of the one noted when it began, before which there were
`earlier` nodes. -/
def Anchors.settle (a : Anchors) (p : Properties) (earlier : Nat) (n : Node) : Anchors :=
  match p.anchor with
  | none => a
  | some _ =>
    let place := a.nodes.length - 1 - earlier
    { a with nodes := a.nodes.modify place fun (number, _) => (number, n) }

mutual

/-- Replaces the names of aliases by numbers in the order of the text. -/
def number? : Node → Anchors → Option (Node × Anchors)
  | .reference name, a => (a.numbers.lookup name).map fun n => (.reference (Nat.repr n), a)
  | .scalar p text style, a => some (.scalar p text style, a.note p (.scalar p text style))
  | .sequence p items, a => do
    -- the number is taken at the beginning, the node is known at the end
    let before := a.note p .missing
    let (items, after) ← numberItems? items before
    pure (.sequence p items, after.settle p a.nodes.length (.sequence p items))
  | .mapping p entries, a => do
    let before := a.note p .missing
    let (entries, after) ← numberEntries? entries before
    pure (.mapping p entries, after.settle p a.nodes.length (.mapping p entries))

def numberItems? : List Node → Anchors → Option (List Node × Anchors)
  | [], a => some ([], a)
  | item :: rest, a => do
    let (item, a) ← number? item a
    let (rest, a) ← numberItems? rest a
    pure (item :: rest, a)

def numberEntries? : List (Node × Node) → Anchors → Option (List (Node × Node) × Anchors)
  | [], a => some ([], a)
  | (key, value) :: rest, a => do
    let (key, a) ← number? key a
    let (value, a) ← number? value a
    let (rest, a) ← numberEntries? rest a
    pure ((key, value) :: rest, a)

end

mutual

/-- How many steps it takes to name all parts of a node. -/
def weight : Node → Nat
  | .reference _ => 1
  | .scalar _ _ _ => 1
  | .sequence _ items => 2 + weightItems items
  | .mapping _ entries => 2 + weightEntries entries

def weightItems : List Node → Nat
  | [] => 0
  | item :: rest => weight item + weightItems rest

def weightEntries : List (Node × Node) → Nat
  | [] => 0
  | (key, value) :: rest => weight key + weight value + weightEntries rest

end

/-! ### Documents -/

/-- The value of a scalar. A local tag that spells no name counts for nothing. -/
def scalarValue? (p : Properties) (text : String) (style : Style) : Option Value :=
  let untagged := if style = .plain then resolve? text else some (.str text)
  match p.tag with
  | none => untagged
  | some tag =>
    match localTag? tag with
    | some name => untagged.map (.tagged name)
    | none => if isLocalTag tag then untagged else standardValue? tag text

/-- A collection under its tag; a local tag is kept, all others say nothing new. -/
def underTag (p : Properties) (value : Value) : Value :=
  match p.tag.bind localTag? with
  | none => value
  | some name => .tagged name value

/-- The values of items in order; `jumps` counts the aliases followed. -/
def evaluateItems (evaluate : Node → Nat → Option (Value × Nat)) :
    List Node → Nat → Option (List Value × Nat)
  | [], jumps => some ([], jumps)
  | item :: rest, jumps => do
    let (value, jumps) ← evaluate item jumps
    let (values, jumps) ← evaluateItems evaluate rest jumps
    pure (value :: values, jumps)

/-- The values of entries in order; no key may occur twice. -/
def evaluateEntries (evaluate : Node → Nat → Option (Value × Nat)) :
    List (Value × Value) → List (Node × Node) → Nat → Option (List (Value × Value) × Nat)
  | seen, [], jumps => some (seen.reverse, jumps)
  | seen, (key, value) :: rest, jumps => do
    let (k, jumps) ← evaluate key jumps
    guard (!seen.any fun entry => entry.1.same k)
    let (v, jumps) ← evaluate value jumps
    evaluateEntries evaluate ((k, v) :: seen) rest jumps

/-- The node behind an alias; at most `limit` aliases are followed. -/
def follow? (nodes : List (Nat × Node)) (limit : Nat) (node : Node) (jumps : Nat) :
    Option (Node × Nat) :=
  match node with
  | .reference number => do
    guard (jumps + 1 ≤ limit)
    let target ← (nodes.find? fun entry => Nat.repr entry.1 == number).map Prod.snd
    pure (target, jumps + 1)
  | node => some (node, jumps)

/-- The value of a node whose collections are at most `depth` deep. -/
def evaluate? (nodes : List (Nat × Node)) (limit : Nat) : Nat → Node → Nat → Option (Value × Nat)
  | depth, node, jumps => do
    let (node, jumps) ← follow? nodes limit node jumps
    match node, depth with
    | .reference _, _ => none
    | .scalar p text style, _ => (scalarValue? p text style).map (·, jumps)
    | .sequence _ _, 0 => none
    | .mapping _ _, 0 => none
    | .sequence p items, depth + 1 =>
      let (values, jumps) ← evaluateItems (evaluate? nodes limit depth) items jumps
      pure (underTag p (.sequence values), jumps)
    | .mapping p entries, depth + 1 =>
      let (values, jumps) ← evaluateEntries (evaluate? nodes limit depth) [] entries jumps
      pure (underTag p (.mapping values), jumps)

def Node.value? (node : Node) : Option Value := do
  let (node, anchors) ← number? node {}
  (evaluate? anchors.nodes (100 * weight node) 128 node 0).map Prod.fst

/-- The values of the documents of a text; a fault ends the list with `none`. -/
def values (text : String) : List (Option Value) :=
  (Node.documents text).map fun d => d.bind Node.value?

namespace Value

def untagged : Value → Value
  | tagged _ value => value.untagged
  | value => value

def get? (value : Value) (key : String) : Option Value :=
  match value.untagged with
  | mapping entries => (entries.find? fun entry => entry.1.same (.str key)).map Prod.snd
  | _ => none

end Value

end BulkEdit.Yaml
