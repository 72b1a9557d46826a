import BulkEdit.Program.ByteSet
import BulkEdit.Program.Options

/-!
# Replacing bytes

`tr` replaces bytes by others, deletes bytes, and leaves one of several equal bytes in a row.
-/

namespace BulkEdit.Program.Tr

open ByteSet

/-- The options of the program, by the name it was called. -/
def options (program : Octets) : OptionTable where
  program
  letters := "AcCdst".toList
  words := [("complement", 'c'), ("delete", 'd'), ("squeeze-repeats", 's'), ("truncate-set1", 't')]
  anywhere := false

/-- What the program is asked to do. -/
structure Job where
  complement : Bool
  delete : Bool
  squeeze : Bool
  truncate : Bool
  /-- Whether bytes are replaced. -/
  translating : Bool
deriving DecidableEq, Repr

def total (es : List Element) : Nat :=
  es.foldl (fun n e => n + e.size) 0

/-- Whether an element is repeated as often as needed. -/
def isOpen : Element → Bool
  | .repeated _ none => true
  | _ => false

def members (es : List Element) : Octets :=
  es.flatMap Element.members

/-- The bytes that are in none of the elements. -/
def others (es : List Element) : Octets :=
  let inside := members es
  allBytes.filter fun c => !inside.contains c

/-- The elements with the open repetition filled up to a length. -/
def filled (es : List Element) (length : Nat) : List Element :=
  if (es.filter isOpen).length = 1 && total es ≤ length then
    es.map fun e => match e with
      | .repeated c none => .repeated c (some (length - total es))
      | e => e
  else es

/-- A byte of a description with the element it comes from. -/
structure Step where
  byte : Char
  source : Nat
  case : Option ByteClass
deriving DecidableEq, Repr

/-- The bytes of elements one after the other; the elements are numbered from `n`. -/
def steps (n : Nat) : List Element → List Step
  | [] => []
  | e :: rest => (e.members.map fun c => ⟨c, n, e.case?⟩) ++ steps (n + 1) rest

/-- What is left behind the element that a step comes from. -/
def skipElement (s : Step) (rest : List Step) : List Step :=
  rest.dropWhile fun t => t.source = s.source

/-- How many classes of one case in the second description meet one that begins at the same place in
the first; none if one of them meets no such class. The sources of the steps before tell where
elements begin. -/
def meetings? : Nat → Option Nat → Option Nat → List Step → List Step → Option Nat
  | 0, _, _, _, _ => some 0
  | _ + 1, _, _, _, [] => some 0
  | _ + 1, _, _, [], s :: _ => if s.case.isSome then none else some 0
  | count + 1, before₁, before₂, f :: first, s :: second =>
    if s.case.isNone then meetings? count (some f.source) (some s.source) first second
    else if before₂ != some s.source && !(f.case.isSome && before₁ != some f.source) then none
    else
      (meetings? count (some f.source) (some s.source) (skipElement f first)
        (skipElement s second)).map (· + 1)

/-- The pairs of bytes that replace each other; letters of one case go to their fellows. -/
def pairs : Nat → List Step → List Step → List (Char × Char)
  | 0, _, _ => []
  | count + 1, f :: first, s :: second =>
    let letters := (List.range 26).map fun n => (Char.ofNat (97 + n), Char.ofNat (65 + n))
    let here := match f.case, s.case with
      | some .lower, some .upper => letters
      | some .upper, some .lower => letters.map fun (a, b) => (b, a)
      | _, _ => [(f.byte, s.byte)]
    if s.case.isSome then here ++ pairs count (skipElement f first) (skipElement s second)
    else here ++ pairs count first second
  | _, _, _ => []

/-- The byte that replaces another; of several replacements the last one counts. -/
def replacement (table : List (Char × Char)) (c : Char) : Char :=
  ((table.reverse.find? fun p => p.1 = c).map Prod.snd).getD c

/-- Leaves one of several equal bytes in a row, if they are of the set. -/
def squeezed (set : Octets) : Octets → Octets
  | a :: b :: rest =>
    if a = b && set.contains a then squeezed set (b :: rest) else a :: squeezed set (b :: rest)
  | short => short

/-- Whether all bytes of elements are the same. -/
def isUniform (es : List Element) : Bool :=
  match members es with
  | [] => true
  | c :: rest => rest.all (· = c)

/-- The byte that fills up a description that is too short. -/
def filler? (es : List Element) : Option Char :=
  match es.getLast? with
  | some (.byte c) => some c
  | some (.range _ last) => some last
  | some (.repeated c _) => some c
  | _ => none

/-- The second description as it is used, or what is wrong with the two. -/
def second (job : Job) (first second : List Element) : Except String (List Element) :=
  let isNamed (e : Element) : Bool := match e with
    | .named _ => true
    | _ => false
  let isBadClass (e : Element) : Bool := match e with
    | .named k => !k.isCase
    | _ => false
  let isEquivalent (e : Element) : Bool := match e with
    | .equivalent _ => true
    | _ => false
  let length := if job.complement then (others first).length else total first
  let full := filled second length
  let opens := (second.filter isOpen).length
  if 1 < opens then .error "only one [c*] repeat construct may appear in string2"
  else if !job.translating then
    if 0 < opens then .error "the [c*] construct may appear in string2 only when translating"
    else .ok full
  else if second.any isEquivalent then
    .error "[=c=] expressions may not appear in string2 when translating"
  else if second.any isBadClass then
    .error ("when translating, the only character classes that may appear in\n"
      ++ "string2 are 'upper' and 'lower'")
  else
    let met := if job.complement then some 0
      else meetings? (total first + total full + 2) none none (steps 0 first) (steps 0 full)
    match met with
    | none => .error "misaligned [:upper:] and/or [:lower:] construct"
    | some met =>
      -- a class of one case counts as one byte
      let length₁ := length - 25 * met
      let length₂ := total full - 25 * met
      let extended : Except String (List Element) :=
        if length₁ > length₂ && !job.truncate then
          if length₂ = 0 then .error "when not truncating set1, string2 must be non-empty"
          else
            match filler? full with
            | some c => .ok (full ++ [.repeated c (some (length₁ - length₂))])
            | none =>
              .error ("when translating with string1 longer than string2,\n"
                ++ "the latter string must not end with a character class")
        else .ok full
      match extended with
      | .error e => .error e
      | .ok es =>
        if job.complement && first.any isNamed && !(total es = length && isUniform es) then
          .error ("when translating with complemented character classes,\n"
            ++ "string2 must map all characters in the domain to one")
        else .ok es

/-- What the program does to its input. -/
def filter (job : Job) (first : List Element) (second : Option (List Element)) (input : Octets) :
    Octets :=
  let set := if job.complement then others first else members first
  match second with
  | none => if job.delete then input.filter (!set.contains ·) else squeezed set input
  | some es =>
    if job.delete then squeezed (members es) (input.filter (!set.contains ·))
    else
      let table := if job.complement then set.zip (members es)
        else pairs (total first + total es + 2) (steps 0 first) (steps 0 es)
      let replaced := input.map (replacement table)
      if job.squeeze then squeezed (members es) replaced else replaced

def operandFault? (t : Task) (o : Options) : Option Octets :=
  let options := options t.name
  let delete := o.has 'd'
  let squeeze := o.has 's'
  let least := if delete = squeeze then 2 else 1
  let most := if delete && !squeeze then 1 else 2
  if o.operands.length < least then
    match o.operands.getLast? with
    | none => some (options.complaint (octets "missing operand\n") ++ options.hint)
    | some last =>
      let reason := if squeeze then
          "Two strings must be given when both deleting and squeezing repeats.\n"
        else "Two strings must be given when translating.\n"
      some (options.complaint (octets "missing operand after " ++ quotedArgument last)
        ++ octets ("\n" ++ reason) ++ options.hint)
  else
    match o.operands[most]? with
    | none => none
    | some extra =>
      let reason := if o.operands.length = 2 then
          "Only one string may be given when deleting without squeezing repeats.\n"
        else ""
      some (options.complaint (octets "extra operand " ++ quotedArgument extra)
        ++ octets ("\n" ++ reason) ++ options.hint)

def run (t : Task) (o : Options) : Outcome :=
  let warned (count : Nat) : Octets := (o.operands.take count).flatMap fun d =>
    (ByteSet.warnings (d.length + 1) d).flatMap t.complaint
  let failAfter (count : Nat) (text : Octets) : Outcome :=
    t.fail 1 (warned count ++ t.complaint text)
  let fail := failAfter 2
  match o.operands.map ByteSet.read with
  | [] => t.start
  | .error f :: _ => failAfter 1 f.text
  | _ :: .error f :: _ => fail f.text
  | .ok first :: rest =>
    let second? := match rest with
      | .ok es :: _ => some es
      | _ => none
    let job : Job :=
      { complement := o.has 'c' || o.has 'C'
        delete := o.has 'd'
        squeeze := o.has 's'
        truncate := o.has 't'
        translating := second?.isSome && !o.has 'd' }
    if first.any isOpen then fail (octets "the [c*] repeat construct may not appear in string1")
    else
      match second? with
      | none => t.convert (filter job first none)
      | some es =>
        match second job first es with
        | .error e => fail (octets e)
        | .ok es => t.convert (filter job first (some es))

end Tr

/-- Replaces, deletes or squeezes the bytes that it reads. -/
def tr (t : Task) : Outcome :=
  match (Tr.options t.name).sort t.arguments with
  | .error complaint => t.fail 1 complaint
  | .ok o =>
    match Tr.operandFault? t o with
    | some complaint => t.fail 1 complaint
    | none => Tr.run t o

end BulkEdit.Program
