import BulkEdit.Glob.Reader

/-!
# Matching globs

A glob is matched against the bytes of a text. Each token maps a text to what may be left of it; a
glob matches if nothing may be left at its end. A glob that ends in an extension also asks for it,
which tells names apart that only look like one, such as the way up.
-/

namespace BulkEdit.Glob

/-- The separator of path components. -/
def slash : UInt8 := 47

/-- All ends of a list, itself first. -/
def ends (bs : List UInt8) : List (List UInt8) :=
  match bs with
  | [] => [[]]
  | _ :: rest => bs :: ends rest

/-- The ends that stay when bytes other than the separator are dropped. -/
def endsInComponent (bs : List UInt8) : List (List UInt8) :=
  match bs with
  | [] => [[]]
  | b :: rest => if b = slash then [bs] else bs :: endsInComponent rest

def endsAfterSlash : List UInt8 → List (List UInt8)
  | [] => []
  | b :: rest => if b = slash then rest :: endsAfterSlash rest else endsAfterSlash rest

/-- The bytes that a range of characters admits: the range between the last byte of its low end and
the first byte of its high end, and the other bytes of the two. -/
def rangeHas (range : Char × Char) (b : UInt8) : Bool :=
  let low := String.utf8EncodeChar range.1
  let high := String.utf8EncodeChar range.2
  if range.1 = range.2 then
    low.contains b
  else
    low.dropLast.contains b || high.tail.contains b ||
      (low.getLast?.getD 0 ≤ b && b ≤ high.head?.getD 0)

/-- Keeps one end of each length. Ends of one text are equal if their lengths are. -/
def distinct (ends : List (List UInt8)) : List (List UInt8) :=
  let keep (e : List UInt8) (kept : List (Nat × List UInt8)) :=
    if kept.any (·.1 == e.length) then kept else (e.length, e) :: kept
  (ends.foldr keep []).map Prod.snd

mutual

/-- Whether a branch stands for nothing at all; such branches are left out of their group. -/
def isVoid : List Token → Bool
  | [] => true
  | t :: rest => isVoidToken t && isVoid rest

/-- Whether a token is a group of which all branches are left out. -/
def isVoidToken : Token → Bool
  | .oneOf branches => areVoid branches
  | _ => false

def areVoid : List (List Token) → Bool
  | [] => true
  | branch :: rest => isVoid branch && areVoid rest

end

mutual

/-- What may be left of a text after one token. -/
def afterToken : Token → List UInt8 → List (List UInt8)
  | .literal c, bs =>
    let encoded := String.utf8EncodeChar c
    if encoded.isPrefixOf bs then [bs.drop encoded.length] else []
  | .one, b :: rest => if b = slash then [] else [rest]
  | .one, [] => []
  | .many, bs => endsInComponent bs
  | .class negated ranges, b :: rest =>
    if ranges.any (rangeHas · b) != negated then [rest] else []
  | .class _ _, [] => []
  | .deepStart, bs =>
    bs :: endsAfterSlash bs
  | .deepEnd, b :: rest => if b = slash then ends rest else []
  | .deepEnd, [] => []
  | .deepMiddle, b :: rest => if b = slash then rest :: endsAfterSlash rest else []
  | .deepMiddle, [] => []
  | .oneOf branches, bs => if areVoid branches then [bs] else distinct (afterBranches branches bs)

/-- What may be left after the tokens in order, from any of the given texts. -/
def afterTokens : List Token → List (List UInt8) → List (List UInt8)
  | [], texts => texts
  | t :: rest, texts => afterTokens rest (distinct (texts.flatMap fun bs => afterToken t bs))

def afterBranches : List (List Token) → List UInt8 → List (List UInt8)
  | [], _ => []
  | branch :: rest, bs =>
    (if isVoid branch then [] else afterTokens branch [bs]) ++ afterBranches rest bs

end

/-- Whether the tokens match the whole text. A lone `**` matches everything. -/
def tokensMatch (tokens : List Token) (bs : List UInt8) : Bool :=
  match tokens with
  | [.deepStart] => true
  | _ => (afterTokens tokens [bs]).any List.isEmpty

/-! ### Extensions -/

/-- The bytes after the last separator; a path that goes up at its end has no such name. -/
def baseName (bs : List UInt8) : List UInt8 :=
  let name := (bs.reverse.takeWhile (· != slash)).reverse
  if name = "..".toUTF8.toList then [] else name

/-- The name of a path from its last dot on; nothing if there is no dot. -/
def extensionOf (bs : List UInt8) : List UInt8 :=
  let name := (baseName bs).reverse
  let dot : UInt8 := 46
  if name.contains dot then dot :: (name.takeWhile (· != dot)).reverse else []

/-- The characters from the last dot on, if the tokens, the last one first, begin with them. -/
def endingFrom : List Char → List Token → Option (List Char)
  | held, .literal c :: rest =>
    if c = '/' then none
    else if c = '.' then some (c :: held)
    else endingFrom (c :: held) rest
  | _, _ => none

def Token.isLiteral : Token → Bool
  | .literal _ => true
  | _ => false

/-- Whether a glob is one fixed path, or such a path of several components below any folder. -/
def isFixedPath : List Token → Bool
  | .deepStart :: rest =>
    rest.all Token.isLiteral && rest.any fun
      | .literal c => c = '/'
      | _ => false
  | tokens => tokens.all Token.isLiteral

/-- The extension that a glob asks for: what stands at its end from the last dot on. A fixed path is
compared as a whole and asks for none. -/
def wantedExtension? (tokens : List Token) : Option (List UInt8) :=
  if isFixedPath tokens then none
  else (endingFrom [] tokens.reverse).map fun cs => (String.ofList cs).toUTF8.toList

/-- Whether the tokens match the whole path, and its extension is the one they ask for. -/
def isMatch (tokens : List Token) (path : String) : Bool :=
  let bs := path.toUTF8.toList
  (wantedExtension? tokens).all (· == extensionOf bs) && tokensMatch tokens bs

end BulkEdit.Glob
