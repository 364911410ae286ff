import SpanningMesh.Yaml.Token

/-!
# Values of documents

A document is a scalar, a list or a map of values, and what is left out is the empty
plain scalar.  Anchors, tags, directives and scalars in blocks are not part of the
notation that is read here.

The readers take a count of the values that may still begin, which starts beyond the
number of tokens.
-/

namespace SpanningMesh

/-- What a document says. -/
inductive Yaml where
  | scalar (s : Yaml.Scalar)
  | list (items : List Yaml)
  /-- A map from values to values, in the order of the document. -/
  | map (entries : List (Yaml × Yaml))
deriving Repr, Inhabited

namespace Yaml

/-- The value of which nothing is written. -/
def blank : Yaml := .scalar ⟨true, []⟩

/-- A step through the tokens of a document. -/
abbrev Parse := StateT (List Token) Option

namespace Parse

/-- The next token, which stays where it is. -/
def peek : Parse (Option Token) := do return (← get).head?

/-- Skip a token. -/
def drop : Parse Unit := modify List.tail

/-- Go on behind a token if it comes next, and say whether it did. -/
def take (t : Token) : Parse Bool := do
  if (← peek) = some t then drop; return true
  else return false

/-- Go on behind a token, which must come next. -/
def want (t : Token) : Parse Unit := do
  if !(← take t) then failure

/-- Whether one of some tokens comes next. -/
def nextIn (ts : List Token) : Parse Bool := do return (← peek).any fun t => ts.contains t

mutual

/-- A value.  `block` says whether a block may begin here, and `bare` whether items may
follow without a block of their own. -/
def value (block bare : Bool) : Nat → Parse Yaml
  | 0 => failure
  | count + 1 => do
      match ← peek with
      | some (.scalar s) => drop; return .scalar s
      | some .listOpen => drop; return .list (← bracketed true count)
      | some .mapOpen => drop; return .map (← braced true count)
      | some .itemsBegin => if block then drop; return .list (← items count) else failure
      | some .keysBegin => if block then drop; return .map (← entries count) else failure
      | some .item => if bare then return .list (← bareItems count) else failure
      | _ => failure

/-- A value, or nothing where one of some tokens comes next. -/
def valueUnless (stops : List Token) (block bare : Bool) : Nat → Parse Yaml
  | 0 => failure
  | count + 1 => do if ← nextIn stops then return blank else value block bare count

/-- The items of a block up to its end. -/
def items : Nat → Parse (List Yaml)
  | 0 => failure
  | count + 1 => do
      if ← take .blockEnd then return []
      want .item
      let v ← valueUnless [.item, .blockEnd] true false count
      return v :: (← items count)

/-- The items that follow a key without a block of their own. -/
def bareItems : Nat → Parse (List Yaml)
  | 0 => failure
  | count + 1 => do
      if ← take .item then
        let v ← valueUnless [.item, .key, .value, .blockEnd] true false count
        return v :: (← bareItems count)
      else return []

/-- The keys and values of a block up to its end. -/
def entries : Nat → Parse (List (Yaml × Yaml))
  | 0 => failure
  | count + 1 => do
      if ← take .blockEnd then return []
      want .key
      let k ← valueUnless [.key, .value, .blockEnd] true true count
      let v ← if ← take .value then valueUnless [.key, .value, .blockEnd] true true count
        else pure blank
      return (k, v) :: (← entries count)

/-- The values of a list in brackets up to the closing one.  A key of which nothing is written
takes the sign behind it along. -/
def bracketed (first : Bool) : Nat → Parse (List Yaml)
  | 0 => failure
  | count + 1 => do
      if ← take .listClose then return []
      if !first then want .comma
      if ← take .listClose then return []
      let v ←
        if ← take .key then do
          let k ← if ← nextIn [.value, .comma, .listClose] then drop; pure blank
            else value false false count
          let v ← if ← take .value then valueUnless [.comma, .listClose] false false count
            else pure blank
          pure (.map [(k, v)])
        else value false false count
      return v :: (← bracketed false count)

/-- The keys and values of a map in braces up to the closing one. -/
def braced (first : Bool) : Nat → Parse (List (Yaml × Yaml))
  | 0 => failure
  | count + 1 => do
      if ← take .mapClose then return []
      if !first then want .comma
      if ← take .mapClose then return []
      let entry ←
        if ← take .key then do
          let k ← valueUnless [.value, .comma, .mapClose] false false count
          let v ← if ← take .value then valueUnless [.comma, .mapClose] false false count
            else pure blank
          pure (k, v)
        else do
          let k ← value false false count
          pure (k, blank)
      return entry :: (← braced false count)

end

/-- The value of a whole text, which must hold one document at most. -/
def document : Parse Yaml := do
  let count := 4 * (← get).length + 4
  let v ←
    if (← get).isEmpty then pure blank
    else if ← take .documentBegin then
      if (← get).isEmpty then pure blank
      else valueUnless [.documentBegin, .documentEnd] true false count
    else value true false count
  modify (·.dropWhile (· = .documentEnd))
  if !(← get).isEmpty then failure
  return v

end Parse

/-- The value that a text is. -/
def ofText? (cs : List Char) : Option Yaml := do
  let ts ← tokens? cs
  let (v, _) ← Parse.document ts
  return v

end Yaml

end SpanningMesh
