import SpanningMesh.Text.Json
import SpanningMesh.Tree.Basic

/-!
# Trees in JSON

A tree is an object with the members `nodeId`, `root` and `subs`.  The writer
leaves `root` out unless it is true, and `subs` unless there are some.  The
compact form has no blanks, the pretty form has a line for each member and an
indentation of two spaces a level.

The reader takes the members in any order and passes over those it does not
know.  It refuses a member that comes twice and wants `nodeId`.  It also takes
the three values as an array in that order, of which it can miss the last two.
No more than `maxNesting` brackets may be open at a time.
-/

namespace SpanningMesh

namespace Tree

/-! ## Writing -/

/-- How a tree is laid out as text. -/
inductive Form where
  | compact
  | pretty
deriving Repr, DecidableEq

namespace Form

/-- The break before something on a level. -/
def newline : Form → Nat → List Char
  | compact, _ => []
  | pretty, level => '\n' :: List.replicate (2 * level) ' '

/-- The sign between a key and its value. -/
def colon : Form → List Char
  | compact => [':']
  | pretty => [':', ' ']

/-- A key on a line of its own, with the sign behind it. -/
def key (form : Form) (level : Nat) (name : String) : List Char :=
  form.newline level ++ '"' :: name.toList ++ '"' :: form.colon

end Form

mutual

/-- Write the object of a tree whose braces stand on a level, in front of a text. -/
def writeObject (form : Form) (level : Nat) : Tree → List Char → List Char
  | ⟨id, root, subs⟩, rest =>
      let behind := form.newline level ++ '\x7d' :: rest
      let behind := match subs with
        | [] => behind
        | t :: ts =>
            ',' :: form.key (level + 1) "subs" ++ '[' :: (form.newline (level + 2)
              ++ writeObject form (level + 2) t (writeMore form (level + 2) ts
                (form.newline (level + 1) ++ ']' :: behind)))
      let behind :=
        if root then ',' :: form.key (level + 1) "root" ++ ("true".toList ++ behind) else behind
      '\x7b' :: form.key (level + 1) "nodeId" ++ (Nat.toDigits 10 id.toNat ++ behind)

/-- Write the objects of further trees of an array, each behind a comma, in front of a
text. -/
def writeMore (form : Form) (level : Nat) : List Tree → List Char → List Char
  | [], rest => rest
  | t :: ts, rest =>
      ',' :: (form.newline level ++ writeObject form level t (writeMore form level ts rest))

end

/-- A tree as text. -/
def toJson (form : Form) (t : Tree) : String := String.ofList (t.writeObject form 0 [])

/-! ## Reading -/

/-- How many brackets may be open at a time. -/
def maxNesting : Nat := 127

/-- The members of a tree that were found so far. -/
structure Found where
  id : Option UInt32 := none
  root : Option Bool := none
  /-- The trees behind the node. -/
  subs : Option (List Tree) := none

namespace Found

/-- The tree of the members found.  It needs an id. -/
def tree? (f : Found) : Option Tree :=
  f.id.map fun id => ⟨id, f.root.getD false, f.subs.getD []⟩

/-- Read the id, which must be new. -/
def readId (f : Found) : Scan Found := do
  if f.id.isSome then failure
  let n ← Json.natBelow UInt32.size
  return { f with id := some (UInt32.ofNat n) }

/-- Read the root flag, which must be new. -/
def readRoot (f : Found) : Scan Found := do
  if f.root.isSome then failure
  let b ← Json.bool
  return { f with root := some b }

/-- Read the trees behind the node, which must be new. -/
def readSubs (subs : Scan (List Tree)) (f : Found) : Scan Found := do
  if f.subs.isSome then failure
  let ts ← subs
  return { f with subs := some ts }

/-- Read the value of a member, or pass over it if the key is not known. -/
def readMember (length : Nat) (subs : Scan (List Tree)) (key : Option (List Char)) (f : Found) :
    Scan Found :=
  match key with
  | none => failure
  | some key =>
      if key = "nodeId".toList then f.readId
      else if key = "root".toList then f.readRoot
      else if key = "subs".toList then f.readSubs subs
      else do Json.skip length; return f

/-- Read the next value of the array form. -/
def readElement (subs : Scan (List Tree)) (f : Found) : Scan Found :=
  if f.id.isNone then f.readId
  else if f.root.isNone then f.readRoot
  else f.readSubs subs

end Found

/-- An array of so many values at the most. -/
def readArray {α : Type} (count : Nat) (item : Scan α) : Scan (List α) := do
  Json.blanks
  Scan.char '['
  let items ← Json.list ']' (fun acc => do let a ← item; return a :: acc) count []
  return items.reverse

/-- A tree in a text of some length, with so many more brackets open at the most. -/
def readWithin (length : Nat) : (nesting : Nat) → Scan Tree
  | 0 => failure
  | nesting + 1 => do
      Json.blanks
      let subs : Scan (List Tree) :=
        match nesting with
        | 0 => failure
        | inner + 1 => readArray length (readWithin length inner)
      let c ← Scan.next
      let found ←
        if c = '\x7b' then Json.list '\x7d' (Json.member (Found.readMember length subs)) length {}
        else if c = '[' then Json.list ']' (Found.readElement subs) length {}
        else failure
      match found.tree? with
      | some t => return t
      | none => failure

/-- The tree that a text is, blanks around it aside. -/
def ofJson? (text : String) : Option Tree :=
  let cs := text.toList
  Scan.all (do let t ← readWithin cs.length maxNesting; Json.blanks; return t) cs

end Tree

end SpanningMesh
