import SpanningMesh.Tree.Basic

/-!
# Outlines of trees

The outline is the short notation of a tree for logs and test cases: the id of the
node, a star for the designated root, and what lies behind its links in parentheses,
as in `1*(2(3),4)`.

The reader takes one character after the other and keeps the nodes that are still
open, the innermost first.  It refuses nothing: it takes other characters for digits
of no value, and closes what is open at the end.
-/

namespace SpanningMesh

namespace Tree

mutual

/-- The outline of a tree: its id, a star if it is the root, and those behind it in parentheses. -/
def outlineChars : Tree → List Char
  | ⟨id, root, subs⟩ =>
      Nat.toDigits 10 id.toNat ++ (if root then ['*'] else [])
        ++ match subs with
          | [] => []
          | t :: ts => '(' :: outlineChars t ++ moreOutlines ts ++ [')']

/-- The outlines of further trees, each behind a comma. -/
def moreOutlines : List Tree → List Char
  | [] => []
  | t :: ts => ',' :: outlineChars t ++ moreOutlines ts

end

/-- The outline of a tree as text. -/
def outline (t : Tree) : String := String.ofList t.outlineChars

/-- Hang a finished tree behind the other trees of a node. -/
def hang (parent sub : Tree) : Tree := { parent with subs := parent.subs ++ [sub] }

/-- Finish the innermost open node and hang it on the next. -/
def closeInner (node : Tree) : List Tree → Tree × List Tree
  | [] => (node, [])
  | parent :: outer => (parent.hang node, outer)

/-- Read an outline with a node in progress and the open nodes around it. -/
def readOutline (node : Tree) (outer : List Tree) : List Char → Tree
  | [] => outer.foldl (fun inner parent => parent.hang inner) node
  | '*' :: cs => readOutline { node with root := true } outer cs
  | '(' :: cs => readOutline unknown (node :: outer) cs
  | ',' :: cs =>
      let (parent, outer) := closeInner node outer
      readOutline unknown (parent :: outer) cs
  | ')' :: cs =>
      let (parent, outer) := closeInner node outer
      readOutline parent outer cs
  | c :: cs =>
      let digit := if c.isDigit then c.toNat - '0'.toNat else 0
      readOutline { node with id := 10 * node.id + UInt32.ofNat digit } outer cs

/-- The tree of an outline. -/
def ofOutline (text : String) : Tree := readOutline unknown [] text.toList

/-- A chain of a number of nodes, numbered from the bottom up. -/
def chain : Nat → Tree
  | 0 => unknown
  | n + 1 => ⟨UInt32.ofNat (n + 1), false, if n = 0 then [] else [chain n]⟩

/-- A node over a number of leaves. -/
def fan (leaves : Nat) : Tree := ⟨1, false, List.replicate leaves ⟨2, false, []⟩⟩

/-! ## Examples -/

example : (⟨1, true, [⟨2, false, [⟨3, false, []⟩]⟩, ⟨4, false, []⟩]⟩ : Tree).outlineChars
    = "1*(2(3),4)".toList := by decide +kernel

example : readOutline unknown [] "1*(2(3),4)".toList
    = ⟨1, true, [⟨2, false, [⟨3, false, []⟩]⟩, ⟨4, false, []⟩]⟩ := by decide +kernel

end Tree

end SpanningMesh
