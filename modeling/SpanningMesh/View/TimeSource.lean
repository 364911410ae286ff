import SpanningMesh.View.Basic

/-!
# Whose clock is right

Of the two ends of a link one adopts the time of the other.  The end that has
the designated root behind the link adopts, and the end that has it on its own
side does not.  Where no root is known the side with fewer nodes adopts, and on a
tie the node with the lower id.  The root itself never adopts.
-/

namespace SpanningMesh

namespace View

variable {κ : Type} [DecidableEq κ]

/-- Whether the node adopts the time of the peer of a link. -/
def adoptsTimeFrom (v : View κ) (link : κ) : Bool :=
  if v.root then false
  else
    match v.branch? link with
    | none => false
    | some b =>
        if b.tree.containsRoot then true
        else if (v.others link).any (·.tree.containsRoot) then false
        else
          let ours := 1 + countNodes (v.others link)
          let theirs := b.tree.size
          if ours ≠ theirs then ours < theirs else v.node < b.tree.id

end View

end SpanningMesh
