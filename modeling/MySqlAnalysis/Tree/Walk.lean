import MySqlAnalysis.Tree.Document

/-!
# Walking a tree

A walk visits a tree depth first: a node is entered, its parts are walked from
left to right, and then it is left. Every visit of a node comes with the path
to it.
-/

set_option autoImplicit false

namespace MySqlAnalysis

/-- A node seen during a walk, with its ancestors, nearest first. -/
structure Site where
  here : Located
  ancestors : List Located

namespace Site

/-- The node above, absent at the root. -/
def parent? (s : Site) : Option Located :=
  s.ancestors.head?

/-- The nearest ancestor of the given rule. -/
def findAncestor? (s : Site) (rule : Rule) : Option Located :=
  s.ancestors.find? (·.tree.isRule rule)

end Site

/-- One step of a walk. -/
inductive Visit where
  | enter (site : Site)
  | leave (site : Site)
  | token (index : Nat)
  | skipped (index : Nat)

namespace Tree

mutual

/-- The visits of a walk over a tree at `address` below `ancestors`. Leaves
whose token does not exist are passed over. -/
def walkAt (d : Document) (ancestors : List Located) (address : Address) : Tree → List Visit
  | .token index => if index < d.tokens.size then [.token index] else []
  | .skipped index => if index < d.tokens.size then [.skipped index] else []
  | .node rule first last children =>
    let here : Located := ⟨address, .node rule first last children⟩
    .enter ⟨here, ancestors⟩ ::
      (walkFrom d (here :: ancestors) address 0 children ++ [.leave ⟨here, ancestors⟩])

/-- The visits of the children from position `i` on. -/
def walkFrom (d : Document) (ancestors : List Located) (address : Address) (i : Nat) :
    List Tree → List Visit
  | [] => []
  | t :: ts =>
    walkAt d ancestors (i :: address) t ++ walkFrom d ancestors address (i + 1) ts

end

end Tree

/-- The visits of a walk over the tree of a document. -/
def Document.walk (d : Document) : List Visit :=
  match d.root with
  | some t => Tree.walkAt d [] [] t
  | none => []

end MySqlAnalysis
