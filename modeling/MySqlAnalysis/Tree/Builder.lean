import MySqlAnalysis.Tree.Basic

/-!
# Building trees

A grammar reads tokens from left to right and opens and closes nodes around
them. A builder says what is kept meanwhile: how a leaf is added to the open
node, how a node is opened and closed, and how everything built since some
moment is taken back. Trees themselves are one builder; `MySqlAnalysis.Tree.Arena`
is another.
-/

set_option autoImplicit false

namespace MySqlAnalysis

/-- What is kept while a tree is built. The operations that close or take back
see the state `before` the node was opened or the attempt began. -/
class Builder (β : Type) where
  /-- Nothing is built. -/
  empty : β
  /-- Adds an accepted token to the open node. -/
  token (index : Nat) (b : β) : β
  /-- Adds a token that was passed over to the open node. -/
  skipped (index : Nat) (b : β) : β
  /-- Opens a node at the token `first`. -/
  enter (rule : Rule) (first : Nat) (b : β) : β
  /-- Closes a node that was opened by `enter`; `last` was read last. -/
  leave (rule : Rule) (first : Nat) (last : Option Nat) (before after : β) : β
  /-- Opens a node around the part that was built last or, without one, at the
  token `current`. -/
  enterAround (rule : Rule) (current : Nat) (b : β) : β
  /-- Closes a node that was opened by `enterAround`; `last` was read last. -/
  leaveAround (rule : Rule) (current : Nat) (last : Option Nat) (before after : β) : β
  /-- Takes back what was built since `before`. -/
  undo (before after : β) : β

/-- The node of a rule that was opened at `first`; a rule that read nothing has
no last token. -/
def Tree.closed (rule : Rule) (first : Nat) (last : Option Nat) (children : List Tree) : Tree :=
  .node rule first (last.filter (first ≤ ·)) children

/-- The first token of a node around the last of these trees. -/
def Tree.firstAround (current : Nat) (trees : List Tree) : Nat :=
  (trees.getLast?.map Tree.first).getD current

/-- Trees as they are built: the parts of the open node, in order. -/
instance : Builder (List Tree) where
  empty := []
  token index trees := trees ++ [.token index]
  skipped index trees := trees ++ [.skipped index]
  enter _ _ _ := []
  leave rule first last before after := before ++ [.closed rule first last after]
  enterAround _ _ trees := trees.getLast?.toList
  leaveAround rule current last before after :=
    before.dropLast ++ [.closed rule (Tree.firstAround current before) last after]
  undo before _ := before

end MySqlAnalysis
