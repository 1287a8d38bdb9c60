import MySqlAnalysis.Token.Basic
import MySqlAnalysis.Tree.Builder

/-!
# Arenas

An arena is a table of nodes that refer to their parts by position in the
table, together with the positions of the nodes that are open. The root is at
position `0`. Nodes are added at the end and the part lists of the open nodes
grow; a node around an earlier one takes over its place among the parts of the
open node, and a node around the root takes over its position.
-/

set_option autoImplicit false

namespace MySqlAnalysis

/-- What a node of an arena stands for. -/
inductive NodeKind where
  | rule (rule : Rule)
  /-- A token that the grammar accepted. -/
  | token (index : Nat)
  /-- A token that was skipped to recover from an error. -/
  | skipped (index : Nat)
  deriving DecidableEq

/-- A node of an arena. -/
structure Node where
  kind : NodeKind
  /-- Position of the first token. -/
  first : Nat
  /-- Position of the last token, absent for a rule that read nothing so far. -/
  last : Option Nat
  /-- Positions of the parts in the arena. -/
  children : List Nat
  deriving DecidableEq

namespace Node

/-- A leaf for an accepted token. -/
def token (index : Nat) : Node := ⟨.token index, index, some index, []⟩

/-- A leaf for a token that was passed over. -/
def skipped (index : Nat) : Node := ⟨.skipped index, index, some index, []⟩

/-- A node of a rule that is not closed yet. -/
def opened (rule : Rule) (first : Nat) (children : List Nat) : Node :=
  ⟨.rule rule, first, none, children⟩

/-- Adds a part at the end. -/
def attach (id : Nat) (n : Node) : Node := { n with children := n.children ++ [id] }

/-- Removes the part at the end. -/
def detach (n : Node) : Node := { n with children := n.children.dropLast }

/-- Closes the node; `last` was read last. -/
def close (last : Option Nat) (n : Node) : Node := { n with last := last.filter (n.first ≤ ·) }

end Node

/-- A table of nodes and the positions of the open ones, innermost first. -/
structure Arena where
  nodes : Array Node
  stack : List Nat
  deriving DecidableEq

namespace Arena

/-- No nodes. -/
def empty : Arena := ⟨#[], []⟩

/-- Changes the innermost open node. -/
def modifyTop (a : Arena) (f : Node → Node) : Arena :=
  match a.stack with
  | [] => a
  | top :: _ => { a with nodes := a.nodes.modify top f }

/-- The parts of the innermost open node. -/
def topChildren (a : Arena) : List Nat :=
  match a.stack with
  | [] => []
  | top :: _ => (a.nodes[top]?.map Node.children).getD []

/-- Adds a node as the last part of the innermost open one. -/
def add (a : Arena) (n : Node) : Arena :=
  let id := a.nodes.size
  { a with nodes := a.nodes.push n }.modifyTop (Node.attach id)

/-- Adds an open node as the last part of the innermost open one. -/
def enter (a : Arena) (n : Node) : Arena :=
  let id := a.nodes.size
  { a.add n with stack := id :: a.stack }

/-- Closes the node at `id`. -/
def close (a : Arena) (id : Nat) (last : Option Nat) : Arena :=
  ⟨a.nodes.modify id (Node.close last), a.stack.tail⟩

/-- Opens a node around the root, which moves to the end of the table. -/
def enterAroundRoot (a : Arena) (rule : Rule) (current : Nat) : Arena :=
  match a.nodes[0]? with
  | none => a.enter (.opened rule current [])
  | some root =>
    ⟨(a.nodes.set! 0 (.opened rule root.first [a.nodes.size])).push root, 0 :: a.stack⟩

/-- Opens a node around the last part of the innermost open node. -/
def enterAroundLast (a : Arena) (rule : Rule) (current : Nat) : Arena :=
  let adopted := a.topChildren.getLast?
  let first := ((adopted.bind (a.nodes[·]?)).map Node.first).getD current
  (a.modifyTop Node.detach).enter (.opened rule first adopted.toList)

/-- Opens a node around the part that was built last. -/
def enterAround (a : Arena) (rule : Rule) (current : Nat) : Arena :=
  match a.stack with
  | [] => a.enterAroundRoot rule current
  | _ :: _ => a.enterAroundLast rule current

/-- Position of the node that `enterAround` opens. -/
def aroundId (a : Arena) : Nat :=
  match a.stack with
  | [] => 0
  | _ :: _ => a.nodes.size

/-- Cuts the table and the open nodes back to what they were `before`, and
gives the innermost open node its parts of that time. -/
def undo (before after : Arena) : Arena :=
  Arena.modifyTop
    ⟨after.nodes.take before.nodes.size,
      after.stack.drop (after.stack.length - before.stack.length)⟩
    fun n => { n with children := before.topChildren }

end Arena

/-- Arenas as trees are built in them. -/
instance : Builder Arena where
  empty := Arena.empty
  token index a := a.add (.token index)
  skipped index a := a.add (.skipped index)
  enter rule first a := a.enter (.opened rule first [])
  leave _ _ last before after := after.close before.nodes.size last
  enterAround rule current a := a.enterAround rule current
  leaveAround _ _ last before after := after.close before.aroundId last
  undo := Arena.undo

/-! ### Walking -/

namespace Arena

/-- One step of a walk. Nodes come with their positions and, when they are
entered or left, with the positions of their ancestors, nearest first. -/
inductive Visit where
  | enter (id : Nat) (ancestors : List Nat)
  | leave (id : Nat) (ancestors : List Nat)
  | token (id index : Nat)
  | skipped (id index : Nat)
  deriving DecidableEq

/-- The visits of a walk from the node at `id`, absent when more than `fuel`
nodes lie inside each other. Leaves whose token does not exist are passed over. -/
def walkNode (nodes : Array Node) (tokens : Array Token) :
    (fuel : Nat) → (ancestors : List Nat) → (id : Nat) → Option (List Visit)
  | 0, _, _ => none
  | fuel + 1, ancestors, id =>
    match nodes[id]? with
    | none => some []
    | some n =>
      match n.kind with
      | .token index => some (if index < tokens.size then [.token id index] else [])
      | .skipped index => some (if index < tokens.size then [.skipped id index] else [])
      | .rule _ =>
        (n.children.mapM (walkNode nodes tokens fuel (id :: ancestors))).map fun parts =>
          .enter id ancestors :: (parts.flatten ++ [.leave id ancestors])

/-- The visits of a walk from the root, absent when it does not end. No more
nodes than there are lie inside each other. -/
def walk (a : Arena) (tokens : Array Token) : Option (List Visit) :=
  if a.nodes.isEmpty then some [] else walkNode a.nodes tokens a.nodes.size [] 0

end Arena

end MySqlAnalysis
