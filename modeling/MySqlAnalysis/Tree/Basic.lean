import MySqlAnalysis.Tree.Rule

/-!
# Syntax trees

A tree has a leaf for every token that was read and a node for every rule that
was tried. Leaves and spans name tokens by their position in the token list. A
node whose rule read nothing has no last token.

A place in a tree is an address: the positions of the children on the way from
the place up to the root, nearest first. The addresses of the ancestors are the
tails of an address.
-/

set_option autoImplicit false

namespace MySqlAnalysis

/-- A syntax tree. -/
inductive Tree where
  /-- A token that the grammar accepted. -/
  | token (index : Nat)
  /-- A token that was skipped to recover from an error. -/
  | skipped (index : Nat)
  /-- A rule with the position of its first token, of its last one, and its parts. -/
  | node (rule : Rule) (first : Nat) (last : Option Nat) (children : List Tree)

/-- Positions of children from a node up to the root. -/
abbrev Address := List Nat

namespace Tree

/-- The rule of a node. -/
def rule? : Tree → Option Rule
  | node rule _ _ _ => some rule
  | _ => none

/-- Whether the tree is a node of the given rule. -/
def isRule (t : Tree) (rule : Rule) : Bool :=
  t.rule? == some rule

/-- The parts of a node; a leaf has none. -/
def children : Tree → List Tree
  | node _ _ _ children => children
  | _ => []

/-- Position of the token of a leaf. -/
def tokenIndex? : Tree → Option Nat
  | token index => some index
  | skipped index => some index
  | node _ _ _ _ => none

/-- Position of the first token. -/
def first : Tree → Nat
  | token index => index
  | skipped index => index
  | node _ first _ _ => first

/-- Position of the last token, absent for a rule that read nothing. -/
def last? : Tree → Option Nat
  | token index => some index
  | skipped index => some index
  | node _ _ last _ => last

mutual

/-- Number of nodes and leaves. -/
def size : Tree → Nat
  | token _ => 1
  | skipped _ => 1
  | node _ _ _ children => 1 + sizeAll children

/-- Number of nodes and leaves of a list of trees. -/
def sizeAll : List Tree → Nat
  | [] => 0
  | t :: ts => t.size + sizeAll ts

end

mutual

/-- Positions of the tokens at the leaves, left to right. -/
def leaves : Tree → List Nat
  | token index => [index]
  | skipped index => [index]
  | node _ _ _ children => leavesAll children

/-- Positions of the tokens at the leaves of a list of trees, left to right. -/
def leavesAll : List Tree → List Nat
  | [] => []
  | t :: ts => t.leaves ++ leavesAll ts

end

end Tree

/-- A tree together with its place in a larger one. -/
structure Located where
  address : Address
  tree : Tree

namespace Located

/-- The whole tree. -/
def root (t : Tree) : Located := ⟨[], t⟩

/-- The parts of a node with their places. -/
def children (l : Located) : List Located :=
  l.tree.children.mapIdx fun i t => ⟨i :: l.address, t⟩

/-- The part at a position. -/
def child? (l : Located) (i : Nat) : Option Located :=
  (l.tree.children[i]?).map fun t => ⟨i :: l.address, t⟩

/-- The first part that is a node of the given rule. -/
def find? (l : Located) (rule : Rule) : Option Located :=
  l.children.find? (·.tree.isRule rule)

/-- The only part of a node, when it is a node of the given rule. -/
def only? (l : Located) (rule : Rule) : Option Located :=
  match l.tree.children with
  | [t] => if t.isRule rule then some ⟨0 :: l.address, t⟩ else none
  | _ => none

/-- The last part. -/
def lastChild? (l : Located) : Option Located :=
  l.children.getLast?

end Located

namespace Tree

mutual

/-- All nodes and leaves with their places, each before its parts. -/
def located (address : Address) : Tree → List Located
  | token index => [⟨address, token index⟩]
  | skipped index => [⟨address, skipped index⟩]
  | node rule first last children =>
    ⟨address, node rule first last children⟩ :: locatedFrom address 0 children

/-- All nodes and leaves of the children from position `i` on. -/
def locatedFrom (address : Address) (i : Nat) : List Tree → List Located
  | [] => []
  | t :: ts => t.located (i :: address) ++ locatedFrom address (i + 1) ts

end

/-- All nodes and leaves of a tree with their places, each before its parts. -/
def nodes (t : Tree) : List Located :=
  t.located []

end Tree

end MySqlAnalysis
