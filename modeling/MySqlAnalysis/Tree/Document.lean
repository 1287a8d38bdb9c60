import MySqlAnalysis.Text.Offset
import MySqlAnalysis.Token.Basic
import MySqlAnalysis.Tree.Basic

/-!
# Documents

A document is a text, its tokens and the tree read from them. It gives the
trees their offsets, their source text and their printed form.
-/

set_option autoImplicit false

namespace MySqlAnalysis

/-- A text with its tokens and its syntax tree, absent when nothing was read. -/
structure Document where
  source : String
  tokens : Array Token
  root : Option Tree

namespace Document

/-- The token of a leaf, absent for the end of an input that has no such token. -/
def token? (d : Document) (t : Tree) : Option Token :=
  t.tokenIndex?.bind (d.tokens[·]?)

/-- The first token of a tree. -/
def firstToken? (d : Document) (t : Tree) : Option Token :=
  d.tokens[t.first]?

/-- The last token of a tree. -/
def lastToken? (d : Document) (t : Tree) : Option Token :=
  t.last?.bind (d.tokens[·]?)

/-- Offset of the first byte of a tree. -/
def start (d : Document) (t : Tree) : Nat :=
  ((d.firstToken? t).map (·.start)).getD 0

/-- Offset of the last byte of a tree; a rule that read nothing has its start offset. -/
def stop (d : Document) (t : Tree) : Nat :=
  ((d.lastToken? t).map (·.stop)).getD (d.start t)

/-- The source text of a tree, hidden tokens included. -/
def text (d : Document) (t : Tree) : String :=
  match d.firstToken? t, d.lastToken? t with
  | some first, some last =>
    let stop := if last.isEof then last.start else last.stop + 1
    String.ofList ((Text.slice? d.source.toList first.start stop).getD [])
  | _, _ => ""

/-- How a leaf is printed: its token's text, a mark for the end of the input,
and nothing for a token that does not exist. -/
def leafText (d : Document) (index : Nat) : String :=
  match d.tokens[index]? with
  | some t => if t.isEof then "<EOF>" else t.text
  | none => ""

mutual

/-- The tree in parenthesised form, rule name first. -/
def render (d : Document) : Tree → String
  | .token index => d.leafText index
  | .skipped index => d.leafText index
  | .node rule _ _ children => "(" ++ rule.name ++ renderAll d children ++ ")"

/-- The parts of a node in parenthesised form, a blank before each. -/
def renderAll (d : Document) : List Tree → String
  | [] => ""
  | t :: ts => " " ++ render d t ++ renderAll d ts

end

end Document

end MySqlAnalysis
