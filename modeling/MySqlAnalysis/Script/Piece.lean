import MySqlAnalysis.Text.Offset
import MySqlAnalysis.Text.Search

/-!
# Pieces of a script

A script is cut into pieces: comments, quoted regions, single characters, the
delimiters that end statements, and the directives that choose another
delimiter. Delimiters inside comments and quoted regions do not end anything.
-/

set_option autoImplicit false

namespace MySqlAnalysis.Script

open Text

/-- The texts that end a line and a statement. -/
structure Separators where
  lineBreak : List Char
  delimiter : List Char
  deriving DecidableEq

/-- The separators with the given texts; an empty one stands for its default. -/
def Separators.ofTexts (lineBreak delimiter : String) : Separators where
  lineBreak := if lineBreak.isEmpty then ['\n'] else lineBreak.toList
  delimiter := if delimiter.isEmpty then [';'] else delimiter.toList

/-- What a piece of a script is for. -/
inductive Role where
  /-- A comment, which has no effect in front of a statement. -/
  | comment
  /-- A blank character. -/
  | blank
  /-- Text of a statement: a quoted region, a version comment or any other character. -/
  | content
  /-- A delimiter. -/
  | terminator
  /-- A directive line with the delimiter it chooses; an empty one changes nothing. -/
  | directive (delimiter : List Char)
  deriving DecidableEq

/-- A piece of a script and the offset of its first byte. -/
structure Piece where
  role : Role
  start : Nat
  text : List Char
  deriving DecidableEq

/-- What was recognised at the head of a script. -/
structure Cut where
  role : Role
  /-- Number of characters after the first one that belong to the piece. -/
  extra : Nat

/-- The word that starts a directive, in upper case. -/
def directiveWord : List Char := "DELIMITER".toList

/-- Number of characters after the `/` of a block comment that belong to it. An
unclosed comment reaches the end. -/
def blockCommentExtra (rest : List Char) : Nat :=
  match find? ['*', '/'] rest.tail with
  | some n => n + 3
  | none => rest.length

/-- Number of characters of a text up to the end of its first line. -/
def lineLength (lineBreak text : List Char) : Nat :=
  match find? lineBreak text with
  | some n => n + lineBreak.length
  | none => text.length

/-- Number of characters of a quoted region after the quote that opens it. A
backslash hides the next character. An unclosed region reaches the end. -/
def quotedExtra (quote : Char) : List Char → Nat
  | [] => 0
  | [_] => 1
  | c :: d :: cs =>
    if c == backslash then quotedExtra quote cs + 2
    else if c == quote then 1
    else quotedExtra quote (d :: cs) + 1

/-- Whether two dashes followed by `rest` start a comment. -/
def dashesStartComment (lineBreak rest : List Char) : Bool :=
  match rest with
  | [] => true
  | c :: _ => c == ' ' || c == '\t' || c == '\r' || c == '\n' || lineBreak.isPrefixOf rest

/-- Whether a text starts with the word of a directive, in any case, and the
character before it is not part of an identifier. -/
def startsDirective (previous : Option Char) (text : List Char) : Bool :=
  !previous.any isIdentifierPart && upper (text.take directiveWord.length) == directiveWord

/-- The directive at the head of a text: its value is the rest of the line, and
all line breaks after it belong to it. -/
def cutDirective (lineBreak text : List Char) : Cut :=
  let after := text.drop directiveWord.length
  let length := (find? lineBreak after).getD after.length
  { role := .directive (trim (after.take length))
    extra := directiveWord.length - 1 + length + repeatLength lineBreak 0 (after.drop length) }

/-- The piece at the head of a script, after the character `previous`. -/
def cut (s : Separators) (previous : Option Char) (c : Char) (rest : List Char) : Cut :=
  if c == '/' && rest.head? == some '*' then
    ⟨if rest.tail.head? == some '!' then .content else .comment, blockCommentExtra rest⟩
  else if c == '-' && rest.head? == some '-' && dashesStartComment s.lineBreak rest.tail then
    ⟨.comment, lineLength s.lineBreak (c :: rest) - 1⟩
  else if c == '#' then ⟨.comment, lineLength s.lineBreak (c :: rest) - 1⟩
  else if isQuote c then ⟨.content, quotedExtra c rest⟩
  else if startsDirective previous (c :: rest) then cutDirective s.lineBreak (c :: rest)
  else if s.delimiter.isPrefixOf (c :: rest) then ⟨.terminator, s.delimiter.length - 1⟩
  else ⟨if isPlainBlank c then .blank else .content, 0⟩

/-- The separators after a piece. -/
def Separators.after (s : Separators) (role : Role) : Separators :=
  match role with
  | .directive delimiter => if delimiter.isEmpty then s else { s with delimiter }
  | _ => s

/-- The pieces of a script from `offset` on, whose first `pending` characters
belong to the piece before it. -/
def piecesFrom (s : Separators) :
    (pending : Nat) → (previous : Option Char) → (offset : Nat) → List Char → List Piece
  | _, _, _, [] => []
  | pending + 1, _, offset, c :: rest =>
    piecesFrom s pending (some c) (offset + c.utf8Size) rest
  | 0, previous, offset, c :: rest =>
    let found := cut s previous c rest
    ⟨found.role, offset, c :: rest.take found.extra⟩ ::
      piecesFrom (s.after found.role) found.extra (some c) (offset + c.utf8Size) rest

/-- The pieces of a script. -/
def pieces (s : Separators) (text : List Char) : List Piece :=
  piecesFrom s 0 none 0 text

end MySqlAnalysis.Script
