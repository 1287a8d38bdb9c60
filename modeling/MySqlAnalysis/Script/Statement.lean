import MySqlAnalysis.Script.Piece

/-!
# Statements of a script

A statement is what lies between two delimiters or directives, without the
comments and blanks in front of it and without surrounding white space. Its
span is half open.
-/

set_option autoImplicit false

namespace MySqlAnalysis

/-- A statement of a script. `stop` is the offset just past its last byte. -/
structure Statement where
  text : String
  start : Nat
  stop : Nat
  deriving DecidableEq

namespace Statement

/-- Whether an offset lies on the statement or just past it. -/
def contains (s : Statement) (offset : Nat) : Bool :=
  s.start ≤ offset && offset ≤ s.stop

/-- The text of a region that starts at `offset`, trimmed, unless nothing is left. -/
def ofRegion? (offset : Nat) (region : List Char) : Option Statement :=
  let leading := region.takeWhile Text.isWhiteSpace
  let trimmed := Text.trim region
  let start := offset + Text.byteLength leading
  if trimmed.isEmpty then none
  else some ⟨String.ofList trimmed, start, start + Text.byteLength trimmed⟩

end Statement

namespace Script

/-- Whether a piece ends the statement before it. -/
def Role.endsStatement : Role → Bool
  | .terminator => true
  | .directive _ => true
  | _ => false

/-- The pieces between those that end a statement. -/
def sections : List Piece → List (List Piece)
  | [] => [[]]
  | p :: ps =>
    match sections ps with
    | [] => [[p]]
    | s :: ss => if p.role.endsStatement then [] :: s :: ss else (p :: s) :: ss

/-- The statement that the pieces between two ends make up: everything from the
first piece with content on. -/
def statement? (pieces : List Piece) : Option Statement :=
  match pieces.dropWhile fun p => p.role != .content with
  | [] => none
  | p :: ps => Statement.ofRegion? p.start ((p :: ps).flatMap Piece.text)

/-- The statements of a script. -/
def statements (s : Separators) (text : String) : List Statement :=
  (sections (pieces s text.toList)).filterMap statement?

/-- The first statement that contains an offset. -/
def statementAt? (statements : List Statement) (offset : Nat) : Option Statement :=
  statements.find? (·.contains offset)

end Script

end MySqlAnalysis
