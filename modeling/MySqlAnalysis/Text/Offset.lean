/-!
# Offsets and positions

Offsets count the bytes of the text in UTF-8; a position adds the line, counted
from 1, and the column, counted in characters from 0. Only a line feed starts a
new line.
-/

set_option autoImplicit false

namespace MySqlAnalysis.Text

/-- Number of bytes of a text in UTF-8. -/
def byteLength (cs : List Char) : Nat :=
  cs.foldr (fun c rest => c.utf8Size + rest) 0

/-- The text after its first `n` bytes, when they end between two characters. -/
def dropBytes : Nat → List Char → Option (List Char)
  | 0, cs => some cs
  | _ + 1, [] => none
  | n + 1, c :: cs =>
    if c.utf8Size ≤ n + 1 then dropBytes (n + 1 - c.utf8Size) cs else none

/-- The first `n` bytes of a text, when they end between two characters. -/
def takeBytes : Nat → List Char → Option (List Char)
  | 0, _ => some []
  | _ + 1, [] => none
  | n + 1, c :: cs =>
    if c.utf8Size ≤ n + 1 then (takeBytes (n + 1 - c.utf8Size) cs).map (c :: ·) else none

/-- The bytes from `start` up to, but excluding, `stop`, when both lie between characters. -/
def slice? (cs : List Char) (start stop : Nat) : Option (List Char) :=
  if start ≤ stop then (dropBytes start cs).bind (takeBytes (stop - start)) else none

/-- A place in a text. -/
structure Position where
  offset : Nat
  line : Nat
  column : Nat
  deriving DecidableEq, Repr

namespace Position

/-- The place before the first character. -/
def start : Position := ⟨0, 1, 0⟩

/-- The place after the character `c`. -/
def next (p : Position) (c : Char) : Position :=
  if c == '\n' then ⟨p.offset + c.utf8Size, p.line + 1, 0⟩
  else ⟨p.offset + c.utf8Size, p.line, p.column + 1⟩

/-- The place after the characters `cs`. -/
def after (p : Position) (cs : List Char) : Position :=
  cs.foldl next p

end Position

end MySqlAnalysis.Text
