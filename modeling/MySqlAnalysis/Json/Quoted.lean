import MySqlAnalysis.Json.Notation

/-!
# Reading quoted text

The text between two quotes is read as a list of characters and of 16 bit units
written as escapes. It stands for a text when its surrogate units come in pairs.
-/

set_option autoImplicit false

namespace MySqlAnalysis.Json

open Text

/-- An element of a quoted text. -/
inductive Element where
  | character (c : Char)
  /-- A unit given by four hexadecimal digits. -/
  | unit (value : Nat)
  deriving DecidableEq

/-- Reads a quoted text after its opening quote up to its closing one. Control
characters have to be escaped. -/
def readQuoted : List Char → Option (List Element × List Char)
  | [] => none
  | '\x22' :: rest => some ([], rest)
  | '\x5c' :: 'u' :: a :: b :: c :: d :: rest =>
    if [a, b, c, d].all isHexDigit then
      (readQuoted rest).map fun (elements, rest) =>
        (.unit (hexadecimalValue [a, b, c, d]) :: elements, rest)
    else none
  | '\x5c' :: c :: rest =>
    (escaped? c).bind fun c =>
      (readQuoted rest).map fun (elements, rest) => (.character c :: elements, rest)
  | c :: rest =>
    if c.toNat < 0x20 || c == backslash then none
    else (readQuoted rest).map fun (elements, rest) => (.character c :: elements, rest)

/-- The text that the elements stand for, absent when a surrogate stands alone. -/
def decode : List Element → Option (List Char)
  | [] => some []
  | .character c :: rest => (decode rest).map (c :: ·)
  | .unit leading :: .unit trailing :: rest =>
    if isLeading leading then
      if isTrailing trailing then (decode rest).map (pairCharacter leading trailing :: ·) else none
    else if isTrailing leading then none
    else (decode (.unit trailing :: rest)).map (Char.ofNat leading :: ·)
  | .unit value :: rest =>
    if isLeading value || isTrailing value then none
    else (decode rest).map (Char.ofNat value :: ·)

end MySqlAnalysis.Json
