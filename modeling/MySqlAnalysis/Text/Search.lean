import MySqlAnalysis.Text.Characters

/-!
# Searching, trimming and cutting

Plain list functions on text: the first occurrence of a word, the text without
its surrounding white space, and the pieces between separators.
-/

set_option autoImplicit false

namespace MySqlAnalysis.Text

/-- Number of characters before the first occurrence of `needle`. -/
def find? (needle : List Char) : List Char → Option Nat
  | [] => if needle.isEmpty then some 0 else none
  | c :: cs =>
    if needle.isPrefixOf (c :: cs) then some 0 else (find? needle cs).map (· + 1)

/-- Length of the longest initial run of characters in the class `p`. -/
def runLength (p : Char → Bool) (cs : List Char) : Nat :=
  (cs.takeWhile p).length

/-- The text without leading white space. -/
def trimStart (cs : List Char) : List Char :=
  cs.dropWhile isWhiteSpace

/-- The text without trailing white space. -/
def trimEnd (cs : List Char) : List Char :=
  (cs.reverse.dropWhile isWhiteSpace).reverse

/-- The text without surrounding white space. -/
def trim (cs : List Char) : List Char :=
  trimEnd (trimStart cs)

/-- The pieces between occurrences of `separator`; there is always at least one. -/
def split (separator : Char) : List Char → List (List Char)
  | [] => [[]]
  | c :: cs =>
    match split separator cs with
    | [] => [[c]]
    | piece :: pieces =>
      if c == separator then [] :: piece :: pieces else (c :: piece) :: pieces

/-- Text that is written for some values, one after the other: for each of them there
is a piece with blanks around it, and between two pieces there is `separator`. -/
inductive Separated {α : Type} (separator : Char) (isBlank : Char → Bool)
    (IsPiece : List Char → α → Prop) : List Char → List α → Prop where
  | last {before piece after : List Char} {a : α} (hbefore : before.all isBlank = true)
      (hpiece : IsPiece piece a) (hafter : after.all isBlank = true) :
      Separated separator isBlank IsPiece (before ++ (piece ++ after)) [a]
  | cons {before piece after rest : List Char} {a : α} {values : List α}
      (hbefore : before.all isBlank = true) (hpiece : IsPiece piece a)
      (hafter : after.all isBlank = true)
      (hrest : Separated separator isBlank IsPiece rest values) :
      Separated separator isBlank IsPiece (before ++ (piece ++ (after ++ separator :: rest)))
        (a :: values)

/-- Number of characters in the copies of `word` at the head of a text whose
first `pending` characters belong to a copy already. -/
def repeatLength (word : List Char) : (pending : Nat) → List Char → Nat
  | _, [] => 0
  | pending + 1, _ :: cs => repeatLength word pending cs + 1
  | 0, c :: cs =>
    if word.isPrefixOf (c :: cs) then repeatLength word (word.length - 1) cs + 1 else 0

/-- Strips one pair of equal quotes around the text; nothing is decoded. -/
def unquote (cs : List Char) : List Char :=
  match cs with
  | [] => []
  | c :: rest =>
    if isQuote c && rest.getLast? == some c then rest.dropLast else cs

end MySqlAnalysis.Text
