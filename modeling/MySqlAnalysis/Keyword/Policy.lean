import MySqlAnalysis.Keyword.Vocabulary

/-!
# Keyword policy

Which words count as keywords for a server whose family may be unknown. An
unknown family has no keywords at all.
-/

set_option autoImplicit false

namespace MySqlAnalysis.Keyword

/-- The keywords of a family as written in SQL, in alphabetical order. -/
def wordsOf (f : Family) : List String :=
  ((all.filter (·.isAvailable f)).map word).mergeSort fun a b => decide (a ≤ b)

/-- The reserved words of a family, in alphabetical order. -/
def reservedWordsOf (f : Family) : List String :=
  (wordsOf f).filter fun w => (ofWord? w).any (·.isReserved f)

/-- The keywords of a family that may be unknown. -/
def words (f : Option Family) : List String :=
  (f.map wordsOf).getD []

/-- The reserved words of a family that may be unknown. -/
def reservedWords (f : Option Family) : List String :=
  (f.map reservedWordsOf).getD []

/-- Whether a word is a keyword of the family, in any case. -/
def isKeyword (text : String) (f : Option Family) : Bool :=
  match f, ofWord? text with
  | some f, some k => k.isAvailable f
  | _, _ => false

/-- Whether a word is reserved in the family, in any case. -/
def isReservedWord (text : String) (f : Option Family) : Bool :=
  match f, ofWord? text with
  | some f, some k => k.isReserved f
  | _, _ => false

end MySqlAnalysis.Keyword
