import MySqlAnalysis.Text.Search

/-!
# JSON text

The part of JSON that configurations are written in: texts, arrays of texts, and an
object whose members are such values. For this part the file says which text stands
for which value, with blanks and escapes wherever they may be (`IsDocument`), and how
values are written without them (`encode`, `enclose`).
-/

set_option autoImplicit false

namespace MySqlAnalysis.Json

open Text

/-- The blanks between the parts of a document. -/
def isSpace (c : Char) : Bool :=
  c == ' ' || c == '\n' || c == '\t' || c == '\r'

/-! ### Quoted text -/

/-- The character that a one letter escape stands for. -/
def escaped? : Char → Option Char
  | '\x22' => some '\x22'
  | '\x5c' => some '\x5c'
  | '/' => some '/'
  | 'b' => some '\x08'
  | 'f' => some '\x0c'
  | 'n' => some '\n'
  | 'r' => some '\r'
  | 't' => some '\t'
  | _ => none

/-- Whether a 16 bit unit is the first of a surrogate pair. -/
def isLeading (unit : Nat) : Bool := 0xd800 ≤ unit && unit < 0xdc00

/-- Whether a 16 bit unit is the second of a surrogate pair. -/
def isTrailing (unit : Nat) : Bool := 0xdc00 ≤ unit && unit < 0xe000

/-- The character of a surrogate pair. -/
def pairCharacter (leading trailing : Nat) : Char :=
  Char.ofNat (0x10000 + 0x400 * (leading - 0xd800) + (trailing - 0xdc00))

/-- The four digits of a 16 bit unit, in either case. -/
structure IsUnit (digits : List Char) (value : Nat) : Prop where
  length : digits.length = 4
  digit : digits.all isHexDigit = true
  value : hexadecimalValue digits = value

/-- The characters between two quotes, and the text they stand for. Control characters
have to be escaped, other characters may be, and surrogates come in pairs. -/
inductive Quoted : List Char → List Char → Prop where
  | nil : Quoted [] []
  | character {c : Char} {cs text : List Char} (hcontrol : 0x20 ≤ c.toNat)
      (hquote : c ≠ quotationMark) (hescape : c ≠ backslash) (h : Quoted cs text) :
      Quoted (c :: cs) (c :: text)
  | escape {mark c : Char} {cs text : List Char} (hmark : escaped? mark = some c)
      (h : Quoted cs text) : Quoted (backslash :: mark :: cs) (c :: text)
  | unit {digits cs text : List Char} {value : Nat} (hdigits : IsUnit digits value)
      (hleading : isLeading value = false) (htrailing : isTrailing value = false)
      (h : Quoted cs text) :
      Quoted (backslash :: 'u' :: (digits ++ cs)) (Char.ofNat value :: text)
  | pair {first second cs text : List Char} {leading trailing : Nat}
      (hfirst : IsUnit first leading) (hleading : isLeading leading = true)
      (hsecond : IsUnit second trailing) (htrailing : isTrailing trailing = true)
      (h : Quoted cs text) :
      Quoted (backslash :: 'u' :: (first ++ backslash :: 'u' :: (second ++ cs)))
        (pairCharacter leading trailing :: text)

/-! ### Values -/

/-- The value of a member. -/
inductive Datum where
  | text (text : String)
  | texts (texts : List String)

/-- A text between quotes. -/
inductive IsText : List Char → String → Prop where
  | quoted {cs text : List Char} (h : Quoted cs text) :
      IsText (quotationMark :: (cs ++ [quotationMark])) (String.ofList text)

/-- Values between brackets, with commas between them. -/
inductive Enclosed {α : Type} (opening closing : Char) (IsPiece : List Char → α → Prop) :
    List Char → List α → Prop where
  | empty {blanks : List Char} (h : blanks.all isSpace = true) :
      Enclosed opening closing IsPiece (opening :: (blanks ++ [closing])) []
  | values {cs : List Char} {values : List α} (h : Separated ',' isSpace IsPiece cs values) :
      Enclosed opening closing IsPiece (opening :: (cs ++ [closing])) values

/-- A text, or an array of texts. -/
inductive IsDatum : List Char → Datum → Prop where
  | text {cs : List Char} {text : String} (h : IsText cs text) : IsDatum cs (.text text)
  | texts {cs : List Char} {texts : List String} (h : Enclosed '[' ']' IsText cs texts) :
      IsDatum cs (.texts texts)

/-- A name and its value. -/
inductive IsMember : List Char → String × Datum → Prop where
  | named {cs before after cs' : List Char} {key : String} {value : Datum} (hkey : IsText cs key)
      (hbefore : before.all isSpace = true) (hafter : after.all isSpace = true)
      (hvalue : IsDatum cs' value) :
      IsMember (cs ++ (before ++ ':' :: (after ++ cs'))) (key, value)

/-- An object with nothing but blanks around it. -/
inductive IsDocument : List Char → List (String × Datum) → Prop where
  | object {before cs after : List Char} {members : List (String × Datum)}
      (hbefore : before.all isSpace = true) (h : Enclosed '\x7b' '\x7d' IsMember cs members)
      (hafter : after.all isSpace = true) : IsDocument (before ++ (cs ++ after)) members

/-! ### Writing -/

/-- A hexadecimal digit in lower case. -/
def hexDigit (value : Nat) : Char :=
  if value < 10 then Char.ofNat (0x30 + value) else Char.ofNat (0x57 + value)

/-- The four digits of a unit. -/
def unitDigits (value : Nat) : List Char :=
  [hexDigit (value / 0x1000 % 16), hexDigit (value / 0x100 % 16), hexDigit (value / 0x10 % 16),
    hexDigit (value % 16)]

/-- How a character is written between quotes: escaped only where it has to be, by one
letter if there is one. -/
def encodeCharacter (c : Char) : List Char :=
  match c with
  | '\x22' => [backslash, quotationMark]
  | '\x5c' => [backslash, backslash]
  | '\x08' => [backslash, 'b']
  | '\x0c' => [backslash, 'f']
  | '\n' => [backslash, 'n']
  | '\r' => [backslash, 'r']
  | '\t' => [backslash, 't']
  | c => if c.toNat < 0x20 then backslash :: 'u' :: unitDigits c.toNat else [c]

/-- A text between quotes. -/
def encode (text : String) : List Char :=
  quotationMark :: (text.toList.flatMap encodeCharacter ++ [quotationMark])

/-- A name and its written value. -/
def encodeMember (key : String) (value : List Char) : List Char :=
  encode key ++ ':' :: value

/-- Written values between brackets. -/
def enclose (opening closing : Char) (pieces : List (List Char)) : List Char :=
  opening :: ([','].intercalate pieces ++ [closing])

end MySqlAnalysis.Json
