import MySqlAnalysis.Json.Quoted

/-!
# JSON values

One reader for strict JSON, the one that runs. Numbers are kept as they are written, and members of
objects in their order, repetitions included.
-/

set_option autoImplicit false

namespace MySqlAnalysis.Json

open Text

/-- A JSON value. -/
inductive Value where
  | null
  | boolean (value : Bool)
  | number (digits : List Char)
  | text (elements : List Element)
  | array (items : List Value)
  | object (members : List (List Element × Value))

/-- Skips blanks. -/
def skipSpace (cs : List Char) : List Char :=
  cs.dropWhile isSpace

/-- Skips blanks and then the given character. -/
def skipMark (mark : Char) (cs : List Char) : Option (List Char) :=
  match skipSpace cs with
  | c :: rest => if c == mark then some rest else none
  | [] => none

/-! ## Numbers -/

/-- Length of the whole part of a number, which has no superfluous zero. -/
def wholeLength : List Char → Option Nat
  | '0' :: c :: _ => if c.isDigit then none else some 1
  | '0' :: [] => some 1
  | cs => if runLength Char.isDigit cs == 0 then none else some (runLength Char.isDigit cs)

/-- Length of a run of at least one digit. -/
def digitsLength (cs : List Char) : Option Nat :=
  if runLength Char.isDigit cs == 0 then none else some (runLength Char.isDigit cs)

/-- Length of the decimal places of a number, with the point. -/
def placesLength : List Char → Option Nat
  | '.' :: rest => (digitsLength rest).map (· + 1)
  | _ => some 0

/-- Length of the digits after an optional sign. -/
def signedLength : List Char → Option Nat
  | '+' :: rest => (digitsLength rest).map (· + 1)
  | '-' :: rest => (digitsLength rest).map (· + 1)
  | cs => digitsLength cs

/-- Length of the exponent of a number. -/
def exponentLength : List Char → Option Nat
  | 'e' :: rest => (signedLength rest).map (· + 1)
  | 'E' :: rest => (signedLength rest).map (· + 1)
  | _ => some 0

/-- Length of a number without its sign. -/
def unsignedLength (cs : List Char) : Option Nat :=
  (wholeLength cs).bind fun whole =>
    (placesLength (cs.drop whole)).bind fun places =>
      (exponentLength (cs.drop (whole + places))).map fun exponent => whole + places + exponent

/-- Length of a number. -/
def numberLength : List Char → Option Nat
  | '-' :: rest => (unsignedLength rest).map (· + 1)
  | cs => unsignedLength cs

/-- Reads a number. -/
def readNumber (cs : List Char) : Option (Value × List Char) :=
  (numberLength cs).map fun n => (.number (cs.take n), cs.drop n)

/-- Reads a fixed word that stands for a value. -/
def readWord (word : String) (value : Value) (cs : List Char) : Option (Value × List Char) :=
  if word.toList.isPrefixOf cs then some (value, cs.drop word.length) else none

/-! ## Values -/

mutual

/-- Reads a value after blanks. `fuel` bounds the depth of calls. -/
def readValue : (fuel : Nat) → List Char → Option (Value × List Char)
  | 0, _ => none
  | fuel + 1, cs =>
    match skipSpace cs with
    | '\x22' :: rest => (readQuoted rest).map fun (elements, rest) => (.text elements, rest)
    | '[' :: rest =>
      match skipMark ']' rest with
      | some rest => some (.array [], rest)
      | none => (readItems fuel rest).map fun (items, rest) => (.array items, rest)
    | '\x7b' :: rest =>
      match skipMark '\x7d' rest with
      | some rest => some (.object [], rest)
      | none => (readMembers fuel rest).map fun (members, rest) => (.object members, rest)
    | 'n' :: rest => readWord "null" .null ('n' :: rest)
    | 't' :: rest => readWord "true" (.boolean true) ('t' :: rest)
    | 'f' :: rest => readWord "false" (.boolean false) ('f' :: rest)
    | rest => readNumber rest

/-- Reads the items of an array up to its closing bracket; there is at least one. -/
def readItems : (fuel : Nat) → List Char → Option (List Value × List Char)
  | 0, _ => none
  | fuel + 1, cs =>
    match readValue fuel cs with
    | none => none
    | some (item, rest) =>
      match skipSpace rest with
      | ',' :: rest => (readItems fuel rest).map fun (items, rest) => (item :: items, rest)
      | ']' :: rest => some ([item], rest)
      | _ => none

/-- Reads the members of an object up to its closing brace; there is at least one. -/
def readMembers : (fuel : Nat) → List Char → Option (List (List Element × Value) × List Char)
  | 0, _ => none
  | fuel + 1, cs =>
    match (skipMark '\x22' cs).bind readQuoted with
    | none => none
    | some (key, rest) =>
      match (skipMark ':' rest).bind (readValue fuel) with
      | none => none
      | some (value, rest) =>
        match skipSpace rest with
        | ',' :: rest =>
          (readMembers fuel rest).map fun (members, rest) => ((key, value) :: members, rest)
        | '\x7d' :: rest => some ([(key, value)], rest)
        | _ => none

end

/-- Reads a document: one value with nothing but blanks around it. -/
def read? (document : List Char) : Option Value :=
  match readValue (2 * document.length + 1) document with
  | some (value, rest) => if (skipSpace rest).isEmpty then some value else none
  | none => none

/-- The text that a value stands for. -/
def Value.text? : Value → Option String
  | .text elements => (decode elements).map String.ofList
  | _ => none

/-- The texts of an array of texts. -/
def Value.texts? : Value → Option (List String)
  | .array items => items.mapM Value.text?
  | _ => none

end MySqlAnalysis.Json
