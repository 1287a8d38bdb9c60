import MySqlAnalysis.Config.Serialization
import MySqlAnalysis.Json.Value

/-!
# Configurations as JSON

The serialization that runs. A configuration is an object with members for its three
settings, or an array with the settings in order. What is missing takes its standard
value; unknown members are ignored, and a setting that is given twice is refused.
-/

set_option autoImplicit false

namespace MySqlAnalysis

/-! ### Modes -/

namespace SqlMode

/-- The bar separated form. -/
def render (m : SqlMode) : String :=
  " | ".intercalate m.parts

/-- Reads hexadecimal digits after an optional plus sign, at most 32 bits wide. -/
def readHex? (cs : List Char) : Option UInt32 :=
  let digits := if cs.head? == some '+' then cs.tail else cs
  let value := Text.hexadecimalValue digits
  if !digits.isEmpty && digits.all Text.isHexDigit && value < UInt32.size then
    some (UInt32.ofNat value)
  else none

/-- Reads one part of the bar separated form: a flag name, or `0x` and bits. -/
def readPart? (cs : List Char) : Option SqlMode :=
  match cs with
  | '0' :: 'x' :: digits => (readHex? digits).map (⟨·⟩)
  | _ => (Flag.ofName? (String.ofList cs)).map ofFlag

/-- Reads the bar separated form. Blank text is no mode; a blank part is refused. -/
def read? (text : String) : Option SqlMode :=
  if (Text.trim text.toList).isEmpty then some empty
  else
    (Text.split '|' text.toList).foldl
      (fun m piece => m.bind fun m => (readPart? (Text.trim piece)).map m.union)
      (some empty)

end SqlMode

/-! ### Configurations -/

namespace Config

open Json

/-- The setting given by at most one value. -/
def setting {α : Type} (read : Value → Option α) (fallback : α) : List Value → Option α
  | [] => some fallback
  | [value] => read value
  | _ => none

/-- The mode that a value stands for. -/
def mode? (value : Value) : Option SqlMode :=
  value.text?.bind SqlMode.read?

/-- The configuration with the given values for its settings. -/
def ofSettings (version mode charsets : List Value) : Option Config :=
  match setting Value.text? standard.version version, setting mode? standard.mode mode,
      setting Value.texts? standard.charsets charsets with
  | some version, some mode, some charsets => some ⟨version, mode, charsets⟩
  | _, _, _ => none

/-- The values of the members with the given key. -/
def valuesOf (key : String) (members : List (String × Value)) : List Value :=
  (members.filter (·.1 == key)).map (·.2)

/-- The members of an object with their keys decoded. -/
def decodeKeys (members : List (List Element × Value)) : Option (List (String × Value)) :=
  members.mapM fun member => (decode member.1).map fun key => (String.ofList key, member.2)

/-- The configuration that a value stands for. -/
def ofValue? : Value → Option Config
  | .object members =>
    (decodeKeys members).bind fun members =>
      ofSettings (valuesOf "version" members) (valuesOf "mode" members)
        (valuesOf "charsets" members)
  | .array items =>
    if items.length ≤ 3 then
      ofSettings (items.take 1) ((items.drop 1).take 1) (items.drop 2)
    else none
  | _ => none

/-- Writes a configuration. -/
def toJson (c : Config) : String :=
  String.ofList (c.written c.mode.render)

/-- The serialization that runs. -/
def strict : Serialization where
  write c := .ok c.toJson
  read document :=
    ((Json.read? document.toList).bind ofValue?).elim (.error "the document is no configuration")
      .ok
  modeText := SqlMode.render
  mode? := SqlMode.read?

/-- Reads a configuration. -/
def ofJson? (document : String) : Option Config :=
  (fromJson strict document).toOption

end Config

end MySqlAnalysis
