import MySqlAnalysis.Config.Basic
import MySqlAnalysis.Json.Notation

/-!
# Configurations and their documents

The reading and writing of configurations is not part of this library: it comes from a
JSON library and from one for sets of flags. Here these are parameters
(`Serialization`), and what their documentation says about configurations is stated as
a property of them (`Serialization.Documented`).
-/

set_option autoImplicit false

namespace MySqlAnalysis

open Json

/-- The foreign functions that turn configurations into documents and back. -/
structure Serialization where
  /-- The document for a configuration. -/
  write : Config → Except String String
  /-- The configuration in a document, or why there is none. -/
  read : String → Except String Config
  /-- The text for a set of modes. -/
  modeText : SqlMode → String
  /-- The set of modes for a text. -/
  mode? : String → Option SqlMode

namespace Config

/-- The written form: an object with the settings in order and without blanks. -/
def written (c : Config) (modeText : String) : List Char :=
  enclose '\x7b' '\x7d'
    [encodeMember "version" (encode c.version), encodeMember "mode" (encode modeText),
      encodeMember "charsets" (enclose '[' ']' (c.charsets.map encode))]

/-- The settings are those of the members with their names. A setting without a member
is the standard one, and members with other names do not count. -/
structure FilledFrom (c : Config) (mode? : String → Option SqlMode)
    (members : List (String × Datum)) : Prop where
  version : (members.lookup "version").elim (c.version = standard.version) fun value =>
    value = .text c.version
  mode : (members.lookup "mode").elim (c.mode = standard.mode) fun value =>
    ∃ text, value = .text text ∧ mode? text = some c.mode
  charsets : (members.lookup "charsets").elim (c.charsets = standard.charsets) fun value =>
    value = .texts c.charsets

end Config

/-- What is documented of the foreign functions, as far as configurations need it. -/
structure Serialization.Documented (S : Serialization) : Prop where
  /-- Modes are written as the names of the flags that are set, lowest bit first, and
  behind them the other bits as one number, with bars between; no modes as no text. -/
  modeText_eq : ∀ m, S.modeText m = " | ".intercalate m.parts
  /-- Modes are read from the parts between bars, whatever their order. -/
  mode?_of_isBarForm : ∀ {text : String} {m : SqlMode}, SqlMode.IsBarForm text.toList m →
    S.mode? text = some m
  /-- A configuration is written as an object with one member for each setting, in order;
  the modes are given as their text. -/
  write_eq : ∀ c : Config, S.write c = .ok (String.ofList (c.written (S.modeText c.mode)))
  /-- A configuration is read from an object in which no name is repeated. -/
  read_of_isDocument : ∀ {document : String} {members : List (String × Datum)} {c : Config},
    IsDocument document.toList members → (members.map Prod.fst).Nodup →
      c.FilledFrom S.mode? members → S.read document = .ok c

namespace Config

/-- Why a configuration was not loaded. -/
inductive Error where
  /-- The document is no JSON text, or none of a configuration; with the reason. -/
  | json (reason : String)
  deriving DecidableEq

/-- The text for an error. -/
def Error.message : Error → String
  | json reason => "invalid parser configuration: " ++ reason

/-- Loads a configuration from a document. -/
def fromJson (S : Serialization) (document : String) : Except Error Config :=
  (S.read document).mapError .json

end Config

end MySqlAnalysis
