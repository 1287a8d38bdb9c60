import MySqlAnalysis.Text.Search

/-!
# Server versions

A server version is the number `major * 10000 + minor * 100 + patch`. Versions
from 5.6 on belong to one of three families, each with its own keyword table.
-/

set_option autoImplicit false

namespace MySqlAnalysis

/-- A server series with its own keyword table. -/
inductive Family where
  | v56
  | v57
  | v80
  deriving DecidableEq, Repr

/-- The series as `major.minor`. -/
def Family.name : Family → String
  | .v56 => "5.6"
  | .v57 => "5.7"
  | .v80 => "8.0"

/-- A server version in its numeric form. -/
structure ServerVersion where
  number : Nat
  deriving DecidableEq, Repr

namespace ServerVersion

/-- The version with the given components. -/
def ofParts (major minor patch : Nat) : ServerVersion :=
  ⟨major * 10000 + minor * 100 + patch⟩

/-- First version of the 8.0 series. -/
def v80 : ServerVersion := ⟨80000⟩

/-- First version of the 5.7 series. -/
def v57 : ServerVersion := ⟨50700⟩

/-- First version of the 5.6 series. -/
def v56 : ServerVersion := ⟨50600⟩

/-- The family of a version, absent below 5.6. -/
def family? (v : ServerVersion) : Option Family :=
  if v80.number ≤ v.number then some .v80
  else if v57.number ≤ v.number then some .v57
  else if v56.number ≤ v.number then some .v56
  else none

/-- The family whose grammar is used; versions without a family take the newest. -/
def grammarFamily (v : ServerVersion) : Family :=
  v.family?.getD .v80

/-- Value of a non-empty sequence of decimal digits. -/
def readComponent? (cs : List Char) : Option Nat :=
  if !cs.isEmpty && cs.all Char.isDigit then some (Text.decimalValue cs) else none

/-- The number of a version written `major.minor.patch`, where anything may follow
the digits of the patch. Minor and patch are at most 99 and the number fits 32 bits. -/
def readNumber? (cs : List Char) : Option Nat :=
  let trimmed := Text.trim cs
  let afterMajor := trimmed.dropWhile (· != '.')
  let afterMinor := afterMajor.tail.dropWhile (· != '.')
  if afterMajor.isEmpty || afterMinor.isEmpty then none
  else
    match readComponent? (trimmed.takeWhile (· != '.')),
        readComponent? (afterMajor.tail.takeWhile (· != '.')),
        readComponent? (afterMinor.tail.takeWhile Char.isDigit) with
    | some major, some minor, some patch =>
      let number := (ofParts major minor patch).number
      if minor ≤ 99 && patch ≤ 99 && number < UInt32.size then some number else none
    | _, _, _ => none

/-- Reads a version string. -/
def read? (text : String) : Option ServerVersion :=
  (readNumber? text.toList).map (⟨·⟩)

end ServerVersion

end MySqlAnalysis
