import FieldQuery.Request.Error
import FieldQuery.Settings.Basic
import FieldQuery.Value.Basic

/-!
# Reading values by type

* `FilterSettings.coerce` — a text as a value of a field's type. Textual fields take the text as
  it is; for the others blanks around it do not count.
-/

namespace FieldQuery

open Text

namespace FilterSettings

/-- A truth value by its tokens, in letters of any ASCII case. -/
def readBool? (s : FilterSettings) (cs : List Char) : Option Bool :=
  if s.trueTokens.any fun t => asciiCaseEq t.toList cs then some true
  else if s.falseTokens.any fun t => asciiCaseEq t.toList cs then some false
  else none

/-- An instant in one pattern; the reserved name stands for RFC 3339. -/
def readInstantAs? (cs : List Char) (pattern : String) : Option Instant :=
  if asciiCaseEq pattern.toList Time.rfc3339Name.toList then Time.readStrict? cs
  else Time.readPattern? pattern.toList cs

/-- An instant in the first pattern that fits. -/
def readInstant? (s : FilterSettings) (cs : List Char) : Option Instant :=
  s.datetimeFormats.findSome? (readInstantAs? cs)

/-- A finite decimal number. -/
def readDecimal? (cs : List Char) : Option Binary64 := (Binary64.read cs).filter (·.isFinite)

/-- A text as a value of a type, if it is one. -/
def coerce? (s : FilterSettings) (t : FieldType) (raw : String)
    (enumValues : Option (List String)) : Option Value :=
  let cs := trim raw.toList
  match t with
  | .string | .text => some (.text raw)
  | .integer => (readInt64 cs).map .int
  | .decimal => (readDecimal? cs).map .decimal
  | .boolean => (s.readBool? cs).map .bool
  | .datetime => (s.readInstant? cs).map .instant
  | .enumeration =>
    let word := String.ofList cs
    if (enumValues.getD []).contains word then some (.text word) else none

/-- What a type expects of a text. -/
def expectation (t : FieldType) (enumValues : Option (List String)) : String :=
  match t with
  | .enumeration => "one of " ++ ", ".intercalate (enumValues.getD [])
  | t => t.name

/-- A text as a value of a field's type. -/
def coerce (s : FilterSettings) (field : String) (t : FieldType) (raw : String)
    (enumValues : Option (List String)) : Except FilterError Value :=
  match s.coerce? t raw enumValues with
  | some v => .ok v
  | none => .error (.malformedValue field raw (expectation t enumValues))

end FilterSettings

end FieldQuery
