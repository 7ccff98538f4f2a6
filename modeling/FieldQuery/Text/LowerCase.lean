import FieldQuery.Text.CaseTable

/-!
# Lower case

`lower` maps every character to its lower case. Two characters need more than a table: U+0130
becomes an `i` with a dot above it, and a capital sigma becomes the final form at the end of a
word, that is, when a cased letter comes before it and none after it, case-ignorable characters
between them not counted.
-/

namespace FieldQuery.Text

/-- The simple lower case of one character. -/
def lowerChar (c : Char) : Char :=
  if c.toNat < 128 then (if 'A' ≤ c ∧ c ≤ 'Z' then Char.ofNat (c.toNat + 32) else c)
  else match lowerRuns.find? (·.covers c.toNat) with
    | some run => Char.ofNat (c.toNat + run.shift).toNat
    | none => c

/-- Whether a character has lower, upper or title case. -/
def isCased (c : Char) : Bool := inRanges casedRanges c.toNat

/-- Whether a character is passed over when the letters around a sigma are looked for. -/
def isCaseIgnorable (c : Char) : Bool := inRanges caseIgnorableRanges c.toNat

/-- Whether the first character that counts is a cased one. -/
def startsCased (cs : List Char) : Bool :=
  match cs.dropWhile isCaseIgnorable with
  | [] => false
  | c :: _ => isCased c

/-- The capital sigma. -/
def capitalSigma : Char := Char.ofNat 0x3A3

/-- The sigma at the end of a word. -/
def finalSigma : Char := Char.ofNat 0x3C2

/-- The sigma inside a word. -/
def smallSigma : Char := Char.ofNat 0x3C3

/-- The capital I with a dot above. -/
def dottedCapitalI : Char := Char.ofNat 0x130

/-- The lower case of `c` between the text `before`, nearest character first, and `after`. -/
def lowerBetween (before : List Char) (c : Char) (after : List Char) : List Char :=
  if c = capitalSigma then
    [if startsCased before && !startsCased after then finalSigma else smallSigma]
  else if c = dottedCapitalI then ['i', Char.ofNat 0x307]
  else [lowerChar c]

/-- Lower case of the text `cs` that follows `before` (nearest character first). -/
def lowerAfter (before : List Char) : List Char → List Char
  | [] => []
  | c :: cs => lowerBetween before c cs ++ lowerAfter (c :: before) cs

/-- The lower case of a text. -/
def lower (cs : List Char) : List Char := lowerAfter [] cs

/-- The lower case of a string. -/
def lowered (s : String) : String := String.ofList (lower s.toList)

/-- Lower case of the letters A to Z alone. -/
def asciiLowerChar (c : Char) : Char :=
  if 'A' ≤ c ∧ c ≤ 'Z' then Char.ofNat (c.toNat + 32) else c

/-- A string with the letters A to Z lowered and all else kept. -/
def asciiLowered (s : String) : String := String.ofList (s.toList.map asciiLowerChar)

/-- Equality up to the case of the letters A to Z. -/
def asciiCaseEq (s t : List Char) : Bool := s.map asciiLowerChar == t.map asciiLowerChar

end FieldQuery.Text
