import FieldQuery.Json.Written
import FieldQuery.Number.Scaling

/-!
# Reading JSON

The reader goes over the text once, character by character. Its state has two parts: how far it
is inside a token (`Lexer`), and what is still open around it (`Machine`). Every character
either leads to a next state or ends the reading without a result.

* `Machine.feed` — takes one token;
* `Reader.step` — takes one character; `word` says what a word or number that has ended stands for;
* `Written.read` — what a well-formed text writes;
* `Json.read` — the value that a whole text writes, fields in written order;
* `Json.parse` — the same with objects in the order of their keys.

In a value containers nest at most `maxDepth` deep. A number without fraction and exponent that
fits 64 bits is a whole number, `-0` excepted.
-/

namespace FieldQuery

open Text

namespace Json

/-- How deep containers may nest. -/
def maxDepth : Nat := 127

/-- A token; a text, a number and the three words are complete already. -/
inductive Token where
  | openArray
  | closeArray
  | openObject
  | closeObject
  | comma
  | colon
  | scalar (w : Written)

/-- A container that waits for the value inside it. What it holds already stands in reverse. -/
inductive Frame where
  | items (done : List Written)
  | fields (done : List (Option String × Written)) (key : Option String)

/-- Where the reading stands between two tokens. -/
inductive Machine where
  /-- A value must follow. -/
  | value (stack : List Frame)
  /-- An array was opened: an item or the end must follow. -/
  | firstItem (stack : List Frame)
  /-- An object was opened: a key or the end must follow. -/
  | firstKey (stack : List Frame)
  /-- A comma was read in an object: a key must follow. -/
  | key (stack : List Frame) (done : List (Option String × Written))
  /-- A key was read: a colon must follow. -/
  | colon (stack : List Frame) (done : List (Option String × Written)) (key : Option String)
  /-- A value is complete. -/
  | after (stack : List Frame) (w : Written)

/-- Takes the first token of a value. -/
def Machine.startValue (stack : List Frame) : Token → Option Machine
  | .scalar w => some (.after stack w)
  | .openArray => some (.firstItem stack)
  | .openObject => some (.firstKey stack)
  | _ => none

/-- Takes one token. -/
def Machine.feed : Machine → Token → Option Machine
  | .value stack, t => startValue stack t
  | .firstItem stack, .closeArray => some (.after stack (.array []))
  | .firstItem stack, t => startValue (.items [] :: stack) t
  | .firstKey stack, .closeObject => some (.after stack (.object []))
  | .firstKey stack, .scalar (.text k) => some (.colon stack [] k)
  | .key stack done, .scalar (.text k) => some (.colon stack done k)
  | .colon stack done k, .colon => some (.value (.fields done k :: stack))
  | .after (.items done :: stack) w, .comma => some (.value (.items (w :: done) :: stack))
  | .after (.items done :: stack) w, .closeArray =>
    some (.after stack (.array (w :: done).reverse))
  | .after (.fields done k :: stack) w, .comma => some (.key stack ((k, w) :: done))
  | .after (.fields done k :: stack) w, .closeObject =>
    some (.after stack (.object ((k, w) :: done).reverse))
  | _, _ => none

/-- What was written, when nothing is open any more. -/
def Machine.result : Machine → Option Written
  | .after [] w => some w
  | _ => none

/-- The digits before the point: zero alone, or no leading zero. -/
def isWhole (ds : List Char) : Bool :=
  match ds with
  | [] => false
  | ['0'] => true
  | c :: _ => c != '0'

/-- A number without its sign. What does not fit a word is rounded twice, see `ofDigits`. -/
def readMagnitude (negative : Bool) (cs : List Char) : Option Written :=
  let whole := cs.takeWhile isDigit
  let rest := cs.dropWhile isDigit
  let (n, left) := Binary64.keepDigits 0 whole
  if !isWhole whole then none
  else match rest with
    | [] =>
      if 0 < left then some (.float (Binary64.ofDigits negative n left))
      else if !negative then some (.int n)
      else if 0 < n ∧ minInt ≤ -(n : Int) then some (.int (-(n : Int)))
      else some (.float (Binary64.ofDigits true n 0))
    | '.' :: r =>
      let fraction := r.takeWhile isDigit
      let (n, unread) := Binary64.keepDigits n fraction
      if fraction = [] then none
      else (Binary64.readExponent (r.dropWhile isDigit)).map fun e =>
        .float (Binary64.ofDigits negative n (e + left - (fraction.length - unread : Nat)))
    | r => (Binary64.readExponent r).map fun e => .float (Binary64.ofDigits negative n (e + left))

/-- A number. -/
def readNumber : List Char → Option Written
  | '-' :: cs => readMagnitude true cs
  | cs => readMagnitude false cs

/-- One of the three words, or a number. -/
def readWord (cs : List Char) : Option Written :=
  if cs = ['n', 'u', 'l', 'l'] then some .null
  else if cs = ['t', 'r', 'u', 'e'] then some (.bool true)
  else if cs = ['f', 'a', 'l', 's', 'e'] then some (.bool false)
  else readNumber cs

/-- The characters of a quoted text, whose escapes may write halves of pairs: a first half must
stand right before a second half, and the two are one character. -/
def joinHalves : List Nat → Option (List Char)
  | [] => some []
  | n :: rest =>
    if 0xD800 ≤ n ∧ n < 0xDC00 then
      match rest with
      | m :: rest =>
        if 0xDC00 ≤ m ∧ m < 0xE000 then
          (joinHalves rest).map
            (Char.ofNat (0x10000 + (n - 0xD800) * 1024 + (m - 0xDC00)) :: ·)
        else none
      | [] => none
    else if 0xDC00 ≤ n ∧ n < 0xE000 then none
    else (joinHalves rest).map (Char.ofNat n :: ·)

theorem joinHalves_map_toNat (cs : List Char) : joinHalves (cs.map Char.toNat) = some cs := by
  induction cs with
  | nil => rfl
  | cons c cs ih =>
    have valid : c.toNat < 0xD800 ∨ 0xDFFF < c.toNat ∧ c.toNat < 0x110000 := c.valid
    have first : ¬(0xD800 ≤ c.toNat ∧ c.toNat < 0xDC00) := by omega
    have second : ¬(0xDC00 ≤ c.toNat ∧ c.toNat < 0xE000) := by omega
    rw [List.map_cons]
    unfold joinHalves
    rw [if_neg first, if_neg second, ih]
    simp

/-- A quoted text, from its numbers in reverse. -/
def quotedText (done : List Nat) : Written :=
  .text ((joinHalves done.reverse).map String.ofList)

/-- How far the reading is inside a token; what was read of it stands in reverse. -/
inductive Lexer where
  | between
  /-- Inside a word or number. -/
  | word (done : List Char)
  /-- Inside a quoted text: its characters and halves of pairs, as numbers. -/
  | quoted (done : List Nat)
  /-- After a backslash. -/
  | escape (done : List Nat)
  /-- Inside the four digits after `\u`. -/
  | unicode (done : List Nat) (seen : Nat) (n : Nat)

/-- The state of the reader. -/
structure Reader where
  lexer : Lexer
  machine : Machine

/-- The blanks between tokens. -/
def isSpace (c : Char) : Bool := c == ' ' || c == '\n' || c == '\t' || c == '\r'

/-- The token that a punctuation mark is. -/
def mark? (c : Char) : Option Token :=
  if c = '[' then some .openArray
  else if c = ']' then some .closeArray
  else if c = '{' then some .openObject
  else if c = '}' then some .closeObject
  else if c = ',' then some .comma
  else if c = ':' then some .colon
  else none

/-- Takes a character between two tokens. -/
def Reader.start (m : Machine) (c : Char) : Option Reader :=
  if isSpace c then some ⟨.between, m⟩
  else if c = '"' then some ⟨.quoted [], m⟩
  else match mark? c with
    | some t => (m.feed t).map fun m => ⟨.between, m⟩
    | none => some ⟨.word [c], m⟩

/-- Whether a character ends a word. -/
def endsWord (c : Char) : Bool := isSpace c || c == '"' || (mark? c).isSome

/-- What a character after a backslash stands for. -/
def escaped? (c : Char) : Option Char :=
  if c = '"' ∨ c = '\\' ∨ c = '/' then some c
  else if c = 'b' then some (Char.ofNat 8)
  else if c = 'f' then some (Char.ofNat 12)
  else if c = 'n' then some '\n'
  else if c = 'r' then some '\r'
  else if c = 't' then some '\t'
  else none

/-- What a hexadecimal digit stands for. -/
def hexValue (c : Char) : Option Nat :=
  if '0' ≤ c ∧ c ≤ '9' then some (c.toNat - 48)
  else if 'A' ≤ c ∧ c ≤ 'F' then some (c.toNat - 55)
  else if 'a' ≤ c ∧ c ≤ 'f' then some (c.toNat - 87)
  else none

section Run

variable (word : List Char → Option Written)

/-- Takes one character. -/
def Reader.step (r : Reader) (c : Char) : Option Reader :=
  match r.lexer with
  | .between => start r.machine c
  | .word done =>
    if endsWord c then
      (word done.reverse).bind fun w =>
        (r.machine.feed (.scalar w)).bind fun m => start m c
    else some ⟨.word (c :: done), r.machine⟩
  | .quoted done =>
    if c = '"' then
      (r.machine.feed (.scalar (quotedText done))).map fun m => ⟨.between, m⟩
    else if c = '\\' then some ⟨.escape done, r.machine⟩
    else if c.toNat < 0x20 then none
    else some ⟨.quoted (c.toNat :: done), r.machine⟩
  | .escape done =>
    if c = 'u' then some ⟨.unicode done 0 0, r.machine⟩
    else (escaped? c).map fun e => ⟨.quoted (e.toNat :: done), r.machine⟩
  | .unicode done seen n =>
    (hexValue c).map fun d =>
      if seen < 3 then ⟨.unicode done (seen + 1) (16 * n + d), r.machine⟩
      else ⟨.quoted ((16 * n + d) :: done), r.machine⟩

/-- Takes a text. -/
def Reader.run (r : Reader) : List Char → Option Reader
  | [] => some r
  | c :: cs =>
    match r.step word c with
    | some r => r.run cs
    | none => none

/-- What was written, when the text is at its end. -/
def Reader.result (r : Reader) : Option Written :=
  match r.lexer with
  | .between => r.machine.result
  | .word done =>
    (word done.reverse).bind fun w => (r.machine.feed (.scalar w)).bind Machine.result
  | _ => none

/-- The state before the first character. -/
def Reader.initial : Reader := ⟨.between, .value []⟩

/-- What a well-formed text writes, by what is made of the words and numbers in it. -/
def Written.readBy (text : String) : Option Written :=
  (Reader.initial.run word text.toList).bind (Reader.result word)

end Run

/-- What a well-formed text writes. -/
def Written.read (text : String) : Option Written := Written.readBy readWord text

/-- The value that a text writes, fields in written order. -/
def read (text : String) : Option Json := (Written.read text).bind (·.value? maxDepth)

/-- The value that a text writes, objects in the order of their keys. -/
def parse (text : String) : Option Json := (read text).map normal

theorem Reader.run_append (word : List Char → Option Written) (r : Reader) (cs ds : List Char) :
    r.run word (cs ++ ds) = (r.run word cs).bind fun r => r.run word ds := by
  induction cs generalizing r with
  | nil => rfl
  | cons c cs ih =>
    simp only [List.cons_append, run]
    cases r.step word c with
    | none => rfl
    | some r' => exact ih r'

end Json

end FieldQuery
