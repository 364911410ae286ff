import SpanningMesh.Text.Scan

/-!
# The notation of JSON

The pieces of JSON that a reader of one fixed shape of value needs: blanks,
string literals, numbers, the members of an object and the elements of an array,
and a way to pass over a value that it does not know.

An escape can spell half of a surrogate pair.  Such a literal is good notation
and is passed over where it does not matter, but it is no text.  `Json.literal`
therefore gives an optional text.

Lists are read with a count of the items that may still come, and a value that
is passed over with a count of the levels.  The length of the whole text is more
than either can be.
-/

namespace SpanningMesh

namespace Json

/-! ## Blanks and string literals -/

/-- The four blanks of JSON. -/
def isBlank (c : Char) : Bool := c == ' ' || c == '\t' || c == '\n' || c == '\r'

/-- Skip the blanks between tokens. -/
def blanks : Scan Unit := Scan.skip isBlank

/-- A part of a string literal: a character, or half of a surrogate pair. -/
inductive Piece where
  /-- A character, plain or escaped. -/
  | char (c : Char)
  | surrogate (unit : Nat)
deriving Repr, DecidableEq

/-- What a number in an escape spells. -/
def Piece.ofUnit (unit : Nat) : Piece :=
  if 0xD800 ≤ unit ∧ unit < 0xE000 then .surrogate unit else .char (Char.ofNat unit)

/-- The character that a letter behind a backslash stands for. -/
def escape? : Char → Option Char
  | '"' => some '"'
  | '\\' => some '\\'
  | '/' => some '/'
  | 'b' => some '\x08'
  | 'f' => some '\x0c'
  | 'n' => some '\n'
  | 'r' => some '\r'
  | 't' => some '\t'
  | _ => none

/-- The pieces of a literal up to its closing quote, and what follows. -/
def pieces : List Char → Option (List Piece × List Char)
  | [] => none
  | '"' :: rest => some ([], rest)
  | '\\' :: 'u' :: a :: b :: c :: d :: rest => do
      let unit ← Scan.hex? [a, b, c, d]
      let (ps, rest) ← pieces rest
      return (.ofUnit unit :: ps, rest)
  | '\\' :: e :: rest => do
      let c ← escape? e
      let (ps, rest) ← pieces rest
      return (.char c :: ps, rest)
  | c :: rest =>
      if c.toNat < 0x20 || c == '\\' then none
      else do
        let (ps, rest) ← pieces rest
        return (.char c :: ps, rest)

/-- The text of some pieces, if every half of a surrogate pair has its other half. -/
def spell? : List Piece → Option (List Char)
  | [] => some []
  | .char c :: ps => (spell? ps).map (c :: ·)
  | .surrogate high :: .surrogate low :: ps =>
      if high < 0xDC00 ∧ 0xDC00 ≤ low then
        (spell? ps).map (Char.ofNat (0x10000 + (high - 0xD800) * 0x400 + (low - 0xDC00)) :: ·)
      else none
  | .surrogate _ :: _ => none

/-- A string literal, and its text if it is one. -/
def literal : Scan (Option (List Char)) := do
  Scan.char '"'
  let ps ← (pieces : Scan (List Piece))
  return spell? ps

/-! ## Numbers -/

/-- The digits in front of a number: no sign, and no zero before another digit. -/
def digits : Scan (List Char) := do
  let ds ← Scan.run Char.isDigit
  match ds with
  | [] => failure
  | '0' :: _ :: _ => failure
  | _ => return ds

/-- The fraction and the exponent of a number, whether there is either. -/
def fraction : Scan Bool := do
  let cs ← Scan.rest
  let point ← match cs with
    | '.' :: cs => do
        set cs
        if (← Scan.run Char.isDigit).isEmpty then failure else pure true
    | _ => pure false
  let cs ← Scan.rest
  match cs with
  | e :: cs =>
      if e == 'e' || e == 'E' then
        match cs with
        | '+' :: cs | '-' :: cs => set cs
        | cs => set cs
        if (← Scan.run Char.isDigit).isEmpty then failure else return true
      else return point
  | [] => return point

/-- A number, if it is written as a natural number. -/
def number : Scan (Option Nat) := do
  if (← Scan.peek) == '-' then
    let _ ← Scan.next
    let _ ← digits
    let _ ← fraction
    return none
  else
    let ds ← digits
    if ← fraction then return none else return some (Scan.decimal ds)

/-! ## Lists and values that are passed over -/

variable {σ : Type}

/-- Items with commas between them and a bracket behind the last. -/
def separated (close : Char) (item : σ → Scan σ) : (count : Nat) → σ → Scan σ
  | 0, _ => failure
  | count + 1, s => do
      let s ← item s
      blanks
      let c ← Scan.next
      if c = ',' then separated close item count s
      else if c = close then return s
      else failure

/-- A list of so many items at the most behind its opening bracket, up to its closing one. -/
def list (close : Char) (item : σ → Scan σ) (count : Nat) (s : σ) : Scan σ := do
  blanks
  if (← Scan.peek) = close then
    let _ ← Scan.next
    return s
  else separated close item count s

/-- A member of an object: its key, and then its value as the key demands. -/
def member (value : Option (List Char) → σ → Scan σ) (s : σ) : Scan σ := do
  blanks
  let key ← literal
  blanks
  Scan.char ':'
  value key s

/-- Pass over a value with so many levels at the most, and so many items of the lists on the
outermost. -/
def skip : (levels : Nat) → Scan Unit
  | 0 => failure
  | levels + 1 => do
      blanks
      let c ← Scan.peek
      if c = '"' then
        let _ ← literal
      else if c = '[' then
        Scan.char '['
        list ']' (fun _ => skip levels) levels ()
      else if c = '\x7b' then
        Scan.char '\x7b'
        list '\x7d' (member fun _ _ => skip levels) levels ()
      else if c = 't' then Scan.word ['t', 'r', 'u', 'e']
      else if c = 'f' then Scan.word ['f', 'a', 'l', 's', 'e']
      else if c = 'n' then Scan.word ['n', 'u', 'l', 'l']
      else
        let _ ← number

/-! ## Values of one type -/

/-- A truth value. -/
def bool : Scan Bool := do
  blanks
  if (← Scan.peek) = 't' then
    Scan.word ['t', 'r', 'u', 'e']
    return true
  else
    Scan.word ['f', 'a', 'l', 's', 'e']
    return false

/-- A natural number below a bound. -/
def natBelow (bound : Nat) : Scan Nat := do
  blanks
  match ← number with
  | some n => if n < bound then return n else failure
  | none => failure

end Json

end SpanningMesh
