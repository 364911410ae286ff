/-!
# Text with lines and columns

YAML says by lines and columns what belongs together.  A `Source` is the text that
is still to be read and the place where it begins.  A line ends with a line feed, a
carriage return, both together, or one of three separators that lie beyond ASCII.

Columns count characters, but how far two places are apart is counted in bytes.
-/

namespace SpanningMesh

namespace Yaml

/-- Whether a character ends a line. -/
def isBreak (c : Char) : Bool :=
  c == '\n' || c == '\r' || c == '\u0085' || c == '\u2028' || c == '\u2029'

/-- Whether a character is a blank within a line. -/
def isBlank (c : Char) : Bool := c == ' ' || c == '\t'

/-- Whether a text is over, or goes on with a blank or a break. -/
def isPause : List Char → Bool
  | [] => true
  | c :: _ => isBlank c || isBreak c

/-- The mark that may stand at the front of a line and says how text is encoded. -/
def byteOrderMark : Char := '\ufeff'

/-- Whether a character may stand in a document at all. -/
def isAllowed (c : Char) : Bool :=
  let n := c.toNat
  n == 0x09 || n == 0x0A || n == 0x0D || (0x20 ≤ n && n ≤ 0x7E) || n == 0x85
    || (0xA0 ≤ n && n ≤ 0xD7FF) || (0xE000 ≤ n && n ≤ 0xFFFD) || 0x10000 ≤ n

/-- Whether a line begins with three signs that stand alone. -/
def isMarker (sign : Char) : List Char → Bool
  | a :: b :: c :: cs => a == sign && b == sign && c == sign && isPause cs
  | _ => false

/-- Whether a line begins or ends a document. -/
def isDocumentMarker (cs : List Char) : Bool := isMarker '-' cs || isMarker '.' cs

/-- What is left of a text, and where it begins. -/
structure Source where
  rest : List Char
  offset : Nat := 0
  line : Nat := 0
  column : Nat := 0
deriving Repr

namespace Source

/-- Go on behind a character.  A break of two characters is one. -/
def next (s : Source) : Source :=
  match s.rest with
  | [] => s
  | '\r' :: '\n' :: cs => ⟨'\n' :: cs, s.offset + 1, s.line, s.column⟩
  | c :: cs =>
      if isBreak c then ⟨cs, s.offset + c.utf8Size, s.line + 1, 0⟩
      else ⟨cs, s.offset + c.utf8Size, s.line, s.column + 1⟩

/-- Go on behind a number of characters. -/
def skip (s : Source) (count : Nat) : Source := Nat.repeat next count s

/-- Whether a document begins or ends here. -/
def atMarker (s : Source) : Bool := s.column == 0 && isDocumentMarker s.rest

end Source

end Yaml

end SpanningMesh
