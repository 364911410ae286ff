import SpanningMesh.Text.Scan
import SpanningMesh.Yaml.Source

/-!
# Scalars

A scalar is a piece of text.  A plain one stands as it is and ends where a sign of
the notation begins.  A quoted one stands between single or double quotes.  Both
may go over several lines: the gap between two words is then one blank, or as many
breaks as there are empty lines.

Every reader here takes a count of the words that may still come.  Any number beyond
that of the characters left will do.
-/

namespace SpanningMesh

namespace Yaml

/-- A piece of text, and whether it stands without quotes. -/
structure Scalar where
  /-- Whether it stands without quotes. -/
  plain : Bool
  text : List Char
deriving Repr, DecidableEq, Inhabited

/-! ## Gaps -/

/-- The gap between two words. -/
structure Gap where
  /-- The blanks in front of the first break, the last one first. -/
  blanks : List Char := []
  /-- The breaks, the last one first. -/
  breaks : List Char := []
  /-- Whether the first break was escaped, and so is not among them. -/
  escaped : Bool := false
  /-- How many characters of the last line belong to the gap, if there is a break. -/
  column : Nat := 0
  length : Nat := 0
deriving Repr, DecidableEq

namespace Gap

/-- Whether a new line begins in the gap. -/
def endsLine (g : Gap) : Bool := g.escaped || !g.breaks.isEmpty

/-- What stands for a break in a text. -/
def breakAs (c : Char) : Char := if c == '\u2028' || c == '\u2029' then c else '\n'

/-- Add a blank.  Blanks at the front of a line do not count. -/
def addBlank (g : Gap) (c : Char) : Gap :=
  let g := { g with length := g.length + 1 }
  if g.endsLine then { g with column := g.column + 1 } else { g with blanks := c :: g.blanks }

/-- Add a break of one or two characters. -/
def addBreak (g : Gap) (c : Char) (width : Nat) : Gap :=
  { g with breaks := breakAs c :: g.breaks, column := 0, length := g.length + width }

/-- What stands for a gap in a text. -/
def text (g : Gap) : List Char :=
  if g.escaped then g.breaks.reverse
  else
    match g.breaks.reverse with
    | [] => g.blanks.reverse
    | ['\n'] => [' ']
    | '\n' :: more => more
    | all => all

/-- Read the rest of a gap.  A tab in the indentation is refused. -/
def read (indent : Nat) (g : Gap) : List Char → Option (Gap × List Char)
  | '\r' :: '\n' :: cs => read indent (g.addBreak '\n' 2) cs
  | c :: cs =>
      if isBlank c then
        if g.endsLine && g.column < indent && c == '\t' then none
        else read indent (g.addBlank c) cs
      else if isBreak c then read indent (g.addBreak c 1) cs
      else some (g, c :: cs)
  | [] => some (g, [])

end Gap

/-! ## Plain scalars -/

/-- Whether a sign ends a word of a plain scalar inside brackets. -/
def endsInBrackets (c : Char) : Bool := ",[]{}".toList.contains c

/-- Read a word of a plain scalar, its last character first, of which some characters are
done.  Inside brackets a colon in front of a sign is refused. -/
def plainWord (inBrackets : Bool) (done : List Char) : List Char → Option (List Char × List Char)
  | [] => some (done, [])
  | c :: cs =>
      if isPause (c :: cs) || (c == ':' && isPause cs) then some (done, c :: cs)
      else if inBrackets && c == ':' && cs.head?.any fun d => d == '?' || endsInBrackets d then none
      else if inBrackets && endsInBrackets c then some (done, c :: cs)
      else plainWord inBrackets (c :: done) cs

/-- What a plain scalar is. -/
structure PlainResult where
  text : List Char
  /-- Whether a line ended behind it. -/
  endsLine : Bool
  /-- How many characters it has, the gap behind it included. -/
  length : Nat

/-- Read the words of a plain scalar, of which some text is done, the last character first,
and a gap is open. -/
def plainWords (inBrackets : Bool) (indent : Nat) :
    Nat → List Char → Gap → Nat → Nat → List Char → Option PlainResult
  | 0, _, _, _, _, _ => none
  | count + 1, done, gap, length, column, cs =>
      if (column == 0 && isDocumentMarker cs) || cs.head? == some '#' then
        some ⟨done.reverse, gap.endsLine, length⟩
      else do
        let (word, rest) ← plainWord inBrackets [] cs
        if word.isEmpty then return ⟨done.reverse, gap.endsLine, length⟩
        let done := word ++ gap.text.reverse ++ done
        let length := length + word.length
        if rest.isEmpty || !isPause rest then return ⟨done.reverse, false, length⟩
        let (gap, rest) ← Gap.read indent {} rest
        let length := length + gap.length
        let column := if gap.endsLine then gap.column else column + word.length + gap.length
        if !inBrackets && column < indent then return ⟨done.reverse, gap.endsLine, length⟩
        plainWords inBrackets indent count done gap length column rest

/-- Read a plain scalar whose further lines must be indented. -/
def plainScalar (count : Nat) (inBrackets : Bool) (indent column : Nat) (cs : List Char) :
    Option PlainResult :=
  plainWords inBrackets indent count [] {} 0 column cs

/-! ## Quoted scalars -/

/-- The character that a sign behind a backslash stands for. -/
def escape? : Char → Option Char
  | '0' => some '\x00'
  | 'a' => some '\x07'
  | 'b' => some '\x08'
  | 't' | '\t' => some '\t'
  | 'n' => some '\n'
  | 'v' => some '\x0b'
  | 'f' => some '\x0c'
  | 'r' => some '\r'
  | 'e' => some '\x1b'
  | ' ' => some ' '
  | '"' => some '"'
  | '/' => some '/'
  | '\\' => some '\\'
  | 'N' => some '\u0085'
  | '_' => some '\u00a0'
  | 'L' => some '\u2028'
  | 'P' => some '\u2029'
  | _ => none

/-- How many hexadecimal digits an escape has. -/
def escapeWidth? : Char → Option Nat
  | 'x' => some 2
  | 'u' => some 4
  | 'U' => some 8
  | _ => none

/-- The character of a number, if it is that of one. -/
def charOf? (n : Nat) : Option Char := if n.isValidChar then some (Char.ofNat n) else none

/-- Read an escape behind its backslash, and say how many characters it has. -/
def escaped : List Char → Option (Char × Nat × List Char)
  | [] => none
  | e :: cs =>
      match escapeWidth? e with
      | none => (escape? e).map (·, 1, cs)
      | some width => do
          let digits := cs.take width
          if digits.length < width then none
          let c ← charOf? (← Scan.hex? digits)
          return (c, width + 1, cs.drop width)

/-- How a word of a quoted scalar ends. -/
inductive WordEnd where
  | closed
  /-- In front of a blank, a break or the end of the text. -/
  | pause
  | continued
deriving Repr, DecidableEq

/-- Where a word of a quoted scalar ends. -/
structure QuotedWord where
  /-- The text of the scalar so far, the last character first. -/
  done : List Char
  stop : WordEnd
  length : Nat
  rest : List Char

/-- Read a word of a quoted scalar, of which some text is done, the last character first. -/
def quotedWord (double : Bool) : Nat → List Char → Nat → List Char → Option QuotedWord
  | 0, _, _, _ => none
  | count + 1, done, length, cs =>
      match double, cs with
      | false, '\'' :: '\'' :: cs => quotedWord double count ('\'' :: done) (length + 2) cs
      | false, '\'' :: cs => some ⟨done, .closed, length + 1, cs⟩
      | true, '"' :: cs => some ⟨done, .closed, length + 1, cs⟩
      | true, '\\' :: '\r' :: '\n' :: cs => some ⟨done, .continued, length + 3, cs⟩
      | true, '\\' :: cs =>
          if cs.head?.any isBreak then some ⟨done, .continued, length + 2, cs.tail⟩
          else
            match escaped cs with
            | none => none
            | some (c, width, cs) => quotedWord double count (c :: done) (length + 1 + width) cs
      | _, c :: cs =>
          if isBlank c || isBreak c then some ⟨done, .pause, length, c :: cs⟩
          else quotedWord double count (c :: done) (length + 1) cs
      | _, [] => some ⟨done, .pause, length, []⟩

/-- Read the words of a quoted scalar behind its first quote, of which some text is done, the
last character first.  The number is how many characters there are up to the last quote. -/
def quotedWords (double : Bool) :
    Nat → List Char → Nat → Bool → List Char → Option (List Char × Nat)
  | 0, _, _, _, _ => none
  | count + 1, done, length, lineStart, cs =>
      if cs.isEmpty || (lineStart && isDocumentMarker cs) then none
      else do
        let w ← quotedWord double (count + 1) done length cs
        if w.stop = .closed then return (w.done.reverse, w.length)
        if w.stop = .continued && w.rest.head? == some '"' then
          return (w.done.reverse, w.length + 1)
        let (gap, rest) ← Gap.read 0 { escaped := w.stop = .continued } w.rest
        quotedWords double count (gap.text.reverse ++ w.done) (w.length + gap.length)
          (gap.endsLine && gap.column == 0) rest

/-- Read a quoted scalar behind its first quote. -/
def quotedScalar (count : Nat) (double : Bool) (cs : List Char) : Option (List Char × Nat) :=
  quotedWords double count [] 0 false cs

end Yaml

end SpanningMesh
