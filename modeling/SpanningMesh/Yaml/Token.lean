import SpanningMesh.Yaml.Scalar

/-!
# Tokens

A document becomes a list of tokens in which the indentation is spelled out: a block
of items or of keys begins and ends with a token of its own.

That something is a key shows only when the colon behind it comes.  So the tokens
are never changed.  What belongs in front of an earlier one is kept aside with the
number of that token, and put in its place at the end.  A key must be in one line
with its colon, and not longer than `maxKeyLength`.

Outside of all brackets a key or an item may begin only at the front of a line or
behind another sign of a block.  Where a line of a block of keys begins there must be
a key.
-/

namespace SpanningMesh

namespace Yaml

/-- A piece of a document. -/
inductive Token where
  | itemsBegin
  | keysBegin
  | blockEnd
  | listOpen
  | listClose
  | mapOpen
  | mapClose
  | item
  | comma
  | key
  | value
  | scalar (s : Scalar)
  | documentBegin
  | documentEnd
deriving Repr, DecidableEq, Inhabited

/-- Something that turns out to be a key if a colon follows. -/
structure Candidate where
  token : Nat
  required : Bool
  start : Source

/-- How many bytes a key may have. -/
def maxKeyLength : Nat := 1024

/-- What is known in the middle of a document. -/
structure Tokenizer where
  source : Source
  /-- The tokens so far, the last one first. -/
  tokens : List Token := []
  count : Nat := 0
  /-- Tokens that belong in front of earlier ones, with the numbers of those. -/
  inserted : List (Nat × List Token) := []
  /-- The column of the innermost block, if there is one. -/
  indent : Option Nat := none
  outer : List (Option Nat) := []
  keyAllowed : Bool := true
  candidate : Option Candidate := none
  /-- What may be a key inside of each open bracket, the innermost first. -/
  brackets : List (Option Candidate) := []

/-- A step through a document. -/
abbrev Tokenize := StateT Tokenizer Option

namespace Tokenize

/-- Whether some bracket is open. -/
def inBrackets : Tokenize Bool := do return !(← get).brackets.isEmpty

/-- Where the tokens have come to in the text. -/
def source : Tokenize Source := do return (← get).source

/-- Whether a block begins to the left of a column. -/
def leftOf (indent : Option Nat) (column : Nat) : Bool := indent.all (· < column)

/-- Add a token behind the others. -/
def emit (t : Token) : Tokenize Unit :=
  modify fun s => { s with tokens := t :: s.tokens, count := s.count + 1 }

/-- Put tokens in front of an earlier one. -/
def insert (number : Nat) (ts : List Token) : Tokenize Unit :=
  modify fun s => { s with inserted := (number, ts) :: s.inserted }

/-- Go on behind a number of characters. -/
def skip (count : Nat) : Tokenize Unit := modify fun s => { s with source := s.source.skip count }

/-- Say whether a key may begin here. -/
def allowKey (allowed : Bool) : Tokenize Unit := modify fun s => { s with keyAllowed := allowed }

/-! ## Candidates for keys -/

/-- What may be a key here. -/
def candidate? : Tokenize (Option Candidate) := do
  let s ← get
  return match s.brackets with
    | [] => s.candidate
    | c :: _ => c

/-- Say what may be a key here. -/
def setCandidate (c : Option Candidate) : Tokenize Unit :=
  modify fun s =>
    match s.brackets with
    | [] => { s with candidate := c }
    | _ :: outer => { s with brackets := c :: outer }

/-- Give up the candidate.  One that must be a key is refused. -/
def dropCandidate : Tokenize Unit := do
  if (← candidate?).any Candidate.required then failure
  setCandidate none

/-- The candidate, if it can still be a key where the text goes on. -/
def freshCandidate? : Tokenize (Option Candidate) := do
  let here ← source
  match ← candidate? with
  | none => return none
  | some c =>
      if c.start.line < here.line || c.start.offset + maxKeyLength < here.offset then
        dropCandidate
        return none
      else return some c

/-- Note that what comes next may be a key, if a key may begin. -/
def noteCandidate : Tokenize Unit := do
  let s ← get
  if s.keyAllowed then
    dropCandidate
    let required := s.brackets.isEmpty && s.indent == some s.source.column
    setCandidate (some ⟨s.count, required, s.source⟩)

/-! ## Blocks -/

/-- Begin a block at a column, unless it is there or brackets are open.  The answer says
whether a block began. -/
def beginBlock (column : Nat) : Tokenize Bool := do
  let s ← get
  if s.brackets.isEmpty && leftOf s.indent column then
    set { s with indent := some column, outer := s.indent :: s.outer }
    return true
  else return false

/-- The blocks that go on at a column, and how many do not. -/
def blocksAt (column : Option Nat) (indent : Option Nat) :
    List (Option Nat) → Option Nat × List (Option Nat) × Nat
  | [] => (indent, [], 0)
  | o :: outer =>
      if indent.any fun i => column.all (· < i) then
        let (indent, outer, count) := blocksAt column o outer
        (indent, outer, count + 1)
      else (indent, o :: outer, 0)

/-- End the blocks to the right of a column, or all blocks. -/
def endBlocks (column : Option Nat) : Tokenize Unit := do
  let s ← get
  if s.brackets.isEmpty then
    let (indent, outer, count) := blocksAt column s.indent s.outer
    set { s with
      indent, outer
      tokens := List.replicate count Token.blockEnd ++ s.tokens
      count := s.count + count }

/-! ## Tokens -/

/-- Skip blanks, comments and breaks up to the next token.  A tab is a blank only where no
key may begin.  A byte order mark at the front of a line is skipped as well, and what
follows it is no longer at the front. -/
def skipSpace : Nat → Tokenize Unit
  | 0 => pure ()
  | count + 1 => do
      let s ← get
      match s.source.rest with
      | ' ' :: _ => skip 1; skipSpace count
      | '\t' :: _ =>
          if !s.brackets.isEmpty || !s.keyAllowed then skip 1; skipSpace count
      | '#' :: cs => skip (1 + (cs.takeWhile (!isBreak ·)).length); skipSpace count
      | c :: cs =>
          if c == byteOrderMark && s.source.column == 0 then skip 1; skipSpace count
          else if isBreak c then
            skip (if c == '\r' && cs.head? == some '\n' then 2 else 1)
            if s.brackets.isEmpty then allowKey true
            skipSpace count
      | [] => pure ()

/-- A token that begins or ends a document. -/
def marker (t : Token) : Tokenize Unit := do
  endBlocks none
  dropCandidate
  allowKey false
  skip 3
  emit t

/-- A bracket that opens, of one of both kinds. -/
def openBracket (t : Token) : Tokenize Unit := do
  noteCandidate
  modify fun s => { s with brackets := none :: s.brackets }
  allowKey true
  skip 1
  emit t

/-- A bracket that closes, of one of both kinds. -/
def closeBracket (t : Token) : Tokenize Unit := do
  dropCandidate
  modify fun s => { s with brackets := s.brackets.tail }
  allowKey false
  skip 1
  emit t

/-- The comma behind an item in brackets. -/
def comma : Tokenize Unit := do
  dropCandidate
  allowKey true
  skip 1
  emit .comma

/-- Begin a block in front of the next token, where a key may begin. -/
def openBlock (t : Token) : Tokenize Unit := do
  let s ← get
  if s.brackets.isEmpty then
    if !s.keyAllowed then failure
    if ← beginBlock s.source.column then emit t

/-- The hyphen in front of an item. -/
def item : Tokenize Unit := do
  openBlock .itemsBegin
  dropCandidate
  allowKey true
  skip 1
  emit .item

/-- The question mark in front of a key. -/
def explicitKey : Tokenize Unit := do
  openBlock .keysBegin
  dropCandidate
  allowKey !(← inBrackets)
  skip 1
  emit .key

/-- The colon in front of a value. -/
def value : Tokenize Unit := do
  match ← freshCandidate? with
  | some c =>
      let began ← beginBlock c.start.column
      insert c.token (if began then [.keysBegin, .key] else [.key])
      setCandidate none
      allowKey false
  | none =>
      openBlock .keysBegin
      allowKey !(← inBrackets)
  skip 1
  emit .value

/-- A scalar in quotes of one of both kinds. -/
def quoted (count : Nat) (double : Bool) : Tokenize Unit := do
  noteCandidate
  allowKey false
  let (text, length) ← (quotedScalar count double (← source).rest.tail : Option _)
  skip (length + 1)
  emit (.scalar ⟨false, text⟩)

/-- A scalar without quotes. -/
def plain (count : Nat) : Tokenize Unit := do
  noteCandidate
  allowKey false
  let s ← get
  let indent := s.indent.elim 0 (· + 1)
  let r ←
    (plainScalar count (!s.brackets.isEmpty) indent s.source.column s.source.rest : Option _)
  skip r.length
  if r.endsLine then allowKey true
  emit (.scalar ⟨true, r.text⟩)

/-- The signs that begin no plain scalar. -/
def signs : List Char := "-?:,[]{}#&*!|>'\"%@\x60".toList

/-- Whether a plain scalar begins here. -/
def beginsPlain (brackets : Bool) : List Char → Bool
  | [] => false
  | c :: cs =>
      if signs.contains c then
        (c == '-' && !cs.head?.any isBlank)
          || (!brackets && (c == '?' || c == ':') && !isPause cs)
      else !(isBlank c || isBreak c)

/-- The next token, which is there.  A scalar may have so many words. -/
def token (count : Nat) : Tokenize Unit := do
  let s ← source
  let brackets ← inBrackets
  if s.column == 0 && isMarker '-' s.rest then marker .documentBegin
  else if s.column == 0 && isMarker '.' s.rest then marker .documentEnd
  else if s.column == 0 && s.rest.head? == some '%' then failure
  else
    match s.rest with
    | '[' :: _ => openBracket .listOpen
    | '\x7b' :: _ => openBracket .mapOpen
    | ']' :: _ => closeBracket .listClose
    | '\x7d' :: _ => closeBracket .mapClose
    | ',' :: _ => comma
    | '"' :: _ => quoted count true
    | '\'' :: _ => quoted count false
    | c :: cs =>
        if c == '-' && isPause cs then item
        else if c == '?' && (brackets || isPause cs) then explicitKey
        else if c == ':' && (brackets || isPause cs) then value
        else if beginsPlain brackets s.rest then plain count
        else failure
    | [] => failure

/-- Give up what is out of its line or too long to be a key. -/
def dropStale : Tokenize Unit := do
  let _ ← freshCandidate?

/-- All tokens up to the end of the text.  The count exceeds that of the characters left. -/
def tokens : Nat → Tokenize Unit
  | 0 => failure
  | count + 1 => do
      skipSpace (count + 1)
      dropStale
      let s ← source
      endBlocks (some s.column)
      if s.rest.isEmpty then
        endBlocks none
        dropCandidate
      else
        token (count + 1)
        tokens count

end Tokenize

/-- Put a number of tokens in front of those that are done, each behind what belongs in front
of it.  Both come with the last first. -/
def place : Nat → List Token → List (Nat × List Token) → List Token → List Token
  | _, [], _, done => done
  | count, t :: earlier, inserted, done =>
      match inserted with
      | (number, front) :: others =>
          if number + 1 = count then place (count - 1) earlier others (front ++ t :: done)
          else place (count - 1) earlier inserted (t :: done)
      | [] => place (count - 1) earlier [] (t :: done)

/-- All tokens in their order. -/
def Tokenizer.result (s : Tokenizer) : List Token :=
  place s.count s.tokens (s.inserted.mergeSort fun a b => b.1 ≤ a.1) []

/-- The tokens of a text, all of whose characters must be allowed. -/
def tokens? (cs : List Char) : Option (List Token) :=
  if cs.all isAllowed then
    match Tokenize.tokens (2 * cs.length + 2) { source := { rest := cs } } with
    | some ((), s) => some s.result
    | none => none
  else none

end Yaml

end SpanningMesh
