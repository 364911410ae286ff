import SpanningMesh.Text.Unprintable

/-!
# Quoted text

Text between double quotes, in which a quote, a backslash and everything that does
not print is written as an escape.  Every character is escaped on its own.
-/

namespace SpanningMesh

namespace Quoted

/-- The letter of a character that has an escape of one letter. -/
def letter? : Char → Option Char
  | '\x00' => some '0'
  | '\t' => some 't'
  | '\n' => some 'n'
  | '\r' => some 'r'
  | '"' => some '"'
  | '\\' => some '\\'
  | _ => none

/-- The escape of a character by its number. -/
def byNumber (c : Char) : List Char := "\\u\x7b".toList ++ Nat.toDigits 16 c.toNat ++ ['\x7d']

/-- A character as it stands in quoted text. -/
def encodeChar (c : Char) : List Char :=
  match letter? c with
  | some l => ['\\', l]
  | none => if Unprintable.contains c then byNumber c else [c]

/-- A text as it stands between quotes. -/
def encode (cs : List Char) : List Char := cs.flatMap encodeChar

/-- A text with quotes around it. -/
def quote (s : String) : String := String.ofList ('"' :: encode s.toList ++ ['"'])

/-- What stands between the quotes of a text. -/
def bare (s : String) : String := String.ofList (encode s.toList)

/-- A text without the quotes around it, if it has both. -/
def unquote (cs : List Char) : List Char :=
  match cs with
  | '"' :: rest => if rest.getLast? = some '"' then rest.dropLast else cs
  | _ => cs

end Quoted

end SpanningMesh
