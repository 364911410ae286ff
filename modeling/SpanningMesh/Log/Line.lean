import SpanningMesh.Text.Quoted

/-!
# Lines of a log

A line names its source, its level, its message and further fields.  The source is
the service, with the component behind it if there is one, in a column of fixed
width: a longer name is cut, and an ellipsis shows that.

Text in a field stands in quotes, and all else stands plain.  A message or a component
loses the quotes around it.
-/

namespace SpanningMesh

/-- How much a line of the log matters. -/
inductive LogLevel where
  | error
  | warn
  | info
  | debug
  | trace
deriving Repr, DecidableEq, Inhabited

namespace LogLevel

/-- The sign and the name of a level. -/
def label : LogLevel → String
  | error => "✗ ERROR"
  | warn => "⚠ WARN"
  | info => "ℹ INFO"
  | debug => "◦ DEBUG"
  | trace => "◦ TRACE"

end LogLevel

/-- The value of a field. -/
inductive LogValue where
  | text (s : String)
  | number (n : Int)
  | flag (b : Bool)
deriving Repr, DecidableEq

namespace LogValue

/-- A value as it stands in a line. -/
def shown : LogValue → String
  | text s => Quoted.quote s
  | number n => toString n
  | flag true => "true"
  | flag false => "false"

end LogValue

/-- A line of a log. -/
structure LogLine where
  service : String
  component : Option String := none
  level : LogLevel
  message : String
  fields : List (String × LogValue) := []
deriving Repr

namespace LogLine

/-- The width of the column of the source. -/
def sourceWidth : Nat := 20

/-- The width of the column of the level. -/
def levelWidth : Nat := 9

/-- A text with blanks behind it up to a width. -/
def padTo (width : Nat) (cs : List Char) : List Char :=
  cs ++ List.replicate (width - cs.length) ' '

/-- A text that is cut if it is longer than a width. -/
def cutTo (width : Nat) (cs : List Char) : List Char :=
  if width < cs.length then cs.take (width - 1) ++ ['…'] else cs

/-- The service that a line is from, and the component behind it if there is one. -/
def source (l : LogLine) : List Char :=
  l.service.toList ++ (l.component.elim [] fun c => '-' :: c.toList)

/-- A field with its name in front, behind a blank. -/
def fieldText : String × LogValue → List Char
  | (name, value) => ' ' :: name.toList ++ '=' :: value.shown.toList

/-- A line as text, with the break at its end. -/
def text (l : LogLine) : String :=
  String.ofList (
    '[' :: padTo sourceWidth (cutTo sourceWidth l.source) ++ "] [".toList
      ++ padTo levelWidth l.level.label.toList ++ "] ".toList
      ++ Quoted.unquote l.message.toList ++ l.fields.flatMap fieldText ++ ['\n'])

end LogLine

end SpanningMesh
