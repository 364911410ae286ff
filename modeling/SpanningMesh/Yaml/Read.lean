import SpanningMesh.Yaml.Basic

/-!
# Reading values for what they mean

The same text may be read as a number, as a flag or as text, and the reader says
which.  Numbers and flags stand without quotes.  A number may have a sign and may be
written with base 16, 8 or 2, but a decimal number has no zero in front.

A record is a map in which every name that is known comes once at most.  What is blank
is a record of which nothing is given.
-/

namespace SpanningMesh

namespace Yaml

/-! ## Numbers -/

/-- The value of a digit of some base. -/
def digit? (base : Nat) (c : Char) : Option Nat :=
  ((Scan.hexDigit? c).filter (· < base))

/-- The number of some digits, of which there must be one. -/
def digits? (base : Nat) (cs : List Char) : Option Nat :=
  if cs.isEmpty then none
  else cs.foldlM (fun n c => (digit? base c).map (base * n + ·)) 0

/-- The number of some digits behind a sign that counts for nothing. -/
def unsigned? (base : Nat) : List Char → Option Nat
  | '+' :: cs => digits? base cs
  | cs => digits? base cs

/-- The base that the front of a number gives, and its digits. -/
def based? : List Char → Option (Nat × List Char)
  | '0' :: 'x' :: cs => some (16, cs)
  | '0' :: 'o' :: cs => some (8, cs)
  | '0' :: 'b' :: cs => some (2, cs)
  | _ => none

/-- Whether a number has a zero in front that it does not need. -/
def hasSpareZero : List Char → Bool
  | '0' :: _ :: _ => true
  | _ => false

/-- The natural number that a text is. -/
def natural? (cs : List Char) : Option Nat :=
  let cs := if cs.head? == some '+' then cs.tail else cs
  match based? cs with
  | some (base, ds) => digits? base ds
  | none => if hasSpareZero cs then none else digits? 10 cs

/-! ## Values -/

/-- The text of a scalar. -/
def text? : Yaml → Option (List Char)
  | .scalar s => some s.text
  | _ => none

/-- The text of a scalar without quotes. -/
def plain? : Yaml → Option (List Char)
  | .scalar ⟨true, text⟩ => some text
  | _ => none

/-- A natural number that is not too large. -/
def natUpTo? (largest : Nat) (v : Yaml) : Option Nat := do
  let n ← natural? (← v.plain?)
  if n ≤ largest then return n else none

/-- The truth value that a scalar without quotes is. -/
def bool? (v : Yaml) : Option Bool := do
  let text := String.ofList (← v.plain?)
  if ["true", "True", "TRUE"].contains text then return true
  else if ["false", "False", "FALSE"].contains text then return false
  else none

/-- Whether nothing is written. -/
def isBlankValue (v : Yaml) : Bool := v.plain? = some []

/-- Whether a value says that there is none. -/
def isNull (v : Yaml) : Bool :=
  v.isBlankValue || v.plain?.any fun text =>
    ["null", "Null", "NULL", "~"].contains (String.ofList text)

/-- Read a value, unless it says that there is none. -/
def optional? {α : Type} (read : Yaml → Option α) (v : Yaml) : Option (Option α) :=
  if v.isNull then some none else (read v).map some

/-- The items of a list.  What is blank has none. -/
def items? (v : Yaml) : Option (List Yaml) :=
  match v with
  | .list items => some items
  | _ => if v.isBlankValue then some [] else none

/-! ## Records -/

/-- The fields of a record that have one of some names.  None of these may come twice. -/
def fields? (names : List String) (v : Yaml) : Option (List (String × Yaml)) :=
  match v with
  | .map entries => do
      let given ← entries.mapM fun (k, v) => k.text?.map fun name => (String.ofList name, v)
      let known := given.filter fun (name, _) => names.contains name
      if names.all fun name => known.countP (·.1 == name) ≤ 1 then return known else none
  | _ => if v.isBlankValue then some [] else none

/-- Read a field, or take another value if it is not given. -/
def field? {α : Type} (fields : List (String × Yaml)) (name : String) (read : Yaml → Option α)
    (missing : α) : Option α :=
  match fields.lookup name with
  | some v => read v
  | none => some missing

end Yaml

end SpanningMesh
