import SpanningMesh.Address.Basic
import SpanningMesh.Text.Scan

/-!
# Addresses as text

A version 4 address is four decimal numbers with points between them, and none has a
zero in front that it does not need.  A version 6 address is its groups in
hexadecimal with colons between them.  One run of zero groups may be left out for
two colons, and the last two groups may be written as a version 4 address.

The writer leaves out the longest run of at least two zero groups, the first one if
there are several, and writes the last two groups of a mapped address the other
way.  In a socket address the port follows behind a colon, and a version 6 address
stands in square brackets together with its scope.
-/

namespace SpanningMesh

/-! ## Reading -/

namespace Scan

/-- A number of some digits that is less than a bound.  It has one digit at least, and at
most as many as `most` says. -/
def bounded (isDigit : Char → Bool) (base bound : Nat) (most : Option Nat) : Scan Nat := do
  let ds ← run isDigit
  if ds.isEmpty || most.any (· < ds.length) then failure
  let n := ds.foldl (fun n c => base * n + (hexDigit? c).getD 0) 0
  if n < bound then return n else failure

/-- A decimal number of any length that is less than a bound. -/
def decimalBelow (bound : Nat) : Scan Nat := bounded Char.isDigit 10 bound none

/-- What is scanned, or nothing where it does not come next. -/
def maybe {α : Type} (s : Scan α) : Scan (Option α) := (some <$> s) <|> pure none

end Scan

namespace IPv4

/-- One number of a version 4 address. -/
def byte : Scan UInt8 := do
  let cs ← Scan.rest
  let n ← Scan.bounded Char.isDigit 10 256 (some 3)
  if cs.head? == some '0' && cs.tail.head?.any Char.isDigit then failure
  return UInt8.ofNat n

/-- Four numbers of one byte with dots between them. -/
def scan : Scan IPv4 := do
  let a ← byte
  Scan.char '.'
  let b ← byte
  Scan.char '.'
  let c ← byte
  Scan.char '.'
  let d ← byte
  return ⟨a, b, c, d⟩

end IPv4

namespace IPv6

/-- One group of a version 6 address. -/
def group : Scan UInt16 := do
  let n ← Scan.bounded (fun c => (Scan.hexDigit? c).isSome) 16 65536 (some 4)
  return UInt16.ofNat n

/-- Something behind a colon, unless it is the first. -/
def behindColon {α : Type} (first : Bool) (s : Scan α) : Scan α := do
  if !first then Scan.char ':'
  s

/-- As many groups as there are, up to a number of them, and whether a version 4 address
stood for the last two. -/
def scanGroups (first : Bool) : Nat → Scan (List UInt16 × Bool)
  | 0 => pure ([], false)
  | left + 1 => do
      let embedded ← if left = 0 then pure none else Scan.maybe (behindColon first IPv4.scan)
      match embedded with
      | some ip => return ([ip.high, ip.low], true)
      | none =>
          match ← Scan.maybe (behindColon first group) with
          | none => return ([], false)
          | some g =>
              let (gs, embedded) ← scanGroups false left
              return (g :: gs, embedded)

/-- Eight groups, of which two colons may stand for those that are 0 and an address with dots for
the last two. -/
def scan : Scan IPv6 := do
  let (front, embedded) ← scanGroups true 8
  if front.length = 8 then (ofGroups? front : Option IPv6)
  else if embedded then failure
  else
    Scan.word "::".toList
    let (back, _) ← scanGroups true (7 - front.length)
    let zeros := List.replicate (8 - front.length - back.length) 0
    (ofGroups? (front ++ zeros ++ back) : Option IPv6)

end IPv6

namespace SocketAddress

/-- A colon and the number of a port behind it. -/
def port : Scan UInt16 := do
  Scan.char ':'
  return UInt16.ofNat (← Scan.decimalBelow 65536)

/-- A socket address with a version 4 address. -/
def scanV4 : Scan SocketAddress := do
  let ip ← IPv4.scan
  return .v4 ip (← port)

/-- The scope of a version 6 address. -/
def scope : Scan UInt32 := do
  Scan.char '%'
  return UInt32.ofNat (← Scan.decimalBelow 4294967296)

/-- A socket address with a version 6 address. -/
def scanV6 : Scan SocketAddress := do
  Scan.char '['
  let ip ← IPv6.scan
  let scope ← Scan.maybe scope
  Scan.char ']'
  return .v6 ip (scope.getD 0) (← port)

/-- The socket address that a text is. -/
def ofText? (cs : List Char) : Option SocketAddress := Scan.all (scanV4 <|> scanV6) cs

end SocketAddress

/-! ## Writing -/

/-- The text of a version 4 address. -/
def IPv4.text (ip : IPv4) : String := s!"{ip.a}.{ip.b}.{ip.c}.{ip.d}"

namespace IPv6

/-- A run of zero groups: where it begins and how long it is. -/
structure Run where
  start : Nat := 0
  length : Nat := 0
deriving Repr, DecidableEq

/-- The longest run of zeros, when `current` is the run that ends in front of the groups at a
place and `longest` is the longest run that began before. -/
def longestRun (longest current : Run) (place : Nat) : List UInt16 → Run
  | [] => longest
  | g :: gs =>
      if g = 0 then
        let current : Run :=
          if current.length = 0 then ⟨place, 1⟩ else ⟨current.start, current.length + 1⟩
        let longest := if longest.length < current.length then current else longest
        longestRun longest current (place + 1) gs
      else longestRun longest {} (place + 1) gs

/-- Groups in hexadecimal with colons between them. -/
def groupsText (gs : List UInt16) : String :=
  String.intercalate ":" (gs.map fun g => String.ofList (Nat.toDigits 16 g.toNat))

/-- The text of a version 6 address. -/
def text (ip : IPv6) : String :=
  match ip.mapped? with
  | some v4 => "::ffff:" ++ v4.text
  | none =>
      let run := longestRun {} {} 0 ip.groups
      if 1 < run.length then
        groupsText (ip.groups.take run.start) ++ "::"
          ++ groupsText (ip.groups.drop (run.start + run.length))
      else groupsText ip.groups

end IPv6

/-- An address with its port.  A long address stands in brackets, with its scope if it has one. -/
def SocketAddress.text : SocketAddress → String
  | .v4 ip port => s!"{ip.text}:{port}"
  | .v6 ip scope port =>
      if scope = 0 then s!"[{ip.text}]:{port}" else s!"[{ip.text}%{scope}]:{port}"

/-! ## Examples -/

example : (SocketAddress.ofText? "[1:0:0:2::3%7]:080".toList).map SocketAddress.text
    = some "[1:0:0:2::3%7]:80" := by decide +kernel

example : (SocketAddress.ofText? "[::ffff:1.2.3.4]:9".toList).map SocketAddress.text
    = some "[::ffff:1.2.3.4]:9" := by decide +kernel

example : (SocketAddress.ofText? "1.2.3.04:5".toList).isNone := by decide +kernel

end SpanningMesh
