import SpanningMesh.Config.Options

/-!
# Flags of the command line

Flags override what the file and the environment say.  A flag that takes a value is
followed by it.  Only `--connect` may come more than once, and of any other flag the
last one counts.
-/

namespace SpanningMesh

/-- What the command line says. -/
structure Flags where
  nodeId : Option UInt32 := none
  root : Bool := false
  listen : Option SocketAddress := none
  connect : List SocketAddress := []
  /-- The time from one pass of the node to the next, in milliseconds. -/
  tick : Nat := 10
  window : Nat := 16384
  election : Bool := true
  file : String := "mesh.yaml"
deriving DecidableEq

/-- Why a command line does not say anything. -/
inductive FlagError where
  | unknown (flag : String)
  | missing (flag : String)
  | unfit (flag value : String)
deriving Repr, DecidableEq

namespace FlagError

/-- What is said of flags that are refused. -/
def message : FlagError → String
  | unknown flag => s!"unexpected argument '{flag}'"
  | missing flag => s!"a value is required for '{flag}'"
  | unfit flag value => s!"invalid value '{value}' for '{flag}'"

end FlagError

namespace Flags

/-- The number that the value of a flag gives. -/
def number? (value : String) : Option Nat := Yaml.digits? 10 value.toList

/-- The address that the value of a flag gives. -/
def address? (value : String) : Option SocketAddress := SocketAddress.ofText? value.toList

/-- The flags after one with a value, or `none` if there is no such flag.  The inner `none` is
for a value that does not fit. -/
def withValue? (f : Flags) (value : String) : String → Option (Option Flags)
  | "--node-id" => some do
      let n ← number? value
      if n ≤ Options.largestId then return { f with nodeId := some (UInt32.ofNat n) } else none
  | "--listen" => some ((address? value).map fun a => { f with listen := some a })
  | "--connect" => some ((address? value).map fun a => { f with connect := f.connect ++ [a] })
  | "--tick" => some ((number? value).map fun n => { f with tick := n })
  | "--send-window" => some ((number? value).map fun n => { f with window := n })
  | "--config" => some (some { f with file := value })
  | _ => none

/-- The flags that the arguments give on top of others. -/
def readOnto (f : Flags) : List String → Except FlagError Flags
  | [] => .ok f
  | "--root" :: rest => readOnto { f with root := true } rest
  | "--no-mesh-id" :: rest => readOnto { f with election := false } rest
  | flag :: [] =>
      if (f.withValue? "" flag).isSome then .error (.missing flag) else .error (.unknown flag)
  | flag :: value :: rest =>
      match f.withValue? value flag with
      | some (some f) => readOnto f rest
      | some none => .error (.unfit flag value)
      | none => .error (.unknown flag)

/-- The flags that the arguments of a command give. -/
def read (args : List String) : Except FlagError Flags := readOnto {} args

/-- Override options by flags. -/
def apply (f : Flags) (o : Options) : Options :=
  { o with
    nodeId := f.nodeId.or o.nodeId
    root := f.root || o.root
    listen := f.listen.or o.listen
    connect := if f.connect.isEmpty then o.connect else f.connect }

end Flags

end SpanningMesh
