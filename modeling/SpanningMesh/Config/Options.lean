import SpanningMesh.Address.Text
import SpanningMesh.Codec.Field
import SpanningMesh.Node.Settings
import SpanningMesh.Text.Blank
import SpanningMesh.Yaml.Read

/-!
# Options of a node

What a node is started with: its id and role, the address it listens on, the peers it
connects to, and its settings.  Options come from a file, and variables of the
environment override what the file says.

A file that is missing or is no text counts for nothing.  A file that does not fit is
refused as a whole.  A variable that does not fit is passed over.
-/

namespace SpanningMesh

/-- What a node is started with. -/
structure Options where
  /-- The id of the node, drawn by lot if it is not given. -/
  nodeId : Option UInt32 := none
  root : Bool := false
  listen : Option SocketAddress := none
  connect : List SocketAddress := []
  settings : Settings := {}
deriving DecidableEq

namespace Settings

/-- The settings that a value of a file gives. -/
def ofYaml? (v : Yaml) : Option Settings := do
  let fields ← v.fields? (Setting.all.map Setting.name)
  Setting.all.foldlM
    (fun s setting => do
      let n ← Yaml.field? fields setting.name (Yaml.natUpTo? setting.largest) (setting.value.get s)
      return setting.value.set n s)
    {}

end Settings

namespace Options

/-- The names of the options in a file. -/
def names : List String := ["node_id", "root", "listen", "connect", "mesh"]

/-- The largest id that a node may have. -/
def largestId : Nat := 4294967295

/-- The address that a value of a file gives. -/
def addressOf? (v : Yaml) : Option SocketAddress := v.text?.bind SocketAddress.ofText?

/-- The options that a value of a file gives. -/
def ofYaml? (v : Yaml) : Option Options := do
  let fields ← v.fields? names
  let id ← Yaml.field? fields "node_id" (Yaml.optional? (Yaml.natUpTo? largestId)) none
  let root ← Yaml.field? fields "root" Yaml.bool? false
  let listen ← Yaml.field? fields "listen" (Yaml.optional? addressOf?) none
  let connect ← Yaml.field? fields "connect" (fun v => v.items?.bind (·.mapM addressOf?)) []
  let settings ← Yaml.field? fields "mesh" Settings.ofYaml? {}
  return ⟨id.map UInt32.ofNat, root, listen, connect, settings⟩

/-- The options that the bytes of a file give, if there is a file. -/
def ofFile? (file : Option Bytes) : Option Options :=
  match file.bind Text.ofBytes? with
  | none => some {}
  | some text => (Yaml.ofText? text.toList).bind ofYaml?

/-! ## The environment -/

/-- The id of a node that a variable gives, if it gives one. -/
def idOf? (value : String) : Option UInt32 := do
  let n ← Yaml.unsigned? 10 value.toList
  if n ≠ 0 ∧ n ≤ largestId then return UInt32.ofNat n else none

/-- Whether a variable says yes, in letters of any case. -/
def saysYes (value : String) : Bool :=
  ["1", "true", "yes"].contains (String.ofList (value.toList.map Char.toLower))

/-- The addresses that a variable gives, between commas. -/
def addressesOf (value : String) : List SocketAddress :=
  (value.splitOn ",").filterMap fun part => SocketAddress.ofText? (Blank.trim part.toList)

/-- Override options by what the environment gives. -/
def override (o : Options) (value? : String → Option String) : Options :=
  { o with
    nodeId := ((value? "MESH_NODE_ID").bind idOf?).or o.nodeId
    root := ((value? "MESH_ROOT").map saysYes).getD o.root
    listen :=
      ((value? "MESH_LISTEN").bind fun v => SocketAddress.ofText? v.toList).or o.listen
    connect := ((value? "MESH_CONNECT").map addressesOf).getD o.connect }

/-- The options that a file and the environment give together. -/
def load? (file : Option Bytes) (value? : String → Option String) : Option Options :=
  (ofFile? file).map (·.override value?)

end Options

end SpanningMesh
