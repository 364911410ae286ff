import SpanningMesh.Config.Flags
import SpanningMesh.Link.Window
import SpanningMesh.Log.Line
import SpanningMesh.Node.Run

/-!
# A node with one connection

A `Console` is a node whose host has a single connection and writes a log.  Bytes
that arrive and the time come in through `turn`, which gives back the bytes to send
and the lines of the log since the last turn.

The node is the station of the link if it has peers to connect to, and otherwise
waits to be asked.
-/

namespace SpanningMesh

/-- What the host keeps. -/
structure ConsoleHost where
  window : Window
  /-- The lines of the log that were not written, the last one first. -/
  lines : List LogLine := []

namespace ConsoleHost

/-- A transport of a window as one of the host. -/
def connection : Transport ConsoleHost where
  write bs s := let (taken, window) := s.window.write bs; (taken, { s with window })
  space s := s.window.space
  close s := { s with window := s.window.close }
  isConnected s := s.window.isConnected

instance : Host ConsoleHost where
  transport _ := connection
  headroom _ := unlimited

end ConsoleHost

/-- A node with one connection. -/
abbrev Console := Node ConsoleHost Unit

/-- Why a console does not start. -/
inductive ConsoleError where
  /-- The id 0 stands for no node. -/
  | reservedId
  | nothingToDo
deriving Repr, DecidableEq

namespace ConsoleError

/-- What is said of options with which no node can run. -/
def message : ConsoleError → String
  | reservedId => "Node id 0 is reserved"
  | nothingToDo => "Nothing to do: give --listen and/or --connect"

end ConsoleError

namespace Console

/-- A line of the log of a node. -/
def line (component : Option String) (level : LogLevel) (message : String) : LogLine :=
  { service := "mesh", component, level, message }

/-- What the log says of an event. -/
def lineOf? (n : Console) : Event → Option LogLine
  | .connected peer => some (line "mesh" .info s!"New connection to node {peer}")
  | .dropped peer station =>
      let side := if station then "station" else "AP"
      some (line "mesh" .info s!"Dropped {side} connection to node {peer}")
  | .changed peer =>
      some (line "mesh" .info s!"Topology changed via node {peer}: {n.view.size} nodes known")
  | .opened _ => none
  | .adjusted offset =>
      some (line "time" .debug s!"Adjusted by {offset.toInt} ms, node time {n.time}")
  | .measured peer delay =>
      some (line "time" .info s!"Round trip delay to node {peer}: {delay.toInt} ms")
  | .meshId id => some (line "mesh" .info s!"Mesh id is now {id}")
  | .received sender text => some (line none .info s!"Message from {sender}: {text}")

/-- Add a line to the log, the last one first. -/
def write (n : Console) (l : LogLine) : Console := { n with host.lines := l :: n.host.lines }

/-- The application: every event is written to the log. -/
def program : Application.Program ConsoleHost Unit :=
  { Application.Program.idle ConsoleHost Unit with
    listen := fun _ e n => (lineOf? n e).elim n (write n) }

/-- Start a node and open its link.  The two draws stand in for an id that is not given and
give the mesh id. -/
def start (f : Flags) (o : Options) (idDraw : UInt32) (meshIdDraw : UInt16) :
    Except ConsoleError (LinkId × Console) :=
  let id := o.nodeId.getD idDraw
  if id = 0 then .error .reservedId
  else if o.listen.isNone && o.connect.isEmpty then .error .nothingToDo
  else
    let n : Console := Node.create id o.settings { window := { limit := f.window } }
    let n := { n with root := o.root }
    let n := if f.election then n.joinElection meshIdDraw else n
    let n := EventKind.all.foldl (fun n k => n.onEvent k ()) n
    let n := write n (line none .info s!"Mesh node {id} ready (root: {o.root})")
    .ok (n.addLink !o.connect.isEmpty)

/-- The bytes that wait to be sent, which are sent by that. -/
def takeOutput (n : Console) : Bytes × Console :=
  let w := n.host.window
  (w.chunks.flatten, { n with host.window := { w with chunks := [], outstanding := 0 } })

/-- The lines of the log that were not written, the first one first. -/
def takeLines (n : Console) : List LogLine × Console :=
  (n.host.lines.reverse, { n with host.lines := [] })

/-- What one turn gives. -/
structure Turn where
  output : Bytes
  lines : List LogLine
  node : Console

/-- Take in what arrived on the link and do what is due. -/
def turn (n : Console) (link : LinkId) (now : Nat) (input : Bytes) : Turn :=
  let n := if input.isEmpty then n else n.arrive link input
  let (_, n) := n.execute program now
  let (output, n) := takeOutput n
  let (lines, n) := takeLines n
  ⟨output, lines, n⟩

end Console

end SpanningMesh
