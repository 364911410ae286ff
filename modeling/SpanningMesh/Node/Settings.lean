import SpanningMesh.Focus
import SpanningMesh.Frame
import SpanningMesh.Link.Transport

/-!
# Settings of a node

How much a node keeps for its links and how often it does what.  All times are in
milliseconds.

Every setting has a name, under which files give its value and reports show it, and
a largest value.  `Setting.all` lists them in the order of reports.
-/

namespace SpanningMesh

/-- The numbers a node works by. -/
structure Settings where
  queueLimit : Nat := 50
  /-- How much memory must stay free when a frame is taken in. -/
  memoryReserve : Nat := 4000
  /-- The largest body accepted from a neighbour. -/
  frameLimit : Nat := Frame.defaultLimit
  exchangeInterval : Nat := 60000
  exchangeDelay : Nat := 10000
  answerTimeout : Nat := 5000
  retryDelay : Nat := 100
  sendInterval : Nat := 1000
  clockInterval : Nat := 60000
  clockDelay : Nat := 10000
  /-- The offset from which on two clocks do not agree. -/
  clockAccuracy : Nat := 5
  announceInterval : Nat := 10000
  maxLinks : Nat := 4
deriving Repr, DecidableEq, Inhabited

/-- One setting by name. -/
structure Setting where
  name : String
  value : Focus Settings Nat
  /-- The largest value it may have. -/
  largest : Nat := unlimited

namespace Setting

/-- The largest value that the accuracy of clocks may have. -/
def largestAccuracy : Nat := 4294967295

/-- All settings in the order of reports. -/
def all : List Setting := [
  ⟨"max_message_queue", ⟨Settings.queueLimit, fun v s => { s with queueLimit := v }⟩, unlimited⟩,
  ⟨"min_free_memory", ⟨Settings.memoryReserve, fun v s => { s with memoryReserve := v }⟩, unlimited⟩,
  ⟨"max_frame_size", ⟨Settings.frameLimit, fun v s => { s with frameLimit := v }⟩, unlimited⟩,
  ⟨"node_sync_interval_ms",
    ⟨Settings.exchangeInterval, fun v s => { s with exchangeInterval := v }⟩, unlimited⟩,
  ⟨"node_sync_initial_delay_ms",
    ⟨Settings.exchangeDelay, fun v s => { s with exchangeDelay := v }⟩, unlimited⟩,
  ⟨"node_timeout_ms", ⟨Settings.answerTimeout, fun v s => { s with answerTimeout := v }⟩, unlimited⟩,
  ⟨"send_retry_delay_ms", ⟨Settings.retryDelay, fun v s => { s with retryDelay := v }⟩, unlimited⟩,
  ⟨"buffer_task_interval_ms",
    ⟨Settings.sendInterval, fun v s => { s with sendInterval := v }⟩, unlimited⟩,
  ⟨"time_sync_interval_ms",
    ⟨Settings.clockInterval, fun v s => { s with clockInterval := v }⟩, unlimited⟩,
  ⟨"time_sync_initial_delay_ms",
    ⟨Settings.clockDelay, fun v s => { s with clockDelay := v }⟩, unlimited⟩,
  ⟨"time_sync_accuracy_ms",
    ⟨Settings.clockAccuracy, fun v s => { s with clockAccuracy := v }⟩, largestAccuracy⟩,
  ⟨"mesh_id_interval_ms",
    ⟨Settings.announceInterval, fun v s => { s with announceInterval := v }⟩, unlimited⟩,
  ⟨"max_connections", ⟨Settings.maxLinks, fun v s => { s with maxLinks := v }⟩, unlimited⟩]

/-- The setting of a name. -/
def ofName? (name : String) : Option Setting := all.find? (·.name == name)

end Setting

namespace Settings

/-- The names and values of all settings. -/
def report (s : Settings) : List (String × Nat) :=
  Setting.all.map fun setting => (setting.name, setting.value.get s)

/-- Give a setting a value.  A name that no setting has changes nothing. -/
def assign (s : Settings) (name : String) (value : Nat) : Settings :=
  match Setting.ofName? name with
  | some setting => setting.value.set value s
  | none => s

end Settings

end SpanningMesh
