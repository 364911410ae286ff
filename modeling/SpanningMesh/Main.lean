import SpanningMesh.Console.Basic

/-!
# The command

The command runs one node over its standard input and output, which some other
program joins to those of another node.  The log goes to the standard error, with
the milliseconds since the start in front of every line.  The command ends when the
link is closed or the input ends.
-/

namespace SpanningMesh

namespace Command

/-- The largest mesh id that a node draws. -/
def largestDraw : Nat := 240

/-- How many bytes are read at a time.  A longer read would wait until all of it is there. -/
def chunkSize : USize := 1

/-- The bytes that were read and not taken in, and whether the input has ended. -/
structure Input where
  bytes : List UInt8 := []
  ended : Bool := false

/-- Read the input until it ends. -/
partial def readAll (input : IO.Ref Input) : IO Unit := do
  let chunk ← (← IO.getStdin).read chunkSize
  if chunk.isEmpty then input.modify fun i => { i with ended := true }
  else
    input.modify fun i => { i with bytes := i.bytes ++ chunk.toList }
    readAll input

/-- Write the lines and the output of a turn. -/
def writeTurn (now : Nat) (t : Console.Turn) : IO Unit := do
  for l in t.lines do
    (← IO.getStderr).putStr s!"[{now}] {l.text}"
  if !t.output.isEmpty then
    let out ← IO.getStdout
    out.write ⟨t.output.toArray⟩
    out.flush

/-- Take turns until the link is closed or the input has ended. -/
partial def takeTurns (input : IO.Ref Input) (tick start : Nat) (link : LinkId) (n : Console) :
    IO Unit := do
  let i ← input.modifyGet fun i => (i, { i with bytes := [] })
  let now := (← IO.monoMsNow) - start
  let t := Console.turn n link now i.bytes
  writeTurn now t
  if (t.node.link? link).isNone then return
  if i.ended then
    writeTurn now (Console.turn (t.node.disconnect link) link now [])
    return
  IO.sleep (UInt32.ofNat tick)
  takeTurns input tick start link t.node

/-- The bytes of a file, if there is one. -/
def readFile? (path : String) : IO (Option Bytes) := do
  try
    return some (← IO.FS.readBinFile path).toList
  catch _ => return none

/-- Report an error and give the exit code. -/
def fail (code : UInt32) (message : String) : IO UInt32 := do
  (← IO.getStderr).putStr s!"error: {message}\n"
  return code

/-- The variables of the environment that options come from. -/
def variableNames : List String := ["MESH_NODE_ID", "MESH_ROOT", "MESH_LISTEN", "MESH_CONNECT"]

/-- Run a node as the flags say. -/
def run (f : Flags) : IO UInt32 := do
  let file ← readFile? f.file
  let environment ← variableNames.filterMapM fun name => do
    return (← IO.getEnv name).map (name, ·)
  match Options.load? file (environment.lookup ·) with
  | none => fail 1 s!"Failed to parse config file {Quoted.quote f.file}"
  | some options =>
      let id ← IO.rand 1 Options.largestId
      let meshId ← IO.rand 1 largestDraw
      match Console.start f (f.apply options) (UInt32.ofNat id) (UInt16.ofNat meshId) with
      | .error e => fail 1 e.message
      | .ok (link, n) =>
          let input ← IO.mkRef ({} : Input)
          let _ ← IO.asTask (readAll input) Task.Priority.dedicated
          takeTurns input f.tick (← IO.monoMsNow) link n
          return 0

end Command

end SpanningMesh

/-- The entry point of the command. -/
def main (args : List String) : IO UInt32 :=
  match SpanningMesh.Flags.read args with
  | .error e => SpanningMesh.Command.fail 2 e.message
  | .ok f => SpanningMesh.Command.run f
