import ExactJson.Cli.Tool

/-!
# The `jv` program

The thin outer layer of the tool: the files of the system, standard input read on demand,
and the run's output and status handed back to the system.
-/

namespace ExactJson.Program

/-- Reads a stream to its end. -/
partial def readAll (h : IO.FS.Stream) (acc : ByteArray) : IO ByteArray := do
  let chunk ← h.read 65536
  if chunk.isEmpty then pure acc else readAll h (acc ++ chunk)

/-- The text of a name, for the system. -/
def pathText (name : Bytes) : String := (String.fromUTF8? ⟨name.toArray⟩).getD ""

/-- The files and standard input of the system. -/
def system : Cli.Files IO where
  read name := do
    try
      let data ← IO.FS.readBinFile (pathText name)
      pure (.ok data.toList)
    catch e =>
      match e with
      | .noFileOrDirectory .. => pure (.error .missing)
      | .inappropriateType .. => pure (.error .directory)
      | .invalidArgument .. => pure (.error .invalid)
      | _ => pure (.error .notDirectory)
  write name text := IO.FS.writeBinFile (pathText name) ⟨text.toArray⟩
  stdin := do
    let data ← readAll (← IO.getStdin) ByteArray.empty
    pure data.toList

end ExactJson.Program

/-- Runs `jv` on the program's arguments. -/
def main (args : List String) : IO UInt32 := do
  let run ← ExactJson.Cli.runTool ExactJson.Program.system (args.map ExactJson.Bytes.ofString)
  let out ← IO.getStdout
  out.write ⟨run.stdout.toArray⟩
  out.flush
  let err ← IO.getStderr
  err.write ⟨run.stderr.toArray⟩
  err.flush
  pure run.status.toUInt32
