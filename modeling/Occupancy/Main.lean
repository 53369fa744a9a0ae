import Occupancy.Command.Run
/-!
# The program

The command on the machine's own files.
-/

namespace Occupancy

def ofResult {α : Type} (act : IO α) : IO (Except String α) := do
  match ← act.toBaseIO with
  | .ok a => return .ok a
  | .error e => return .error (toString e)

def readContents (path : String) : IO Contents := do
  match ← (IO.FS.readBinFile path).toBaseIO with
  | .ok bytes => return .ok bytes.toList
  | .error (.noFileOrDirectory ..) => return .error .notFound
  | .error e => return .error (.other (toString e))

def machine : Command.Host IO where
  readFile := readContents
  makeDirectory path := ofResult (if path.isEmpty then pure () else IO.FS.createDirAll path)
  writeFile path contents := ofResult (IO.FS.writeBinFile path ⟨contents.toArray⟩)
  print text := do
    IO.print text
    (← IO.getStdout).flush
  complain line := IO.eprintln line

end Occupancy

def main (words : List String) : IO UInt32 := do
  let status ← Occupancy.Command.execute Occupancy.machine words
  return UInt32.ofNat status
