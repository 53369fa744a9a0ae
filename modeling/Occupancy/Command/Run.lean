import Occupancy.Command.Work
/-!
# Running the command

A host is a place that holds files and shows text. The same command runs on every host: the machine's own
files are one, and a directory tree that is held as a value is another.
-/

namespace Occupancy.Command

structure Host (m : Type → Type) where
  readFile : String → m Contents
  makeDirectory : String → m (Except String Unit)
  writeFile : String → List UInt8 → m (Except String Unit)
  print : String → m Unit
  /-- Shows a line to the user beside the output. -/
  complain : String → m Unit

/-- How a command ends that was not carried out. -/
inductive Stop where
  /-- Help was printed. -/
  | help
  | failed (message : String)
  deriving DecidableEq, Repr

def Stop.message : Stop → String
  | .help => ""
  | .failed message => message

variable {m : Type → Type} [Monad m] (h : Host m)

def Action.perform : Action → m (Except String Unit)
  | .makeDirectory path => h.makeDirectory path
  | .saveBitmap path bitmap => h.writeFile path bitmap.encode
  | .saveReport path text => h.writeFile path (utf8 text)
  | .print text => do h.print text; return .ok ()
  | .warn line => do h.complain line; return .ok ()

/-- Performs actions up to the first that fails, and answers with the complaint about it. -/
def performAll : List Action → m (Except String Unit)
  | [] => return .ok ()
  | action :: rest => do
    match ← action.perform h with
    | .ok () => performAll rest
    | .error reason => return .error (action.complaint reason)

/-- Reads the files that options name. -/
def Options.inputs (o : Options) : m Inputs := do
  let config ← o.config.mapM h.readFile
  let fixture ← h.readFile o.fixture
  return { config, fixture }

/-- Carries out what options ask for and answers with the exit status. -/
def Options.run (o : Options) : m (Except Stop Nat) := do
  match o.work (← o.inputs h) with
  | .error failure => return .error (.failed failure.message)
  | .ok work =>
    match ← performAll h work.actions with
    | .ok () => return .ok work.status
    | .error complaint => return .error (.failed complaint)

/-- Runs the command with the words of the command line. -/
def run (words : List String) : m (Except Stop Nat) := do
  match Options.parse words with
  | .ok options => options.run h
  | .error .help => do h.print help; return .error .help
  | .error e => return .error (.failed e.message)

/-- Runs the command as a program: says why it failed and answers with the exit status. -/
def execute (words : List String) : m Nat := do
  match ← run h words with
  | .ok status => return status
  | .error .help => return 0
  | .error (.failed message) => do h.complain s!"ERROR itemmap-check failed: {message}"; return 2

end Occupancy.Command
