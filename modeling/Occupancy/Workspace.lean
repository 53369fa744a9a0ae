import Occupancy.Command.Run
import Occupancy.FileTree
/-!
# A place to run a command in

A workspace is a directory tree together with the text that has been shown. `Workspace.host` is the host on
which a command can be run as a pure function.
-/

namespace Occupancy

structure Workspace where
  tree : FileTree := .standard
  output : String := ""
  /-- The text shown beside the output. -/
  complaints : String := ""
  deriving DecidableEq, Repr

namespace Workspace

variable (w : Workspace)

/-- The contents of the file at a path. -/
def contents (path : String) : Contents :=
  (w.tree.read path).mapError fun
    | .missing => .notFound
    | fault => .other fault.message

def makeDirectory (path : String) : Except PathFault Workspace :=
  (w.tree.makeDirectory path).map fun tree => { w with tree }

/-- What becomes of a workspace when bytes are written to a device. -/
def give (bytes : List UInt8) : Device → Except PathFault Workspace
  | .null => .ok w
  | .full => if bytes.isEmpty then .ok w else .error .noSpace
  | .terminal => .error .noDevice
  | .output => .ok { w with output := w.output ++ (utf8? bytes).getD "" }
  | .complaints => .ok { w with complaints := w.complaints ++ (utf8? bytes).getD "" }

/-- Writes a file, in place of the one that may have been there. -/
def write (path : String) (bytes : List UInt8) : Except PathFault Workspace := do
  match ← w.tree.find path with
  | .directory _ => throw .isDirectory
  | .file directory name _ => return { w with tree := w.tree.put directory name bytes }
  | .device device => w.give bytes device
  | .free directory name =>
    if w.tree.closed.contains directory then throw .notPermitted
    else return { w with tree := w.tree.put directory name bytes }

/-- Changes the workspace, unless that cannot be done. -/
def change (f : Workspace → Except PathFault Workspace) : StateM Workspace (Except String Unit) := do
  match f (← get) with
  | .ok w => do set w; return .ok ()
  | .error fault => return .error fault.message

/-- The host that keeps everything in a workspace. -/
def host : Command.Host (StateM Workspace) where
  readFile path := do return (← get).contents path
  makeDirectory path := change (·.makeDirectory path)
  writeFile path bytes := change (·.write path bytes)
  print text := modify fun w => { w with output := w.output ++ text }
  complain line := modify fun w => { w with complaints := w.complaints ++ line ++ "\n" }

end Workspace

end Occupancy
