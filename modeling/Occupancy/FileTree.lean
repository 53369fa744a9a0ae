import Occupancy.Text
/-!
# Directory trees as values

The directories of a tree have numbers, and an entry says what stands under a name in one of them. Two entries
may lead to the same directory, which then lies in the one that comes first. A path that begins with a slash
starts at the root, and any other path at the working directory. `find` says what a path leads to.
-/

namespace Occupancy

/-- What takes the text that is written to it and keeps nothing to be read. -/
inductive Device where
  /-- What is written is gone. -/
  | null
  /-- There is never any room. -/
  | full
  /-- There is no terminal. -/
  | terminal
  /-- What is written is shown as output. -/
  | output
  /-- What is written is shown beside the output. -/
  | complaints
  deriving DecidableEq, Repr

/-- What stands under a name. -/
inductive Entry where
  | directory (number : Nat)
  | file (contents : List UInt8)
  | device (device : Device)
  deriving DecidableEq, Repr

structure FileTree where
  /-- What stands under each name, in the directory of each number. -/
  entries : List ((Nat × String) × Entry)
  /-- The directories in which nothing can be made. -/
  closed : List Nat := []
  /-- The number of the next directory that is made. -/
  next : Nat
  deriving DecidableEq, Repr

/-- Why a path leads to nothing that will do. -/
inductive PathFault where
  | missing
  | notDirectory
  | isDirectory
  | nameTooLong
  /-- A path with a NUL in it names nothing. -/
  | notName
  | notPermitted
  | noSpace
  | noDevice
  deriving DecidableEq, Repr

def PathFault.message : PathFault → String
  | .missing => "No such file or directory"
  | .notDirectory => "Not a directory"
  | .isDirectory => "Is a directory"
  | .nameTooLong => "File name too long"
  | .notName => "file name contained an unexpected NUL byte"
  | .notPermitted => "Operation not permitted"
  | .noSpace => "No space left on device"
  | .noDevice => "No such device or address"

namespace FileTree

/-- The number of the root. -/
def root : Nat := 0

/-- The number of the working directory. -/
def working : Nat := 1

variable (t : FileTree)

/-! ## Directories -/

def entry? (directory : Nat) (name : String) : Option Entry := t.entries.lookup (directory, name)

/-- The directory in which a directory lies, and its name there. The root lies in none. -/
def around? (directory : Nat) : Option (Nat × String) :=
  if directory = root then none
  else t.entries.findSome? fun (key, entry) =>
    match entry with
    | .directory number => if number = directory then some key else none
    | _ => none

/-- The directory in which a directory lies; the root stands for the one around it. -/
def parent (directory : Nat) : Nat := ((t.around? directory).map (·.1)).getD root

/-- The tree with a file, in place of what may have stood under its name. -/
def put (directory : Nat) (name : String) (contents : List UInt8) : FileTree :=
  { t with entries := ((directory, name), .file contents) :: t.entries.filter (·.1 ≠ (directory, name)) }

/-- The names that lead from the working directory to a directory, in at most `fuel` steps. -/
def namesTo (fuel directory : Nat) : Option (List String) :=
  if directory = working then some []
  else match fuel with
    | 0 => none
    | fuel + 1 => do
      let (outer, name) ← t.around? directory
      return (← namesTo fuel outer) ++ [name]

/-- The files in the working directory and below, under the names that lead to them from there. -/
def workingFiles : List (List String × List UInt8) :=
  t.entries.filterMap fun ((directory, name), entry) =>
    match entry with
    | .file contents => (t.namesTo t.entries.length directory).map fun names => (names ++ [name], contents)
    | _ => none

/-! ## Paths -/

/-- The directory at which a path starts. -/
def start (path : String) : Nat := if path.toList.head? = some '/' then root else working

/-- The names in a path; one that is empty says that a directory is meant. -/
def names (path : String) : Except PathFault (List String) :=
  if path.toList.contains '\x00' then .error .notName
  else if 4096 ≤ path.utf8ByteSize then .error .nameTooLong
  else if path.isEmpty then .error .missing
  else .ok ((Text.split '/' path.toList).map String.ofList)

/-- Whether a name stands for the directory that it is looked up in. -/
def isHere (name : String) : Bool := name.isEmpty || name = "."

/-- What stands under a name other than those for directories. -/
def lookUp (directory : Nat) (name : String) : Except PathFault (Option Entry) :=
  if 255 < name.utf8ByteSize then .error .nameTooLong else .ok (t.entry? directory name)

/-- From a directory to the one under a name in it. -/
def enter (directory : Nat) (name : String) : Except PathFault Nat :=
  if isHere name then .ok directory
  else if name = ".." then .ok (t.parent directory)
  else do
    match ← t.lookUp directory name with
    | some (.directory number) => return number
    | some _ => throw .notDirectory
    | none => throw .missing

/-- What a path leads to. -/
inductive Target where
  | directory (number : Nat)
  | file (directory : Nat) (name : String) (contents : List UInt8)
  | device (device : Device)
  /-- Nothing stands under the last name. -/
  | free (directory : Nat) (name : String)
  deriving DecidableEq, Repr

/-- What a path leads to; all but the last of its names have to be directories. -/
def find (path : String) : Except PathFault Target := do
  let names ← names path
  let directory ← names.dropLast.foldlM t.enter (start path)
  let last := names.getLast?.getD ""
  if isHere last then return .directory directory
  else if last = ".." then return .directory (t.parent directory)
  else
    match ← t.lookUp directory last with
    | some (.directory number) => return .directory number
    | some (.file contents) => return .file directory last contents
    | some (.device device) => return .device device
    | none => return .free directory last

/-- What can be read at a path. -/
def read (path : String) : Except PathFault (List UInt8) := do
  match ← t.find path with
  | .directory _ => throw .isDirectory
  | .file _ _ contents => return contents
  | .device .terminal => throw .noDevice
  | .device _ => return []
  | .free .. => throw .missing

/-! ## Making directories -/

/-- From a directory to the one under a name in it, which is made if there is none. -/
def enterOrMake (s : FileTree × Nat) (name : String) : Except PathFault (FileTree × Nat) :=
  let (t, directory) := s
  if isHere name then .ok (t, directory)
  else if name = ".." then .ok (t, t.parent directory)
  else do
    match ← t.lookUp directory name with
    | some (.directory number) => return (t, number)
    | some _ => throw .notDirectory
    | none =>
      if t.closed.contains directory then throw .notPermitted
      else
        let entries := ((directory, name), .directory t.next) :: t.entries
        return ({ t with entries, next := t.next + 1 }, t.next)

/-- Whether the last name of a path is `.`, slashes at its end apart. -/
def endsHere (names : List String) : Bool :=
  (names.reverse.dropWhile String.isEmpty).head? = some "."

/-- Makes the directory that a path names, and all that it lies in. A path that ends in `.` names a directory
that has to be there once those around it are. -/
def makeDirectory (path : String) : Except PathFault FileTree :=
  if path.isEmpty then .ok t
  else do
    let names ← names path
    if endsHere names then
      let names := (names.reverse.dropWhile isHere).reverse
      let (t, directory) ← names.dropLast.foldlM enterOrMake (t, start path)
      let _ ← t.enter directory (names.getLast?.getD ".")
      return t
    else
      let (t, _) ← names.foldlM enterOrMake (t, start path)
      return t

/-! ## The tree to start from -/

/-- Entries of one directory. -/
def within (directory : Nat) (entries : List (String × Entry)) : List ((Nat × String) × Entry) :=
  entries.map fun (name, entry) => ((directory, name), entry)

/-- A tree with an empty working directory, and with the directories and devices that every machine has. -/
def standard : FileTree where
  entries :=
    within root [("tmp", .directory 2), ("dev", .directory 3), ("proc", .directory 4),
      ("sys", .directory 5)] ++
    within 2 [("work", .directory working)] ++
    within 4 [("self", .directory 6)] ++
    within 6 [("fd", .directory 7), ("cwd", .directory working), ("root", .directory root)] ++
    within 7 [("0", .device .null), ("1", .device .output), ("2", .device .complaints)] ++
    within 3 [("null", .device .null), ("zero", .device .null), ("random", .device .null),
      ("urandom", .device .null), ("full", .device .full), ("tty", .device .terminal),
      ("stdin", .device .null), ("stdout", .device .output), ("stderr", .device .complaints),
      ("fd", .directory 7), ("mqueue", .directory 8), ("pts", .directory 9), ("shm", .directory 10)] ++
    within root (["bin", "boot", "etc", "home", "lib", "media", "mnt", "opt", "root", "run", "sbin", "srv",
      "usr", "var"].zipIdx 11 |>.map fun (name, number) => (name, .directory number))
  closed := [4, 5, 6, 7]
  next := 25

end FileTree

end Occupancy
