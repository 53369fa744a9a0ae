import Occupancy.Command.Options
import Occupancy.Document.Report
import Occupancy.Failure
/-!
# What the command does

The command reads its files first. What it then does follows from their contents alone: `Options.work` gives
the actions, in their order, and the exit status. Only the actions can still fail, and the first that does
ends the command.
-/

namespace Occupancy.Command

/-! ## Actions -/

inductive Action where
  /-- Makes a directory and those that it lies in. -/
  | makeDirectory (path : String)
  | saveBitmap (path : String) (bitmap : Bitmap)
  | saveReport (path text : String)
  | print (text : String)
  | warn (line : String)
  deriving DecidableEq, Repr

/-- The complaint about an action that failed for `reason`. -/
def Action.complaint (reason : String) : Action → String
  | .makeDirectory path => s!"bitmap_dir_create_failed path={path} error={reason}"
  | .saveBitmap path _ => s!"bitmap_write_failed path={path} error={(Failure.io reason).message}"
  | .saveReport path _ => s!"report_write_failed path={path} error={reason}"
  | .print _ | .warn _ => reason

/-- The actions of a command and its exit status when all of them succeed. -/
structure Work where
  actions : List Action
  status : Nat
  deriving DecidableEq, Repr

/-- Whether a character stands for itself in the name of a file. -/
def isFileNameChar (c : Char) : Bool := c.isAlphanum || c = '_' || c = '-'

/-- The name of the file that keeps the bitmap of an index. The position tells apart indexes whose names
differ only in characters that have no place in the name of a file. -/
def bitmapFileName (position : Nat) (index : String) : String :=
  let safe := String.ofList (index.toList.map fun c => if isFileNameChar c then c else '_')
  s!"index-{position}-{safe}.bitmap"

/-- The path of a file in a directory; the empty path is that of the working directory. -/
def filePath (directory file : String) : String :=
  match directory.toList.getLast? with
  | none | some '/' => directory ++ file
  | some _ => s!"{directory}/{file}"

/-- The actions that keep all bitmaps of an outcome in a directory. -/
def keepBitmaps (outcome : Outcome) (directory : String) : List Action :=
  let names := outcome.report.indexes.zipIdx.map fun (index, position) => bitmapFileName position index.name
  .makeDirectory directory :: .saveBitmap (filePath directory "heap.bitmap") outcome.heap ::
    List.zipWith (fun name bitmap => .saveBitmap (filePath directory name) bitmap) names outcome.indexes

/-- The warning about an index that is not consistent with the heap. -/
def warning (r : IndexReport) : String :=
  s!"WARN index={r.name} differing_items={r.differingItems} errors={r.errors} " ++
    s!"missing_from_index={r.missingFromIndex.length} missing_from_heap={r.missingFromHeap.length}"

/-- The action that hands over the report. -/
def deliver (report : Report) : Option String → Action
  | some path => .saveReport path report.toJson.pretty
  | none => .print (report.toJson.pretty ++ "\n")

/-! ## From files to actions -/

/-- The contents of the files that options name. -/
structure Inputs where
  config : Option Contents
  fixture : Contents

/-- The settings that options and the configuration file make. -/
def Options.settings (o : Options) (config : Option Contents) : Except Failure Settings := do
  let settings ← match o.config, config with
    | some path, some contents => Settings.load path contents
    | _, _ => pure {}
  return { settings with format := o.format.getD settings.format }

/-- The outcome of the check that options ask for. -/
def Options.outcome (o : Options) (inputs : Inputs) : Except Failure Outcome := do
  let settings ← o.settings inputs.config
  let relation ← Relation.load o.fixture inputs.fixture
  (relation.check settings).mapError .ofCheck

/-- What is to be done with an outcome. -/
def Options.workOf (o : Options) (outcome : Outcome) : Work where
  actions :=
    (o.saveBitmaps.map (keepBitmaps outcome)).getD [] ++ [deliver outcome.report o.output] ++
      (outcome.report.indexes.filter (!·.isConsistent)).map (.warn <| warning ·)
  status := if outcome.report.isConsistent then 0 else 1

def Options.work (o : Options) (inputs : Inputs) : Except Failure Work :=
  (o.outcome inputs).map o.workOf

end Occupancy.Command
