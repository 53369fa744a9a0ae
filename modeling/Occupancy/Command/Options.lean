import Occupancy.Bitmap.Dump
/-!
# The command line's options

An option that takes a value takes the next word, whatever it looks like. `scan?` reads the words from left to
right and stops at the first that is out of place; of a setting given more than once the last counts.
-/

namespace Occupancy.Command

/-- An option that takes a value. -/
inductive Flag where
  | fixture
  | config
  | format
  | output
  | saveBitmaps
  deriving DecidableEq, Repr

def Flag.text : Flag → String
  | .fixture => "--fixture"
  | .config => "--config"
  | .format => "--format"
  | .output => "--output"
  | .saveBitmaps => "--save-bitmaps"

def Flag.all : List Flag := [.fixture, .config, .format, .output, .saveBitmaps]

/-- A word in the place of an option. -/
inductive Word where
  | option (flag : Flag)
  | verbose
  | help
  | unknown
  deriving DecidableEq, Repr

def Word.ofText (text : String) : Word :=
  match Flag.all.find? (·.text = text) with
  | some flag => .option flag
  | none =>
    if text = "-v" ∨ text = "--verbose" then .verbose
    else if text = "-h" ∨ text = "--help" then .help
    else .unknown

/-- One thing that the command line asks for. -/
inductive Setting where
  | fixture (path : String)
  | config (path : String)
  | format (format : DumpFormat)
  | output (path : String)
  | saveBitmaps (directory : String)
  | verbose
  deriving DecidableEq, Repr

/-- Why the command is not carried out as asked. -/
inductive ArgumentError where
  /-- The command line asks for help instead. -/
  | help
  | missingValue (flag : Flag)
  | unknownFormat (text : String)
  | unknownOption (text : String)
  | noFixture
  deriving DecidableEq, Repr

def ArgumentError.message : ArgumentError → String
  | .help => ""
  | .missingValue flag => s!"{flag.text} requires a value"
  | .unknownFormat text => DumpFormat.unknown text
  | .unknownOption text => s!"unknown option: {text}"
  | .noFixture => "--fixture is required"

/-- The setting that an option makes with its value. -/
def Flag.setting? (flag : Flag) (value : String) : Except ArgumentError Setting :=
  match flag with
  | .fixture => .ok (.fixture value)
  | .config => .ok (.config value)
  | .output => .ok (.output value)
  | .saveBitmaps => .ok (.saveBitmaps value)
  | .format =>
    match DumpFormat.ofOption? value with
    | some f => .ok (.format f)
    | none => .error (.unknownFormat value)

/-- The settings that the words make, in their order. -/
def scan? : List String → Except ArgumentError (List Setting)
  | [] => .ok []
  | word :: rest =>
    match Word.ofText word with
    | .option flag =>
      match rest with
      | [] => .error (.missingValue flag)
      | value :: rest => do
        let setting ← flag.setting? value
        let settings ← scan? rest
        return setting :: settings
    | .verbose => (scan? rest).map (.verbose :: ·)
    | .help => .error .help
    | .unknown => .error (.unknownOption word)

structure Options where
  fixture : String
  config : Option String := none
  format : Option DumpFormat := none
  output : Option String := none
  /-- The directory in which bitmaps are kept. -/
  saveBitmaps : Option String := none
  verbose : Bool := false
  deriving DecidableEq, Repr

/-- The value that the last of the settings with one gives. -/
def lastOf {α : Type} (value? : Setting → Option α) (settings : List Setting) : Option α :=
  settings.reverse.findSome? value?

/-- The options that settings make; a fixture has to be among them. -/
def Options.ofSettings? (settings : List Setting) : Option Options := do
  let fixture ← lastOf (fun | .fixture path => some path | _ => none) settings
  return {
    fixture
    config := lastOf (fun | .config path => some path | _ => none) settings
    format := lastOf (fun | .format format => some format | _ => none) settings
    output := lastOf (fun | .output path => some path | _ => none) settings
    saveBitmaps := lastOf (fun | .saveBitmaps directory => some directory | _ => none) settings
    verbose := settings.contains .verbose }

def Options.parse (words : List String) : Except ArgumentError Options := do
  let settings ← scan? words
  match Options.ofSettings? settings with
  | some options => return options
  | none => throw .noFixture

/-- What is printed when help is asked for. -/
def help : String := "itemmap-check — heap/index consistency check over decoded page fixtures

USAGE:
    itemmap-check --fixture <PATH> [OPTIONS]

OPTIONS:
    --fixture <PATH>         JSON fixture with heap pages and index pages (required)
    --config <PATH>          JSON check config (defaults for 8 KiB pages when omitted)
    --format <FORMAT>        Bitmap dump format: none, binary, hex, base64
    --output <PATH>          Write JSON report to path (stdout when omitted)
    --save-bitmaps <DIR>     Persist the heap bitmap and one bitmap per index
    -v, --verbose            Log per-page integration at DEBUG
    -h, --help               Show this help

"

end Occupancy.Command
