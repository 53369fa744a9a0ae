import Occupancy.Bitmap.Image
import Occupancy.Document.Relation
/-!
# Files that are read, and what can go wrong with them

A failure is either the fault of what a file holds or that of the place where it is kept; `isFormat` tells the
two apart.
-/

namespace Occupancy

/-- Why the contents of a file are not to be had. -/
inductive ReadFault where
  | notFound
  | other (reason : String)
  deriving DecidableEq, Repr

/-- A failure to read, write or make sense of a file. -/
inductive Failure where
  | io (reason : String)
  | cannotOpen (path : String)
  | image (error : ImageError)
  | invalidJson (path detail : String)
  | invalidRelation (fault : RelationFault)
  | invalidLimits (fault : LimitsFault)
  /-- A heap page that the bitmap refused. -/
  | registration (error : RegistrationError)
  deriving DecidableEq, Repr

namespace Failure

def message : Failure → String
  | .io reason => s!"I/O error: {reason}"
  | .cannotOpen path => s!"unable to open file: '{path}'"
  | .image (.shortRead expected actual) => s!"short read: expected {expected} bytes, got {actual}"
  | .image (.malformed fault) => s!"bitmap image is malformed: {fault.message}"
  | .invalidJson path detail => s!"invalid JSON in '{path}': {detail}"
  | .invalidRelation fault => s!"invalid fixture: {fault.message}"
  | .invalidLimits fault => s!"invalid configuration: {fault.message}"
  | .registration error => error.message

/-- Whether it is the contents of a file that are at fault. -/
def isFormat : Failure → Bool
  | .io _ | .cannotOpen _ | .registration _ => false
  | .image _ | .invalidJson .. | .invalidRelation _ | .invalidLimits _ => true

def ofRead (path : String) : ReadFault → Failure
  | .notFound => .cannotOpen path
  | .other reason => .io reason

def ofCheck : CheckError → Failure
  | .invalid fault => .invalidRelation fault
  | .registration error => .registration error

end Failure

/-- The contents of a file, or why there are none. -/
abbrev Contents := Except ReadFault (List UInt8)

/-! ## Text files -/

/-- The bytes of a text in UTF-8. -/
def utf8 (text : String) : List UInt8 := text.toUTF8.data.toList

/-- The text that bytes are in UTF-8. -/
def utf8? (bytes : List UInt8) : Option String := String.fromUTF8? ⟨bytes.toArray⟩

theorem utf8?_utf8 (text : String) : utf8? (utf8 text) = some text := by
  simpa [utf8?, utf8, String.fromUTF8?, String.fromUTF8] using text.isValidUTF8

namespace Document

/-- The value that the JSON text in the file at `path` stands for. -/
def load {α : Type} (read : Json → Option α) (path : String) (contents : Contents) : Except Failure α := do
  let bytes ← contents.mapError (Failure.ofRead path)
  let some text := utf8? bytes | throw (.io "the file is not valid UTF-8")
  let some v := Json.read? text | throw (.invalidJson path "the file is no JSON text")
  let some a := read v | throw (.invalidJson path "the fields are not those of the document")
  return a

/-- A file is loaded as its text is read. -/
theorem load_utf8 {α : Type} {read : Json → Option α} {text : String} {v : Json} (h : Json.read? text = some v)
    (path : String) :
    load read path (.ok (utf8 text)) =
      (read v).elim (.error (.invalidJson path "the fields are not those of the document")) .ok := by
  have hbytes : (.ok (utf8 text) : Contents).mapError (Failure.ofRead path) = .ok (utf8 text) := rfl
  rw [load, hbytes]
  simp only [bind, Except.bind, utf8?_utf8, h]
  cases read v <;> rfl

end Document

def Relation.load (path : String) (contents : Contents) : Except Failure Relation :=
  Document.load Relation.ofJson? path contents

/-- The settings in a file; they have to be sound. -/
def Settings.load (path : String) (contents : Contents) : Except Failure Settings := do
  let settings ← Document.load Settings.ofJson? path contents
  settings.limits.validate.mapError .invalidLimits
  return settings

/-- The bitmap whose image is in a file. -/
def Bitmap.load (limits : Limits) (path : String) (contents : Contents) : Except Failure Bitmap := do
  let bytes ← contents.mapError (Failure.ofRead path)
  (Bitmap.decode limits bytes).mapError .image

end Occupancy
