import Occupancy.Bitmap.Compare
import Occupancy.Encoding
/-!
# Bitmaps as lines of text

A dump gives the number of used bytes, the number of marked bits, the number of pages and where the bits of
each registered page end; in all formats but one it gives the used bytes too.
-/

namespace Occupancy

/-- How a dump writes the used bytes. -/
inductive DumpFormat where
  /-- Not at all. -/
  | countsOnly
  | binary
  | hex
  | base64
  deriving DecidableEq, Repr, Inhabited

namespace DumpFormat

def name : DumpFormat → String
  | .countsOnly => "counts_only"
  | .binary => "binary"
  | .hex => "hex"
  | .base64 => "base64"

/-- The format with this name. -/
def ofName? : String → Option DumpFormat
  | "counts_only" => some .countsOnly
  | "binary" => some .binary
  | "hex" => some .hex
  | "base64" => some .base64
  | _ => none

/-- The format that a user asks for: its name, or `none` for counts only. -/
def ofOption? (text : String) : Option DumpFormat :=
  if text = "none" then some .countsOnly else ofName? text

/-- The complaint about a text that names no format. -/
def unknown (text : String) : String := s!"unknown bitmap format: {text}"

theorem ofName?_name (f : DumpFormat) : ofName? f.name = some f := by cases f <;> rfl

/-- The bytes as this format writes them, if it does. -/
def encode? (f : DumpFormat) (bytes : List UInt8) : Option String :=
  match f with
  | .countsOnly => none
  | .binary => some (Encoding.binary bytes)
  | .hex => some (Encoding.hex bytes)
  | .base64 => some (Encoding.base64 bytes)

end DumpFormat

namespace Bitmap

/-- The part of a dump that every format gives. -/
def summary (b : Bitmap) : String :=
  let ends := Encoding.decimals b.table.ends.toList
  s!"bitmap nbytes={b.usedBytes} nbits={b.count} npages={b.table.pageCount} pages=[{ends}]"

def render (b : Bitmap) (f : DumpFormat) : String :=
  match f.encode? b.used with
  | none => b.summary
  | some data => s!"{b.summary} data=[{data}]"

/-- The event that carries a dump. -/
def dump (b : Bitmap) (f : DumpFormat) : Event := .bitmapDump (b.render f)

end Bitmap

end Occupancy
