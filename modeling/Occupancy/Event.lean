import Occupancy.PageTable
/-!
# What bitmap operations report

An operation that meets something out of order does not fail: it reports an event and goes on. A rejected
access reports exactly one event; a dump of a bitmap is reported too, and is no warning.
-/

namespace Occupancy

inductive Severity where
  | info
  | warning
  deriving DecidableEq, Repr

/-- What was asked of a bit. -/
inductive Access where
  | get
  | set
  | clear
  deriving DecidableEq, Repr

/-- The access that writes `on` to a bit. -/
def Access.put (on : Bool) : Access := if on then .set else .clear

def Access.label : Access → String
  | .get => "get"
  | .set => "set"
  | .clear => "clear"

inductive Event where
  /-- An item without a bit was asked for, and nothing was done. -/
  | addressRejected (access : Access) (reason : AddressError)
  /-- An index entry names slot 0, which is never a slot. -/
  | invalidIndexReference (indexPage slot block : Nat)
  /-- Two compared bitmaps track different numbers of pages. -/
  | pageCountMismatch (left right : Nat)
  /-- Two compared bitmaps hold different numbers of items. -/
  | itemTotalMismatch (left right : Nat)
  | bitmapDump (text : String)
  deriving DecidableEq, Repr

namespace Event

def severity : Event → Severity
  | .bitmapDump _ => .info
  | _ => .warning

/-- Whether the event is a warning. -/
def isWarning (e : Event) : Bool := e.severity == .warning

def kind : Event → String
  | .addressRejected .. => "address_rejected"
  | .invalidIndexReference .. => "invalid_index_reference"
  | .pageCountMismatch .. => "page_count_mismatch"
  | .itemTotalMismatch .. => "item_total_mismatch"
  | .bitmapDump _ => "bitmap_dump"

def text : Event → String
  | .addressRejected access reason => s!"{access.label} rejected: {reason.message}"
  | .invalidIndexReference indexPage slot block =>
    s!"index page {indexPage} slot {slot} points at block {block} with offset 0"
  | .pageCountMismatch left right => s!"bitmaps do not track the same number of pages ({left} != {right})"
  | .itemTotalMismatch left right => s!"bitmaps do not track the same number of items ({left} != {right})"
  | .bitmapDump text => text

/-- What an access with this outcome reports. -/
def rejections {α : Type} (access : Access) : Except AddressError α → List Event
  | .ok _ => []
  | .error reason => [.addressRejected access reason]

end Event

end Occupancy
