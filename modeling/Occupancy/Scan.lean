import Occupancy.Bitmap
import Occupancy.Event
import Occupancy.HeapPage
import Occupancy.IndexPage
/-!
# Marking the items of heap and index pages

Indexes point only at the heads of version chains. So the scan of a heap page marks every used slot and then
takes the mark off those that go on with a chain; the scan of an index page marks what its entries point at.
Bitmaps filled in these two ways from the same pages can be compared item by item.
-/

namespace Occupancy

/-- A bitmap being filled, the number of accesses that failed so far, and all that was reported. -/
structure Scan where
  bitmap : Bitmap
  errors : Nat := 0
  events : Array Event := #[]
  deriving DecidableEq, Repr

namespace Scan

/-- Reports an event; nothing else changes. -/
def report (s : Scan) (e : Event) : Scan := { s with events := s.events.push e }

/-- Writes the bit of an item; an item without one is an error, and is reported. -/
def write (s : Scan) (page item : Nat) (on : Bool) : Scan :=
  let (bitmap, refusal) := s.bitmap.write page item on
  match refusal with
  | none => { s with bitmap }
  | some reason => { s with bitmap, errors := s.errors + 1 }.report (.addressRejected (.put on) reason)

/-! ## Heap pages -/

/-- Marks the slot if it is used. -/
def markUsed (page : Nat) (v : HeapView) (s : Scan) (slot : Nat) : Scan :=
  if v.isUsed slot then s.write page slot true else s

/-- Takes the mark off the slot if it goes on with a chain. -/
def clearHeapOnly (page : Nat) (v : HeapView) (s : Scan) (slot : Nat) : Scan :=
  if v.isHeapOnly slot then
    match s.bitmap.get page slot with
    | .ok true => s.write page slot false
    | .ok false => s
    | .error reason => s.report (.addressRejected .get reason)
  else s

/-- Registers a heap page and marks the heads of its chains. Each slot is judged by its own flags. -/
def heapPage (s : Scan) (page : Nat) (v : HeapView) : Except RegistrationError Scan :=
  match s.bitmap.refusal? page v.slotCount with
  | some e => .error e
  | none =>
    let slots := List.range v.slotCount
    let s := { s with bitmap := s.bitmap.register v.slotCount }
    .ok (slots.foldl (clearHeapOnly page v) (slots.foldl (markUsed page v) s))

/-- Fills a new bitmap from heap pages. -/
def ofHeap (limits : Limits) (pages : List HeapPage) : Except RegistrationError Scan :=
  pages.zipIdx.foldlM (fun s (page, index) => s.heapPage index page.view)
    { bitmap := Bitmap.blank limits pages.length }

/-! ## Index pages -/

/-- Marks what an index entry points at. -/
def follow (indexPage : Nat) (s : Scan) (entry : HeapTid × Nat) : Scan :=
  let (tid, slot) := entry
  match tid.item? with
  | none =>
    { s with errors := s.errors + 1 }.report (.invalidIndexReference indexPage slot tid.block.toNat)
  | some item => s.write tid.block.toNat item true

def indexPage (s : Scan) (index : Nat) (page : IndexPage) : Scan :=
  page.refs.toList.zipIdx.foldl (follow index) s

/-- Fills a bitmap of the same layout as the heap's from the pages of an index. -/
def ofIndex (heap : Bitmap) (pages : List IndexPage) : Scan :=
  pages.zipIdx.foldl (fun s (page, index) => s.indexPage index page) { bitmap := heap.duplicate }

end Scan

end Occupancy
