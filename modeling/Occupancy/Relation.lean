import Occupancy.Bitmap.Dump
import Occupancy.Report
import Occupancy.Scan
/-!
# Checking the indexes of a relation against its heap

The heap fills one bitmap and each index another of the same layout; an index is consistent with the heap when
the two agree. `check` refuses at the outset a relation that no bitmap can hold.
-/

namespace Occupancy

structure Index where
  name : String
  pages : List IndexPage := []
  deriving DecidableEq, Repr

/-- A heap and the indexes on it. -/
structure Relation where
  heap : List HeapPage := []
  indexes : List Index := []
  deriving DecidableEq, Repr

/-- How a check is done. -/
structure Settings where
  /-- How bitmaps are dumped; they are not when only counts are asked for. -/
  format : DumpFormat := .countsOnly
  limits : Limits := {}
  deriving DecidableEq, Repr, Inhabited

/-- Why no bitmap can hold a relation. -/
inductive RelationFault where
  | tooManyPages (count : Nat)
  | largePage (page slots maxItems : Nat)
  deriving DecidableEq, Repr

def RelationFault.message : RelationFault → String
  | .tooManyPages count => s!"{count} heap pages exceed the addressable page count"
  | .largePage page slots maxItems => s!"heap page {page} has {slots} slots (max {maxItems})"

/-- A report, and the bitmaps and events behind it. -/
structure Outcome where
  report : Report
  heap : Bitmap
  /-- One bitmap for each index, in their order. -/
  indexes : List Bitmap
  events : List Event
  deriving DecidableEq, Repr

/-- The check of one index: its report, its bitmap and its events. -/
structure IndexOutcome where
  report : IndexReport
  bitmap : Bitmap
  events : List Event
  deriving DecidableEq, Repr

/-- Why a check did not take place. -/
inductive CheckError where
  | invalid (fault : RelationFault)
  | registration (e : RegistrationError)
  deriving DecidableEq, Repr

/-- The dump of a bitmap, unless only counts are asked for. -/
def Settings.dumps (s : Settings) (b : Bitmap) : List Event :=
  if s.format = .countsOnly then [] else [b.dump s.format]

/-- The items in a list of differences that lie on one side. -/
def ItemDiff.on (side : Side) (diffs : List ItemDiff) : List ItemRef :=
  (diffs.filter (·.side = side)).map (·.toItemRef)

/-- Checks an index against the bitmap of the heap. -/
def Index.check (settings : Settings) (heap : Bitmap) (index : Index) : IndexOutcome :=
  let scan := Scan.ofIndex heap index.pages
  let (differingItems, mismatches) := heap.compare scan.bitmap
  let diffs := heap.diff scan.bitmap
  { report := {
      name := index.name
      indexPages := index.pages.length
      entries := scan.bitmap.count
      errors := scan.errors
      differingItems
      missingFromIndex := ItemDiff.on .onlyInLeft diffs
      missingFromHeap := ItemDiff.on .onlyInRight diffs }
    bitmap := scan.bitmap
    events := scan.events.toList ++ settings.dumps scan.bitmap ++ mismatches }

namespace Relation

/-- Refuses a relation with too many heap pages, or with a heap page of too many slots. -/
def validate (r : Relation) (limits : Limits) : Except RelationFault Unit :=
  if UInt32.size ≤ r.heap.length then .error (.tooManyPages r.heap.length)
  else match r.heap.zipIdx.find? fun (page, _) => limits.maxItems < page.slots.size with
    | some (page, index) => .error (.largePage index page.slots.size limits.maxItems)
    | none => .ok ()

/-- Checks every index against the heap. Heap pages that cannot be registered end the check. -/
def compareIndexes (r : Relation) (settings : Settings) : Except RegistrationError Outcome :=
  (Scan.ofHeap settings.limits r.heap).map fun scan =>
    let heap := scan.bitmap
    let indexes := r.indexes.map (·.check settings heap)
    { report := {
        heapPages := heap.table.pageCount
        heapSlots := heap.table.total
        heapRows := heap.count
        heapErrors := scan.errors
        indexes := indexes.map (·.report) }
      heap
      indexes := indexes.map (·.bitmap)
      events := scan.events.toList ++ settings.dumps heap ++ indexes.flatMap (·.events) }

/-- Checks a relation that a bitmap can hold. -/
def check (r : Relation) (settings : Settings) : Except CheckError Outcome :=
  match r.validate settings.limits with
  | .error fault => .error (.invalid fault)
  | .ok () => (r.compareIndexes settings).mapError .registration

end Relation

end Occupancy
