import Occupancy.Bitmap.Compare
/-!
# What a check reports

A report has an entry for every index. A check is passed when each index marks just the items that the heap
marks and nothing on the way was out of order.
-/

namespace Occupancy

structure IndexReport where
  name : String
  indexPages : Nat
  /-- The items that the index points at. -/
  entries : Nat
  /-- The references that point at no item. -/
  errors : Nat
  differingItems : Nat
  /-- The chain heads of the heap that the index does not point at. -/
  missingFromIndex : List ItemRef
  /-- The items that the index points at and that head no chain. -/
  missingFromHeap : List ItemRef
  deriving DecidableEq, Repr

def IndexReport.isConsistent (r : IndexReport) : Bool := r.errors == 0 && r.differingItems == 0

structure Report where
  heapPages : Nat
  /-- The line pointers of all heap pages. -/
  heapSlots : Nat
  /-- The heads of version chains. -/
  heapRows : Nat
  heapErrors : Nat
  indexes : List IndexReport
  deriving DecidableEq, Repr

def Report.isConsistent (r : Report) : Bool := r.heapErrors == 0 && r.indexes.all (·.isConsistent)

end Occupancy
