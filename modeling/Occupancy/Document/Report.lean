import Occupancy.Json
import Occupancy.Event
import Occupancy.Report
/-!
# Reports and events as JSON

Fields stand in the order of their declaration. A value of a type with several forms is an object whose one
member is named for the form.
-/

namespace Occupancy

/-! ## Reports -/

def ItemRef.toJson (r : ItemRef) : Json := .record [("page", .nat r.page), ("item", .nat r.item)]

def IndexReport.toJson (r : IndexReport) : Json :=
  .record [
    ("name", .text r.name),
    ("index_pages", .nat r.indexPages),
    ("entries", .nat r.entries),
    ("errors", .nat r.errors),
    ("differing_items", .nat r.differingItems),
    ("missing_from_index", .array (r.missingFromIndex.map ItemRef.toJson)),
    ("missing_from_heap", .array (r.missingFromHeap.map ItemRef.toJson))]

def Report.toJson (r : Report) : Json :=
  .record [
    ("heap_pages", .nat r.heapPages),
    ("heap_slots", .nat r.heapSlots),
    ("heap_rows", .nat r.heapRows),
    ("heap_errors", .nat r.heapErrors),
    ("indexes", .array (r.indexes.map IndexReport.toJson))]

/-! ## Events -/

/-- A value in the form `form`, with its fields. -/
def Json.tagged (form : String) (fields : List (String × Json)) : Json := .record [(form, .record fields)]

def AddressError.toJson : AddressError → Json
  | .pageOutOfRange page pageCount =>
    .tagged "PageOutOfRange" [("page", .nat page), ("page_count", .nat pageCount)]
  | .pageNotRegistered page registered =>
    .tagged "PageNotRegistered" [("page", .nat page), ("registered", .nat registered)]
  | .itemOutOfRange page item items =>
    .tagged "ItemOutOfRange" [("page", .nat page), ("item", .nat item), ("items", .nat items)]
  | .byteOutOfRange byteIndex usedBytes =>
    .tagged "ByteOutOfRange" [("byte_index", .nat byteIndex), ("used_bytes", .nat usedBytes)]

def Access.form : Access → String
  | .get => "Get"
  | .set => "Set"
  | .clear => "Clear"

def Event.toJson : Event → Json
  | .addressRejected access reason =>
    .tagged "AddressRejected" [("access", .text access.form), ("reason", reason.toJson)]
  | .invalidIndexReference indexPage slot block =>
    .tagged "InvalidIndexReference"
      [("index_page", .nat indexPage), ("slot", .nat slot), ("block", .nat block)]
  | .pageCountMismatch left right => .tagged "PageCountMismatch" [("left", .nat left), ("right", .nat right)]
  | .itemTotalMismatch left right => .tagged "ItemTotalMismatch" [("left", .nat left), ("right", .nat right)]
  | .bitmapDump text => .tagged "BitmapDump" [("text", .text text)]

end Occupancy
