import Occupancy.Document
import Occupancy.Relation
/-!
# Heap pages, indexes and settings as JSON

For each type, `toJson` writes every field and `ofJson?` reads a value back.
-/

namespace Occupancy

open Document

/-! ## Heap pages -/

def TupleFlags.toJson (f : TupleFlags) : Json := .text f.text

def TupleFlags.ofJson? (v : Json) : Option TupleFlags := (text? v).bind ofText?

def LineState.ofJson? : Json → Option LineState := choice? ofName?

def HeapSlot.toJson (s : HeapSlot) : Json :=
  .record [("state", .text s.state.name), ("flags", s.flags.toJson)]

def HeapSlot.ofJson? (v : Json) : Option HeapSlot := do
  let [state, flags] ← fields? ["state", "flags"] v | none
  return { state := ← required LineState.ofJson? state, flags := ← optional .none TupleFlags.ofJson? flags }

def HeapPage.toJson (p : HeapPage) : Json := .record [("slots", .array (p.slots.toList.map HeapSlot.toJson))]

def HeapPage.ofJson? (v : Json) : Option HeapPage := do
  let [slots] ← fields? ["slots"] v | none
  return { slots := ← required (array? HeapSlot.ofJson?) slots }

/-! ## Index pages -/

def HeapTid.toJson (tid : HeapTid) : Json :=
  .record [("block", .nat tid.block.toNat), ("offset", .nat tid.offset.toNat)]

def HeapTid.ofJson? (v : Json) : Option HeapTid := do
  let [block, offset] ← fields? ["block", "offset"] v | none
  return {
    block := UInt32.ofNat (← required (natBelow? UInt32.size) block)
    offset := UInt16.ofNat (← required (natBelow? UInt16.size) offset) }

def IndexPage.toJson (p : IndexPage) : Json := .record [("refs", .array (p.refs.toList.map HeapTid.toJson))]

def IndexPage.ofJson? (v : Json) : Option IndexPage := do
  let [refs] ← fields? ["refs"] v | none
  return { refs := ← required (array? HeapTid.ofJson?) refs }

/-! ## Relations -/

def Index.toJson (i : Index) : Json :=
  .record [("name", .text i.name), ("pages", .array (i.pages.map IndexPage.toJson))]

def Index.ofJson? (v : Json) : Option Index := do
  let [name, pages] ← fields? ["name", "pages"] v | none
  return { name := ← required text? name, pages := ← optional [] (list? IndexPage.ofJson?) pages }

def Relation.toJson (r : Relation) : Json :=
  .record [("heap", .array (r.heap.map HeapPage.toJson)), ("indexes", .array (r.indexes.map Index.toJson))]

def Relation.ofJson? (v : Json) : Option Relation := do
  let [heap, indexes] ← fields? ["heap", "indexes"] v | none
  return {
    heap := ← optional [] (list? HeapPage.ofJson?) heap
    indexes := ← optional [] (list? Index.ofJson?) indexes }

/-! ## Settings -/

def DumpFormat.toJson (f : DumpFormat) : Json := .text f.name

def DumpFormat.ofJson? : Json → Option DumpFormat := choice? ofName?

def Limits.toJson (l : Limits) : Json :=
  .record [("max_items_per_page", .nat l.maxItems), ("growth_chunk_bytes", .nat l.chunkBytes)]

def Limits.ofJson? (v : Json) : Option Limits := do
  let [maxItems, chunkBytes] ← fields? ["max_items_per_page", "growth_chunk_bytes"] v | none
  let default : Limits := {}
  return {
    maxItems := ← optional default.maxItems (natBelow? UInt32.size) maxItems
    chunkBytes := ← optional default.chunkBytes (natBelow? UInt64.size) chunkBytes }

def Settings.toJson (s : Settings) : Json :=
  .record [("format", s.format.toJson), ("bitmap", s.limits.toJson)]

def Settings.ofJson? (v : Json) : Option Settings := do
  let [format, limits] ← fields? ["format", "bitmap"] v | none
  return {
    format := ← optional .countsOnly DumpFormat.ofJson? format
    limits := ← optional {} Limits.ofJson? limits }

end Occupancy
