import Mathlib
import Occupancy.EventRing
import Occupancy.Proofs.Check
/-!
# What a check reports on the way

Every reference of an index that points at no item is reported, in the order in which it is met, and each bitmap is
dumped once it is filled (`check_events`). Nothing else is reported: on a relation that bitmaps can hold no access
to the heap is refused, and the bitmaps that are compared have one layout.
-/

namespace Occupancy

/-- What is reported of the reference in a slot of an index page, if anything. Offset 0 is that of no slot, whatever the
page. -/
def complaint? (heap : List HeapPage) (indexPage : Nat) (entry : HeapTid × Nat) : Option Event :=
  let (tid, slot) := entry
  let block := tid.block.toNat
  if tid.offset.toNat = 0 then some (.invalidIndexReference indexPage slot block)
  else match heap[block]? with
    | none => some (.addressRejected .set (.pageOutOfRange block heap.length))
    | some page =>
      let item := tid.offset.toNat - 1
      if page.slots.size ≤ item then some (.addressRejected .set (.itemOutOfRange block item page.slots.size))
      else none

/-- What is reported of the references of an index, page by page and slot by slot. -/
def complaints (heap : List HeapPage) (pages : List IndexPage) : List Event :=
  pages.zipIdx.flatMap fun (page, indexPage) => page.refs.toList.zipIdx.filterMap (complaint? heap indexPage)

/-- What is reported of a check with these bitmaps of the heap and of the indexes. -/
def Relation.trace (r : Relation) (format : DumpFormat) (heap : Bitmap) (indexes : List Bitmap) : List Event :=
  let dumps (b : Bitmap) : List Event := if format = .countsOnly then [] else [.bitmapDump (b.render format)]
  dumps heap ++ (r.indexes.zip indexes).flatMap fun (index, b) => complaints r.heap index.pages ++ dumps b

/-! ## References that point at no item -/

variable {heap : List HeapPage} {b : Bitmap}

theorem complaint?_of_laidOut {t : PageTable} (h : t.LaidOut heap) (hc : t.pageCount = heap.length)
    (indexPage : Nat) (entry : HeapTid × Nat) : t.complaint? indexPage entry = complaint? heap indexPage entry := by
  unfold PageTable.complaint? complaint?
  dsimp only
  rw [h, hc]
  by_cases hpage : heap.length ≤ entry.1.block.toNat
  · rw [if_pos hpage, List.getElem?_eq_none hpage]
  · rw [if_neg hpage, List.getElem?_eq_getElem (Nat.lt_of_not_le hpage)]
    rfl

theorem complaints_of_laidOut {t : PageTable} (h : t.LaidOut heap) (hc : t.pageCount = heap.length)
    (pages : List IndexPage) : t.complaints pages.zipIdx = complaints heap pages := by
  have hpage (indexPage : Nat) : t.complaint? indexPage = complaint? heap indexPage :=
    funext (complaint?_of_laidOut h hc indexPage)
  unfold PageTable.complaints complaints
  simp only [hpage]

/-- Every reference that points at no item is one warning. -/
theorem countP_complaints {t : PageTable} (h : t.LaidOut heap) (hc : t.pageCount = heap.length) (ho : t.Ordered)
    (pages : List IndexPage) : (complaints heap pages).countP (·.isWarning) = strayRefs heap pages := by
  rw [← complaints_of_laidOut h hc, ← Scan.strays_of_laidOut h, ← ho.length_complaints]
  exact List.countP_eq_length.2 fun e => PageTable.isWarning_of_mem_complaints

theorem Scan.ofIndex_events (hb : b.Valid) (hl : b.table.LaidOut heap) (hc : b.table.pageCount = heap.length)
    (pages : List IndexPage) : (ofIndex b pages).events.toList = complaints heap pages := by
  have hevents : (ofIndex b pages).events = #[] ++ (b.table.complaints pages.zipIdx).toArray :=
    events_indexPages (s := { bitmap := b.duplicate }) hb.duplicate pages.zipIdx
  rw [hevents, Array.empty_append, complaints_of_laidOut hl hc]

theorem countP_dumps (settings : Settings) (b : Bitmap) : (settings.dumps b).countP (·.isWarning) = 0 := by
  unfold Settings.dumps
  split <;> rfl

/-! ## The whole check -/

theorem Index.events_check {limits : Limits} {s : Scan} (hs : Scan.Filled limits heap.length heap s)
    (settings : Settings) (index : Index) :
    (index.check settings s.bitmap).events =
      complaints heap index.pages ++ settings.dumps (index.check settings s.bitmap).bitmap := by
  have ht : (Scan.ofIndex s.bitmap index.pages).bitmap.table = s.bitmap.table :=
    (Scan.ofIndex_spec hs.valid hs.laidOut index.pages).1.table_eq
  have hevents := Scan.ofIndex_events hs.valid hs.laidOut hs.pageCount_eq index.pages
  unfold Index.check
  dsimp only
  rw [compare_of_table_eq ht, hevents, List.append_nil]

theorem Index.countP_events_check {limits : Limits} {s : Scan} (hs : Scan.Filled limits heap.length heap s)
    (settings : Settings) (index : Index) :
    (index.check settings s.bitmap).events.countP (·.isWarning) = (index.check settings s.bitmap).report.errors := by
  have herrors : (index.check settings s.bitmap).report.errors = strayRefs heap index.pages :=
    (Scan.ofIndex_spec hs.valid hs.laidOut index.pages).1.errors_eq
  rw [Index.events_check hs, List.countP_append, countP_complaints hs.laidOut hs.pageCount_eq hs.valid.ordered,
    countP_dumps, herrors, Nat.add_zero]

namespace Relation

/-- A check reports the dump of the heap and then, for each index, the references that point at no item and the dump of
its bitmap, and it reports nothing else. A ring of any size so counts as many warnings as the report has errors. -/
theorem check_events (r : Relation) (settings : Settings) (hvalid : r.validate settings.limits = .ok ())
    (htotal : slotTotal r.heap < UInt32.size) :
    ∃ o, r.check settings = .ok o ∧ o.indexes.length = r.indexes.length ∧
      o.events = r.trace settings.format o.heap o.indexes ∧
      ∀ capacity, ((EventRing.ofCapacity capacity).emitAll o.events).warnings =
        o.report.heapErrors + (o.report.indexes.map (·.errors)).sum := by
  obtain ⟨s, -, hf, hcheck⟩ := check_eq_outcome hvalid htotal
  have hindexes : (r.indexes.map (·.check settings s.bitmap)).flatMap (·.events) =
      (r.indexes.zip (r.outcome settings s).indexes).flatMap
        fun (index, b) => complaints r.heap index.pages ++ settings.dumps b := by
    simp only [outcome, List.map_map, ← List.map_prod_left_eq_zip, List.flatMap_map]
    exact List.flatMap_congr fun index _ => Index.events_check hf settings index
  refine ⟨_, hcheck, by simp [outcome], ?_, fun capacity => ?_⟩
  · simp only [outcome, hf.events_eq] at hindexes ⊢
    rw [hindexes]
    rfl
  · have hnone : (EventRing.ofCapacity capacity).warnings = 0 := rfl
    have hcount (index : Index) : (index.check settings s.bitmap).events.countP (·.isWarning) =
        (index.check settings s.bitmap).report.errors := Index.countP_events_check hf settings index
    rw [EventRing.warnings_emitAll, hnone]
    simp only [outcome, hf.events_eq, hf.errors_eq, List.countP_append, countP_dumps, List.countP_flatMap,
      List.map_map, Function.comp_def, hcount]
    simp

/-- Three heap pages, one of them without slots. The first index names a page and a slot that are not there and, on
its second page, slot 0; the references of the other are good. -/
def sampleStrays : Relation where
  heap := sample.heap
  indexes := [⟨"by_name", [⟨#[⟨0, 1⟩, ⟨3, 1⟩, ⟨1, 1⟩]⟩, ⟨#[⟨2, 1⟩, ⟨7, 0⟩]⟩]⟩, ⟨"by_date", [⟨#[⟨2, 1⟩, ⟨0, 1⟩]⟩]⟩]

theorem check_events_strays :
    sampleStrays.validate {} = .ok () ∧ slotTotal sampleStrays.heap < UInt32.size ∧
      ∃ o, sampleStrays.check { format := .hex } = .ok o ∧ o.events = sampleStrays.trace .hex o.heap o.indexes ∧
        (o.events.filter (·.isWarning)) =
          [.addressRejected .set (.pageOutOfRange 3 3), .addressRejected .set (.itemOutOfRange 1 0 0),
            .invalidIndexReference 1 1 7] ∧
        ((EventRing.ofCapacity 0).emitAll o.events).warnings = 3 := by
  have hvalid : sampleStrays.validate {} = .ok () := by decide
  have htotal : slotTotal sampleStrays.heap < UInt32.size := by decide
  obtain ⟨o, hcheck, hlength, hevents, hwarnings⟩ := check_events sampleStrays { format := .hex } hvalid htotal
  have herrors : (sampleStrays.check { format := .hex }).map
      (fun o => o.report.heapErrors + (o.report.indexes.map (·.errors)).sum) = .ok 3 := by decide +kernel
  rw [hcheck] at herrors
  refine ⟨hvalid, htotal, o, hcheck, hevents, ?_, (hwarnings 0).trans (Except.ok.inj herrors)⟩
  match o.indexes, hlength, hevents with
  | [first, second], _, hevents =>
    rw [hevents]
    rfl

end Relation

end Occupancy
