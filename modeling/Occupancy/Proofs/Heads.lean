import Mathlib
import Occupancy.Proofs.Store.Session
/-!
# Heap pages are marked at their heads

The scan of a heap page writes the bits of the used slots and then takes back those of the slots that go on with a
chain. `heapPage_marks_heads` says that this comes to one pass that marks the heads alone, on a page that has just
been registered, and that no bit of another page is touched, nor one past the last item.
-/

namespace Occupancy

/-- The slot is used and does not go on with a chain. A view may call a slot heap-only that is not used. -/
def HeapView.isHead (v : HeapView) (slot : Nat) : Bool := v.isUsed slot && !v.isHeapOnly slot

/-- The heads of the page, as items of page `page`. -/
def HeapView.heads (v : HeapView) (page : Nat) : List ItemRef :=
  ((List.range v.slotCount).filter v.isHead).map fun slot => ⟨page, slot⟩

theorem HeapView.mem_heads {v : HeapView} {page : Nat} {x : ItemRef} :
    x ∈ v.heads page ↔ x.page = page ∧ x.item < v.slotCount ∧ v.isHead x.item = true := by
  obtain ⟨p, i⟩ := x
  simp only [heads, List.mem_map, List.mem_filter, List.mem_range, ItemRef.mk.injEq]
  constructor
  · rintro ⟨slot, ⟨hslot, hhead⟩, rfl, rfl⟩
    exact ⟨rfl, hslot, hhead⟩
  · rintro ⟨rfl, hslot, hhead⟩
    exact ⟨i, ⟨hslot, hhead⟩, rfl, rfl⟩

namespace Bitmap

/-- `b'` is `b` with one more page, whose heads are marked. -/
structure Admits (b : Bitmap) (v : HeapView) (b' : Bitmap) : Prop where
  table_eq : b'.table = b.table.push v.slotCount
  get_slot : ∀ slot < v.slotCount, b'.get b.table.registered slot = .ok (v.isHead slot)
  isMarked_other : ∀ page item, ¬ (page = b.table.registered ∧ item < v.slotCount) →
    b'.isMarked page item = b.isMarked page item
  bit_iff : ∀ k, b'.bit k = true ↔
    b.bit k = true ∨ ∃ slot < v.slotCount, v.isHead slot = true ∧ b.table.total + slot = k
  zeroTail : b'.ZeroTail

variable {b : Bitmap} {v : HeapView}

theorem has_of_mem_heads {x : ItemRef} (h : x ∈ v.heads b.table.registered) :
    (b.register v.slotCount).table.Has x.page x.item := by
  obtain ⟨hpage, hslot, -⟩ := HeapView.mem_heads.1 h
  rw [table_register, PageTable.has_push]
  exact .inr ⟨hpage, hslot⟩

theorem Valid.isMarked_heads (h : b.Valid) (hz : b.ZeroTail)
    (hr : b.refusal? b.table.registered v.slotCount = none) (page item : Nat) :
    ((b.register v.slotCount).markAll (v.heads b.table.registered)).isMarked page item =
      if page = b.table.registered then decide (item < v.slotCount) && v.isHead item else b.isMarked page item := by
  have hmarks := Set.ext_iff.1 ((h.register hr).marks_markAll fun x => has_of_mem_heads (v := v)) ⟨page, item⟩
  rw [mem_marks, Set.mem_union, mem_marks, Set.mem_ofPred_eq, HeapView.mem_heads, h.isMarked_register hr] at hmarks
  rw [Bool.eq_iff_iff, hmarks]
  by_cases hpage : page = b.table.registered
  · simp [hpage, hz _ (Nat.le_add_right ..)]
  · simp [hpage]

theorem Valid.admits (h : b.Valid) (hz : b.ZeroTail) (hr : b.refusal? b.table.registered v.slotCount = none) :
    b.Admits v ((b.register v.slotCount).markAll (v.heads b.table.registered)) where
  table_eq := table_markAll ..
  get_slot slot hslot := by
    have hv := (h.register hr).markAll (v.heads b.table.registered)
    have hhas : ((b.register v.slotCount).markAll (v.heads b.table.registered)).table.Has b.table.registered slot := by
      rw [table_markAll, table_register, PageTable.has_push]
      exact .inr ⟨rfl, hslot⟩
    have hmark := h.isMarked_heads hz hr b.table.registered slot
    rw [hv.isMarked_of_has hhas, if_pos rfl, decide_eq_true hslot, Bool.true_and] at hmark
    rw [get, hv.locate_of_has hhas, Except.map, place, hmark]
  isMarked_other page item hother := by
    rw [h.isMarked_heads hz hr]
    split
    · next hpage =>
      have hout : ¬ b.table.Has page item := fun hi =>
        Nat.lt_irrefl _ (hpage ▸ (PageTable.has_iff.1 hi).1)
      rw [isMarked_of_not_has hout, decide_eq_false fun hslot => hother ⟨hpage, hslot⟩, Bool.false_and]
    · rfl
  bit_iff k := by
    have hstart : (b.table.push v.slotCount).start b.table.registered = b.table.total := by
      rw [PageTable.start_push _ (Nat.le_refl _), ← PageTable.total_eq_start]
    rw [(h.register hr).bit_markAll fun x => has_of_mem_heads, bit_register, table_register]
    refine or_congr_right ⟨?_, ?_⟩
    · rintro ⟨x, hx, hoffset⟩
      obtain ⟨hpage, hslot, hhead⟩ := HeapView.mem_heads.1 hx
      rw [hpage, hstart] at hoffset
      exact ⟨x.item, hslot, hhead, hoffset⟩
    · rintro ⟨slot, hslot, hhead, hoffset⟩
      rw [← hstart] at hoffset
      exact ⟨⟨b.table.registered, slot⟩, HeapView.mem_heads.2 ⟨rfl, hslot, hhead⟩, hoffset⟩
  zeroTail := (h.register hr).zeroTail_markAll (zeroTail_register hz _) fun x => has_of_mem_heads

/-- The two passes over a page come to one that marks its heads. -/
theorem Tidy.heapPage_eq (h : b.Tidy) (hr : b.refusal? b.table.registered v.slotCount = none) (errors : Nat)
    (events : Array Event) :
    (Scan.mk b errors events).heapPage b.table.registered v =
      .ok ⟨(b.register v.slotCount).markAll (v.heads b.table.registered), errors, events⟩ := by
  obtain ⟨s, hs, ho, hevents, hmarks⟩ :=
    Scan.heapPage_spec (s := ⟨b, errors, events⟩) h.valid h.zeroTail v hr
  have hscanned : Edits b s.bitmap := edits_heapPage hs
  have hmarked : Edits b ((b.register v.slotCount).markAll (v.heads b.table.registered)) :=
    (edits_addPage hr).trans (edits_markAll fun x => has_of_mem_heads)
  have htable : s.bitmap.table = ((b.register v.slotCount).markAll (v.heads b.table.registered)).table :=
    ho.table_eq.trans (table_markAll ..).symm
  have hbitmap : s.bitmap = (b.register v.slotCount).markAll (v.heads b.table.registered) := by
    refine (hscanned.tidy h).eq_of_marks (hmarked.tidy h) hscanned.extends hmarked.extends (fun page => ?_)
      fun page item _ => ?_
    · rw [htable]
    · rw [hmarks, h.valid.isMarked_heads h.zeroTail hr]
      rfl
  have herrors := ho.errors_eq
  rw [hs]
  cases s
  dsimp only at hbitmap herrors hevents
  rw [hbitmap, herrors, hevents]

/-- In memory too the page is scanned without an error, and nothing is reported. -/
theorem Tidy.attempt_heapPage (h : b.Tidy) (hr : b.refusal? b.table.registered v.slotCount = none)
    (events : List Event) :
    (Session.Memory.mk b.store events).attempt (Session.Work.heapPage b.table.registered v) =
      (.ok 0, ⟨((b.register v.slotCount).markAll (v.heads b.table.registered)).store, events⟩) := by
  have hdoes := Session.does_heapPage h.valid b.table.registered v events
  have hscan := h.heapPage_eq hr 0 #[]
  rw [hdoes, Operation.next, hscan, List.append_nil]
  rfl

/-! ## One more heap page -/

/-- Whatever was done to a new bitmap, its next heap page is scanned without an error and without a report. The page
is registered, of its items just the heads are marked, and every other item and every bit past the last item is as
it was. Slots may be called heap-only that are not used. -/
theorem heapPage_marks_heads (limits : Limits) (pageCount : Nat) (ops : List Operation) (v : HeapView)
    (hpage : ((blank limits pageCount).operate ops).table.registered < pageCount)
    (hslots : v.slotCount ≤ limits.maxItems)
    (htotal : ((blank limits pageCount).operate ops).table.total + v.slotCount < UInt32.size) :
    let b := (blank limits pageCount).operate ops
    let page := b.table.registered
    let b' := (b.register v.slotCount).markAll (v.heads page)
    (∀ errors events, (Scan.mk b errors events).heapPage page v = .ok ⟨b', errors, events⟩) ∧
    (∀ events, (Session.Memory.mk b.store events).attempt (Session.Work.heapPage page v) =
      (.ok 0, ⟨b'.store, events⟩)) ∧
    b.Admits v b' := by
  intro b page b'
  have hedits : Edits (blank limits pageCount) b := edits_operate _ ops
  have htidy : b.Tidy := hedits.tidy (tidy_blank limits pageCount)
  have hr : b.refusal? page v.slotCount = none := by
    refine (b.refusal?_eq_none_iff page v.slotCount).2 ⟨?_, ?_, rfl, htotal⟩
    · rw [hedits.extends.pageCount_eq]
      exact hpage
    · rw [hedits.extends.maxItems_eq]
      exact hslots
  exact ⟨htidy.heapPage_eq hr, htidy.attempt_heapPage hr, htidy.valid.admits htidy.zeroTail hr⟩

/-- Six slots: two heads, a slot called heap-only that is not used, one that goes on with a chain, a free one and a
head. -/
def sampleChained : HeapView where
  slotCount := 6
  isUsed slot := slot ∈ [0, 1, 3, 5]
  isHeapOnly slot := slot ∈ [2, 3]

theorem heapPage_marks_heads_chained :
    let b := (blank { maxItems := 6, chunkBytes := 1 } 2).operate [.call (.addPage 0 3), .call (.set 0 2 true)]
    let b' := (b.register 6).markAll [⟨1, 0⟩, ⟨1, 1⟩, ⟨1, 5⟩]
    (Scan.mk b 0 #[]).heapPage 1 sampleChained = .ok ⟨b', 0, #[]⟩ ∧
    (Session.Memory.mk b.store []).attempt (Session.Work.heapPage 1 sampleChained) = (.ok 0, ⟨b'.store, []⟩) ∧
    b'.bytes = #[0x1c, 0x01] ∧ b'.ZeroTail := by
  obtain ⟨hscan, hmemory, hadmits⟩ :=
    heapPage_marks_heads { maxItems := 6, chunkBytes := 1 } 2 [.call (.addPage 0 3), .call (.set 0 2 true)]
      sampleChained (by decide +kernel) (by decide) (by decide +kernel)
  exact ⟨hscan 0 #[], hmemory [], by decide +kernel, hadmits.zeroTail⟩

end Bitmap

end Occupancy
