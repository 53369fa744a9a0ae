import Mathlib
import Occupancy.Proofs.References
/-!
# What scans mark

The scan of a heap marks the heads of version chains (`ofHeap_spec`) and the scan of an index the items that
its references point at (`ofIndex_spec`). Every access to an item that there is succeeds, so a heap scan meets
no error and an index scan one for each reference that points at no item.
-/

namespace Occupancy

/-! ## Heads and targets -/

/-- The slot is used and does not go on with a chain that begins elsewhere. -/
def HeapSlot.IsHead (s : HeapSlot) : Prop :=
  s.state ≠ .unused ∧ ¬ (s.state = .normal ∧ s.flags.contains .heapOnly = true)

/-- The heads of the version chains of a heap. -/
def heads (heap : List HeapPage) : Set ItemRef :=
  {x | ∃ page slot, heap[x.page]? = some page ∧ page.slots[x.item]? = some slot ∧ slot.IsHead}

/-- The item that a reference points at, if the heap has it. -/
def HeapTid.target? (heap : List HeapPage) (tid : HeapTid) : Option ItemRef :=
  match heap[tid.block.toNat]? with
  | none => none
  | some page =>
    if 1 ≤ tid.offset.toNat ∧ tid.offset.toNat ≤ page.slots.size then
      some ⟨tid.block.toNat, tid.offset.toNat - 1⟩
    else none

/-- The items that an index points at. -/
def targets (heap : List HeapPage) (index : List IndexPage) : Set ItemRef :=
  {x | ∃ page ∈ index, ∃ tid ∈ page.refs, tid.target? heap = some x}

/-- The number of references that point at no item. -/
def strayRefs (heap : List HeapPage) (index : List IndexPage) : Nat :=
  (index.flatMap (·.refs.toList)).countP fun tid => (tid.target? heap).isNone

def slotTotal (heap : List HeapPage) : Nat := (heap.map (·.slots.size)).sum

/-- The registered pages are those of the heap. -/
def PageTable.LaidOut (t : PageTable) (heap : List HeapPage) : Prop :=
  ∀ page, t.items? page = heap[page]?.map (·.slots.size)

theorem PageTable.LaidOut.target?_eq {t : PageTable} {heap : List HeapPage} (h : t.LaidOut heap) (tid : HeapTid) :
    t.target? tid = tid.target? heap := by
  unfold PageTable.target? HeapTid.target?
  rw [h]
  cases heap[tid.block.toNat]? <;> rfl

namespace Scan

variable {s : Scan} {b : Bitmap} {errors : Nat}

/-- The scan works on `b` and has met so many errors: the marks of items apart, the bitmap is as it was. -/
structure Over (s : Scan) (b : Bitmap) (errors : Nat) : Prop where
  valid : s.bitmap.Valid
  table_eq : s.bitmap.table = b.table
  maxItems_eq : s.bitmap.maxItems = b.maxItems
  capacity_eq : s.bitmap.capacity = b.capacity
  tail_eq : ∀ k, b.table.total ≤ k → s.bitmap.bit k = b.bit k
  errors_eq : s.errors = errors

theorem over_self (h : s.bitmap.Valid) : s.Over s.bitmap s.errors := ⟨h, rfl, rfl, rfl, fun _ _ => rfl, rfl⟩

theorem Over.zeroTail (h : s.Over b errors) (hz : b.ZeroTail) : s.bitmap.ZeroTail := by
  intro k hk
  rw [h.table_eq] at hk
  rw [h.tail_eq k hk]
  exact hz k hk

/-! ## Writing the bit of an item -/

theorem Over.write_eq (h : s.Over b errors) {page item : Nat} (hi : b.table.Has page item) (on : Bool) :
    s.write page item on = { s with bitmap := s.bitmap.put (s.bitmap.place page item) on } := by
  rw [← h.table_eq] at hi
  rw [write, h.valid.write_of_has hi]

theorem Over.write (h : s.Over b errors) {page item : Nat} (hi : b.table.Has page item) (on : Bool) :
    (s.write page item on).Over b errors := by
  rw [h.write_eq hi]
  have hi' : s.bitmap.table.Has page item := by rwa [h.table_eq]
  refine ⟨h.valid.put _ on, h.table_eq, h.maxItems_eq, ?_, fun k hk => ?_, h.errors_eq⟩
  · exact (s.bitmap.capacity_put _ on).trans h.capacity_eq
  · -- an item has its bit below the total
    have hlt := h.valid.ordered.offset_lt_total hi'
    rw [h.table_eq] at hlt
    rw [h.valid.bit_put_place hi', if_neg (by rw [h.table_eq]; omega)]
    exact h.tail_eq k hk

theorem Over.isMarked_write (h : s.Over b errors) {page item : Nat} (hi : b.table.Has page item) (on : Bool)
    (p i : Nat) :
    (s.write page item on).bitmap.isMarked p i = if p = page ∧ i = item then on else s.bitmap.isMarked p i := by
  rw [h.write_eq hi]
  rw [← h.table_eq] at hi
  exact h.valid.isMarked_put hi on p i

/-! ## Going through the slots of a page -/

/-- A step that makes of the mark of its slot what `mark` says, and changes and reports nothing else. -/
structure Touches (b : Bitmap) (page : Nat) (mark : Nat → Bool → Bool) (step : Scan → Nat → Scan) : Prop where
  sound {s errors slot} : s.Over b errors → b.table.Has page slot → (step s slot).Over b errors
  events_eq {s errors slot} : s.Over b errors → b.table.Has page slot → (step s slot).events = s.events
  isMarked_eq {s errors slot} : s.Over b errors → b.table.Has page slot → ∀ p i,
    (step s slot).bitmap.isMarked p i =
      if p = page ∧ i = slot then mark i (s.bitmap.isMarked p i) else s.bitmap.isMarked p i

theorem touches_markUsed (b : Bitmap) (page : Nat) (v : HeapView) :
    Touches b page (fun slot old => old || v.isUsed slot) (markUsed page v) where
  sound h hi := by
    unfold markUsed
    split
    · exact h.write hi true
    · exact h
  events_eq h hi := by
    unfold markUsed
    split
    · rw [h.write_eq hi]
    · rfl
  isMarked_eq {s errors slot} h hi p i := by
    unfold markUsed
    by_cases hpi : p = page ∧ i = slot
    · obtain ⟨rfl, rfl⟩ := hpi
      cases hu : v.isUsed i
      · simp
      · simp [h.isMarked_write hi]
    · rw [if_neg hpi]
      split
      · rw [h.isMarked_write hi, if_neg hpi]
      · rfl

theorem Over.get_eq (h : s.Over b errors) {page item : Nat} (hi : b.table.Has page item) :
    s.bitmap.get page item = .ok (s.bitmap.isMarked page item) := by
  rw [← h.table_eq] at hi
  simp only [Bitmap.isMarked, Bitmap.get, h.valid.locate_of_has hi, Except.map]

theorem Over.clearHeapOnly_eq (h : s.Over b errors) {page slot : Nat} (hi : b.table.Has page slot) (v : HeapView) :
    clearHeapOnly page v s slot =
      if v.isHeapOnly slot && s.bitmap.isMarked page slot then s.write page slot false else s := by
  unfold clearHeapOnly
  rw [h.get_eq hi]
  cases v.isHeapOnly slot <;> cases s.bitmap.isMarked page slot <;> rfl

theorem touches_clearHeapOnly (b : Bitmap) (page : Nat) (v : HeapView) :
    Touches b page (fun slot old => old && !v.isHeapOnly slot) (clearHeapOnly page v) where
  sound h hi := by
    rw [h.clearHeapOnly_eq hi v]
    split
    · exact h.write hi false
    · exact h
  events_eq h hi := by
    rw [h.clearHeapOnly_eq hi v]
    split
    · rw [h.write_eq hi]
    · rfl
  isMarked_eq {s errors slot} h hi p i := by
    rw [h.clearHeapOnly_eq hi v]
    by_cases hpi : p = page ∧ i = slot
    · obtain ⟨rfl, rfl⟩ := hpi
      cases hh : v.isHeapOnly i <;> cases hm : s.bitmap.isMarked p i <;> simp [h.isMarked_write hi, hm]
    · rw [if_neg hpi]
      split
      · rw [h.isMarked_write hi, if_neg hpi]
      · rfl

/-- Where doing it twice makes no difference, a step taken at every slot makes its change to each of them. -/
theorem Touches.foldl {page : Nat} {mark : Nat → Bool → Bool} {step : Scan → Nat → Scan}
    (ht : Touches b page mark step) (hmark : ∀ slot old, mark slot (mark slot old) = mark slot old)
    (h : s.Over b errors) {slots : List Nat} (hs : ∀ slot ∈ slots, b.table.Has page slot) :
    (slots.foldl step s).Over b errors ∧ (slots.foldl step s).events = s.events ∧
    ∀ p i, (slots.foldl step s).bitmap.isMarked p i =
      if p = page ∧ i ∈ slots then mark i (s.bitmap.isMarked p i) else s.bitmap.isMarked p i := by
  induction slots generalizing s with
  | nil => exact ⟨h, rfl, fun p i => by simp⟩
  | cons slot slots ih =>
    obtain ⟨hslot, hs⟩ := List.forall_mem_cons.1 hs
    obtain ⟨ho, he, hm⟩ := ih (ht.sound h hslot) hs
    refine ⟨ho, he.trans (ht.events_eq h hslot), fun p i => ?_⟩
    rw [List.foldl_cons, hm, ht.isMarked_eq h hslot]
    by_cases hp : p = page <;> by_cases hi : i = slot <;> by_cases hmem : i ∈ slots <;> simp [hp, hi, hmem, hmark]

/-- All slots of a page that is registered can be reached, so nothing is counted or reported. -/
theorem heapPage_over (hvalid : s.bitmap.Valid) (v : HeapView)
    (hr : s.bitmap.refusal? s.bitmap.table.registered v.slotCount = none) :
    ∃ s', s.heapPage s.bitmap.table.registered v = .ok s' ∧
      s'.Over (s.bitmap.register v.slotCount) s.errors ∧ s'.events = s.events ∧
      ∀ p i, s'.bitmap.isMarked p i =
        if p = s.bitmap.table.registered ∧ i < v.slotCount then
          ((s.bitmap.register v.slotCount).isMarked p i || v.isUsed i) && !v.isHeapOnly i
        else (s.bitmap.register v.slotCount).isMarked p i := by
  let s₀ : Scan := { s with bitmap := s.bitmap.register v.slotCount }
  have h₀ : s₀.Over s₀.bitmap s.errors := over_self (hvalid.register hr)
  have hslots : ∀ slot ∈ List.range v.slotCount, s₀.bitmap.table.Has s.bitmap.table.registered slot :=
    fun slot hslot => (PageTable.has_push ..).2 (.inr ⟨rfl, List.mem_range.1 hslot⟩)
  obtain ⟨h₁, he₁, hm₁⟩ := (touches_markUsed ..).foldl (fun _ _ => by simp) h₀ hslots
  obtain ⟨h₂, he₂, hm₂⟩ := (touches_clearHeapOnly ..).foldl (fun _ _ => by simp) h₁ hslots
  refine ⟨_, by rw [Scan.heapPage, hr], h₂, he₂.trans he₁, fun p i => ?_⟩
  rw [hm₂, hm₁]
  by_cases hi : p = s.bitmap.table.registered ∧ i < v.slotCount <;> simp only [hi, List.mem_range] <;> rfl

/-- The page gets the marks of its heads, where it had none, and no other page changes. -/
theorem heapPage_spec (hvalid : s.bitmap.Valid) (hzero : s.bitmap.ZeroTail) (v : HeapView)
    (hr : s.bitmap.refusal? s.bitmap.table.registered v.slotCount = none) :
    ∃ s', s.heapPage s.bitmap.table.registered v = .ok s' ∧
      s'.Over (s.bitmap.register v.slotCount) s.errors ∧ s'.events = s.events ∧
      ∀ p i, s'.bitmap.isMarked p i =
        if p = s.bitmap.table.registered then decide (i < v.slotCount) && (v.isUsed i && !v.isHeapOnly i)
        else s.bitmap.isMarked p i := by
  obtain ⟨s', hs', ho, he, hm⟩ := heapPage_over hvalid v hr
  refine ⟨s', hs', ho, he, fun p i => ?_⟩
  -- the new page is registered with no mark
  rw [hm, hvalid.isMarked_register hr, hzero _ (Nat.le_add_right ..), Bool.and_false]
  by_cases hp : p = s.bitmap.table.registered
  · by_cases hi : i < v.slotCount <;> simp [hp, hi]
  · simp [hp]

/-! ## Marking a heap -/

theorem isHead_iff {slot : HeapSlot} : slot.IsHead ↔ (slot.state.isUsed && !slot.isHeapOnly) = true := by
  cases h : slot.state <;>
    simp [HeapSlot.IsHead, HeapSlot.isHeapOnly, LineState.isUsed, LineState.hasTuple, h]

theorem view_marks_iff (page : HeapPage) (item : Nat) :
    (decide (item < page.view.slotCount) && (page.view.isUsed item && !page.view.isHeapOnly item)) = true ↔
      ∃ slot, page.slots[item]? = some slot ∧ slot.IsHead := by
  simp only [HeapPage.view, isHead_iff]
  by_cases hi : item < page.slots.size
  · simp [hi]
  · simp [hi]

theorem mem_heads_append {pages : List HeapPage} {page : HeapPage} {x : ItemRef} :
    x ∈ heads (pages ++ [page]) ↔
      if x.page = pages.length then ∃ slot, page.slots[x.item]? = some slot ∧ slot.IsHead else x ∈ heads pages := by
  simp only [heads, Set.mem_ofPred_eq]
  split
  · next hp => simp [hp]
  · next hp =>
    have hget : (pages ++ [page])[x.page]? = pages[x.page]? := by
      rcases Nat.lt_or_gt_of_ne hp with hlt | hgt
      · rw [List.getElem?_append_left hlt]
      · rw [List.getElem?_eq_none (by simpa using hgt), List.getElem?_eq_none (Nat.le_of_lt hgt)]
    rw [hget]

/-- The scan has gone through `pages`. -/
structure Filled (limits : Limits) (pageCount : Nat) (pages : List HeapPage) (s : Scan) : Prop where
  valid : s.bitmap.Valid
  zeroTail : s.bitmap.ZeroTail
  maxItems_eq : s.bitmap.maxItems = limits.maxItems
  pageCount_eq : s.bitmap.table.pageCount = pageCount
  registered_eq : s.bitmap.table.registered = pages.length
  total_eq : s.bitmap.table.total = slotTotal pages
  laidOut : s.bitmap.table.LaidOut pages
  marks_eq : s.bitmap.marks = heads pages
  errors_eq : s.errors = 0
  events_eq : s.events = #[]

theorem filled_blank (limits : Limits) (pageCount : Nat) :
    Filled limits pageCount [] { bitmap := Bitmap.blank limits pageCount } where
  valid := Bitmap.valid_blank ..
  zeroTail := Bitmap.zeroTail_blank limits pageCount
  maxItems_eq := rfl
  pageCount_eq := rfl
  registered_eq := rfl
  total_eq := rfl
  laidOut page := by simp [PageTable.items?, PageTable.range?, Bitmap.blank]
  marks_eq := by
    ext x
    rw [Bitmap.mem_marks, Bitmap.isMarked_of_bits (Bitmap.bit_blank limits pageCount)]
    simp [heads]
  errors_eq := rfl
  events_eq := rfl

theorem Filled.heapPage {limits : Limits} {pageCount : Nat} {pages : List HeapPage} {page : HeapPage}
    (h : Filled limits pageCount pages s) (hpage : pages.length < pageCount)
    (hitems : page.slots.size ≤ limits.maxItems) (htotal : slotTotal (pages ++ [page]) < UInt32.size) :
    ∃ s', s.heapPage pages.length page.view = .ok s' ∧ Filled limits pageCount (pages ++ [page]) s' := by
  have hsum : slotTotal (pages ++ [page]) = s.bitmap.table.total + page.slots.size := by
    rw [h.total_eq]
    simp [slotTotal]
  have hr : s.bitmap.refusal? s.bitmap.table.registered page.view.slotCount = none := by
    refine (s.bitmap.refusal?_eq_none_iff _ _).2 ⟨?_, ?_, rfl, ?_⟩
    · rwa [h.registered_eq, h.pageCount_eq]
    · rwa [h.maxItems_eq]
    · rwa [hsum] at htotal
  obtain ⟨s', hs', ho, he, hm⟩ := heapPage_spec h.valid h.zeroTail page.view hr
  have ht : s'.bitmap.table = s.bitmap.table.push page.slots.size := ho.table_eq
  rw [h.registered_eq] at hs' hm
  refine ⟨s', hs', ?_⟩
  refine ⟨ho.valid, ho.zeroTail (Bitmap.zeroTail_register h.zeroTail _), ho.maxItems_eq.trans h.maxItems_eq, ?_, ?_,
    ?_, fun p => ?_, ?_, ho.errors_eq.trans h.errors_eq, he.trans h.events_eq⟩
  · rw [ht]
    exact h.pageCount_eq
  · rw [ht, PageTable.registered_push, h.registered_eq, List.length_append, List.length_singleton]
  · rw [ht, PageTable.total_push, hsum]
  · rw [ht, PageTable.items?_push, h.registered_eq, h.laidOut]
    split
    · next hp => simp [hp]
    · next hp =>
      rcases Nat.lt_or_gt_of_ne hp with hlt | hgt
      · rw [List.getElem?_append_left hlt]
      · rw [List.getElem?_eq_none (Nat.le_of_lt hgt), List.getElem?_eq_none (by simpa using hgt)]
  · ext x
    rw [mem_heads_append, Bitmap.mem_marks, hm]
    split
    · exact view_marks_iff page x.item
    · rw [← h.marks_eq, Bitmap.mem_marks]

/-- A heap with room for every page is scanned to its end, without an error. -/
theorem ofHeap_spec {limits : Limits} {heap : List HeapPage}
    (hitems : ∀ page ∈ heap, page.slots.size ≤ limits.maxItems) (htotal : slotTotal heap < UInt32.size) :
    ∃ s, ofHeap limits heap = .ok s ∧ Filled limits heap.length heap s := by
  -- the pages of `done` are scanned, those of `rest` are still to come
  have go (rest done : List HeapPage) (s : Scan) (hs : Filled limits heap.length done s)
      (heq : done ++ rest = heap) :
      ∃ s', (rest.zipIdx done.length).foldlM (fun s x => s.heapPage x.2 x.1.view) s = .ok s' ∧
        Filled limits heap.length heap s' := by
    induction rest generalizing done s with
    | nil =>
      rw [List.append_nil] at heq
      subst heq
      exact ⟨s, rfl, hs⟩
    | cons page rest ih =>
      have hmem : page ∈ heap := by simp [← heq]
      have hlen : done.length < heap.length := by simp [← heq]
      have hsum : slotTotal (done ++ [page]) < UInt32.size := by
        refine Nat.lt_of_le_of_lt ?_ htotal
        simp [slotTotal, ← heq]
      obtain ⟨s₁, hs₁, hf₁⟩ := hs.heapPage hlen (hitems page hmem) hsum
      obtain ⟨s', hs', hf'⟩ := ih (done ++ [page]) s₁ hf₁ (by simpa using heq)
      refine ⟨s', ?_, hf'⟩
      rw [List.length_append, List.length_singleton] at hs'
      simp only [List.zipIdx_cons, List.foldlM_cons, hs₁]
      exact hs'
  exact go heap [] _ (filled_blank limits heap.length) rfl

/-! ## Marking what an index points at -/

section index

variable {heap : List HeapPage}

theorem over_indexPages (hv : s.bitmap.Valid) (pages : List (IndexPage × Nat)) :
    (s.indexPages pages).Over s.bitmap (s.errors + s.bitmap.table.strays (references pages)) := by
  have hgains := gains_indexPages hv pages
  refine ⟨?_, hgains.table_eq, hgains.maxItems_eq, hgains.capacity_eq, fun k hk => ?_, errors_indexPages hv pages⟩
  · rw [bitmap_indexPages hv]
    exact hv.markAll _
  · rw [Bool.eq_iff_iff, hgains.bit_iff, or_iff_left]
    rintro ⟨tid, -, x, htarget, rfl⟩
    have hhas := (PageTable.target?_eq_some_iff.1 htarget).2.2
    exact absurd (hv.ordered.offset_lt_total hhas) (Nat.not_lt.2 hk)

theorem ofIndex_eq (b : Bitmap) (pages : List IndexPage) :
    ofIndex b pages = ({ bitmap := b.duplicate } : Scan).indexPages pages.zipIdx := rfl

theorem references_zipIdx (pages : List IndexPage) (index : Nat) :
    references (pages.zipIdx index) = pages.flatMap (·.refs.toList) := by
  conv_rhs => rw [← List.zipIdx_map_fst index pages, List.flatMap_map]
  rfl

theorem strays_of_laidOut {t : PageTable} (hl : t.LaidOut heap) (pages : List IndexPage) :
    t.strays (references pages.zipIdx) = strayRefs heap pages := by
  simp only [PageTable.strays, references_zipIdx, strayRefs, hl.target?_eq]

/-- An index is scanned over a cleared bitmap with the layout of the heap. -/
theorem ofIndex_spec (hb : b.Valid) (hl : b.table.LaidOut heap) (index : List IndexPage) :
    (ofIndex b index).Over b.duplicate (strayRefs heap index) ∧
    (ofIndex b index).bitmap.marks = targets heap index := by
  have htable : b.duplicate.table = b.table := rfl
  have hover := over_indexPages (s := { bitmap := b.duplicate }) hb.duplicate index.zipIdx
  have hgains := gains_indexPages (s := { bitmap := b.duplicate }) hb.duplicate index.zipIdx
  rw [htable, strays_of_laidOut hl, Nat.zero_add, ← ofIndex_eq] at hover
  refine ⟨hover, ?_⟩
  ext x
  rw [Bitmap.mem_marks, ofIndex_eq, hgains.isMarked_iff, Bitmap.isMarked_duplicate, htable]
  simp only [Bool.false_eq_true, false_or, references_zipIdx, List.mem_flatMap, Array.mem_toList_iff, hl.target?_eq,
    targets, Set.mem_ofPred_eq]
  constructor
  · rintro ⟨tid, ⟨page, hpage, htid⟩, htarget⟩
    exact ⟨page, hpage, tid, htid, htarget⟩
  · rintro ⟨page, hpage, tid, htid, htarget⟩
    exact ⟨tid, ⟨page, hpage, htid⟩, htarget⟩

end index

end Scan

end Occupancy
