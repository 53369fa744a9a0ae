import Mathlib
import Occupancy.Proofs.Image.Checked
import Occupancy.Proofs.Operation
/-!
# Bitmaps in memory

In memory the number of used bytes is kept beside the buffer, and every index, slice, subtraction and division is
checked: one without a result is a trap. Sums and products of sizes are not: capacities are taken to be below 2⁶⁴.
`operate_sound` says that no run of operations meets a trap, and that the length that is kept stays the one that the
items call for.
-/

namespace Occupancy

/-- A bitmap with the number of its used bytes beside it. -/
structure Store extends Bitmap where
  usedBytes : Nat

def Bitmap.store (b : Bitmap) : Store := { b with usedBytes := b.usedBytes }

namespace Store

inductive Trap where
  | access (trap : Image.Checked.Trap)
  | growth (fault : Capacity.Fault)
  deriving DecidableEq, Repr

abbrev Step (α : Type) := Except Trap α

def index {α : Type} (xs : Array α) (position : Nat) : Step α :=
  match xs[position]? with
  | some x => pure x
  | none => throw (.access (.index position xs.size))

def slice (bytes : Array UInt8) (start stop : Nat) : Step (Array UInt8) :=
  if start ≤ stop ∧ stop ≤ bytes.size then pure (bytes.extract start stop)
  else throw (.access (.slice start stop bytes.size))

def sub (whole part : Nat) : Step Nat :=
  if part ≤ whole then pure (whole - part) else throw (.access (.underflow whole part))

variable (s : Store)

/-! ## Looking up -/

/-- The first bit of a page: where the page before it ends. -/
def start : (page : Nat) → Step Nat
  | 0 => pure 0
  | before + 1 => index s.table.ends before

def range? (page : Nat) : Step (Option (Nat × Nat)) :=
  match s.table.ends[page]? with
  | none => pure none
  | some stop => do
    let start ← s.start page
    return some (start, stop)

def items? (page : Nat) : Step (Option Nat) :=
  match s.table.ends[page]? with
  | none => pure none
  | some stop => do
    let start ← s.start page
    let items ← sub stop start
    return some items

/-- The used bytes. -/
def span : Step (Array UInt8) := slice s.bytes 0 s.usedBytes

def locate (page item : Nat) : Step (Except AddressError BitAddress) :=
  if s.table.pageCount ≤ page then return .error (.pageOutOfRange page s.table.pageCount)
  else match s.table.ends[page]? with
    | none => return .error (.pageNotRegistered page s.table.registered)
    | some stop => do
      let start ← s.start page
      let items := stop - start
      let a : BitAddress := ⟨start + item⟩
      if items ≤ item then return .error (.itemOutOfRange page item items)
      else if s.usedBytes ≤ a.byteIndex then return .error (.byteOutOfRange a.byteIndex s.usedBytes)
      else return .ok a

def get (page item : Nat) : Step (Except AddressError Bool) := do
  match ← s.locate page item with
  | .error reason => return .error reason
  | .ok a =>
    let byte ← index s.bytes a.byteIndex
    return .ok (Byte.bit byte a.bitIndex)

/-! ## Operations -/

/-- The store with the item written; an item without a bit leaves it as it is. -/
def write (page item : Nat) (on : Bool) : Step Store := do
  match ← s.locate page item with
  | .error _ => return s
  | .ok a =>
    let byte ← index s.bytes a.byteIndex
    return { s with bytes := s.bytes.setIfInBounds a.byteIndex (Byte.put byte a.bitIndex on) }

/-- The store with one more page; the buffer grows when the used bytes no longer fit. -/
def register (items : Nat) : Step Store :=
  let table := s.table.push items
  let usedBytes := Capacity.bytesFor table.total
  if s.bytes.size < usedBytes then do
    let capacity ← (Capacity.grown? s.bytes.size usedBytes s.chunk).mapError .growth
    return { s with table, usedBytes, bytes := s.bytes ++ Array.replicate (capacity - s.bytes.size) 0 }
  else return { s with table, usedBytes }

def addPage (page items : Nat) : Step Store :=
  match s.refusal? page items with
  | some _ => return s
  | none => s.register items

def markUsed (page : Nat) (v : HeapView) (s : Store) (slot : Nat) : Step Store :=
  if v.isUsed slot then s.write page slot true else return s

def clearHeapOnly (page : Nat) (v : HeapView) (s : Store) (slot : Nat) : Step Store :=
  if v.isHeapOnly slot then do
    match ← s.get page slot with
    | .ok true => s.write page slot false
    | _ => return s
  else return s

def heapPage (page : Nat) (v : HeapView) : Step Store :=
  match s.refusal? page v.slotCount with
  | some _ => return s
  | none => do
    let slots := List.range v.slotCount
    slots.foldlM (clearHeapOnly page v) (← slots.foldlM (markUsed page v) (← s.register v.slotCount))

def follow (s : Store) (entry : HeapTid × Nat) : Step Store :=
  match entry.1.item? with
  | none => return s
  | some item => s.write entry.1.block.toNat item true

def next : Bitmap.Operation → Store → Step Store
  | .call (.addPage page items), s => s.addPage page items
  | .call (.set page item on), s => s.write page item on
  | .call (.get page item), s => do
    let _ ← s.get page item
    return s
  | .call .reset, s => return { s with bytes := s.bytes.map fun _ => 0 }
  | .call .duplicate, s => return { s with bytes := Array.replicate s.bytes.size 0 }
  | .call .clone, s => return s
  | .heapPage page view, s => s.heapPage page view
  | .indexPage _ page, s => page.refs.toList.zipIdx.foldlM follow s

def operate (ops : List Bitmap.Operation) : Step Store := ops.foldlM (fun s op => next op s) s

/-! ## Lookups meet no trap -/

variable {b : Bitmap}

@[simp] theorem toBitmap_store (b : Bitmap) : b.store.toBitmap = b := rfl

@[simp] theorem usedBytes_store (b : Bitmap) : b.store.usedBytes = b.usedBytes := rfl

theorem index_of_lt {α : Type} {xs : Array α} {position : Nat} (h : position < xs.size) :
    index xs position = pure xs[position] := by
  simp only [index, Array.getElem?_eq_getElem h]

theorem store_start {page : Nat} (h : page < b.table.registered) : b.store.start page = pure (b.table.start page) := by
  cases page with
  | zero => rfl
  | succ before =>
    have hlt : before < b.table.ends.size := Nat.lt_of_succ_lt h
    rw [← PageTable.getElem_ends hlt]
    exact index_of_lt hlt

theorem store_range? (b : Bitmap) (page : Nat) : b.store.range? page = pure (b.table.range? page) := by
  unfold range?
  rw [toBitmap_store]
  rcases Nat.lt_or_ge page b.table.registered with hlt | hge
  · rw [PageTable.getElem?_ends_of_lt hlt, PageTable.range?_of_lt hlt]
    dsimp only
    rw [store_start hlt, pure_bind]
  · rw [PageTable.getElem?_ends_of_ge hge, (PageTable.range?_eq_none_iff _ _).2 hge]

theorem store_items? (hv : b.Valid) (page : Nat) : b.store.items? page = pure (b.table.items? page) := by
  unfold items?
  rw [toBitmap_store]
  rcases Nat.lt_or_ge page b.table.registered with hlt | hge
  · -- a page does not end before it begins
    have hsub : sub (b.table.start (page + 1)) (b.table.start page) =
        pure (b.table.start (page + 1) - b.table.start page) := if_pos (hv.ordered.start_le page hlt)
    rw [PageTable.getElem?_ends_of_lt hlt, PageTable.items?_eq_some_iff.2 ⟨hlt, rfl⟩]
    dsimp only
    rw [store_start hlt, pure_bind, hsub, pure_bind]
  · rw [PageTable.getElem?_ends_of_ge hge, (PageTable.items?_eq_none_iff _ _).2 hge]

theorem store_span (hv : b.Valid) : b.store.span = pure b.span :=
  if_pos ⟨Nat.zero_le _, hv.used_le⟩

theorem store_locate (b : Bitmap) (page item : Nat) : b.store.locate page item = pure (b.locate page item) := by
  unfold locate Bitmap.locate PageTable.locate
  rw [toBitmap_store, usedBytes_store]
  by_cases hp : b.table.pageCount ≤ page
  · rw [if_pos hp, if_pos hp]
  · rw [if_neg hp, if_neg hp]
    rcases Nat.lt_or_ge page b.table.registered with hlt | hge
    · rw [PageTable.getElem?_ends_of_lt hlt, PageTable.items?_eq_some_iff.2 ⟨hlt, rfl⟩]
      dsimp only
      rw [store_start hlt, pure_bind, apply_ite pure, apply_ite pure]
    · rw [PageTable.getElem?_ends_of_ge hge, (PageTable.items?_eq_none_iff _ _).2 hge]

theorem byteIndex_lt_of_locate (hv : b.Valid) {page item : Nat} {a : BitAddress} (h : b.locate page item = .ok a) :
    a.byteIndex < b.bytes.size :=
  Nat.lt_of_lt_of_le ((b.table.locate_eq_ok_iff _ page item a).1 h).2.2.2 hv.used_le

theorem store_get (hv : b.Valid) (page item : Nat) : b.store.get page item = pure (b.get page item) := by
  unfold get Bitmap.get
  rw [store_locate, pure_bind]
  cases hl : b.locate page item with
  | error reason => rfl
  | ok a =>
    have hlt := byteIndex_lt_of_locate hv hl
    have hbit : b.bit a.offset = Byte.bit b.bytes[a.byteIndex] a.bitIndex := by
      simp only [Bitmap.bit, Array.getD_eq_getD_getElem?]
      rw [← BitAddress.byteIndex, Array.getElem?_eq_getElem hlt]
      rfl
    dsimp only
    rw [toBitmap_store, index_of_lt hlt, pure_bind]
    simp only [Except.map, hbit]

/-! ## Operations meet no trap -/

theorem store_write (hv : b.Valid) (page item : Nat) (on : Bool) :
    b.store.write page item on = pure (b.write page item on).1.store := by
  unfold write Bitmap.write
  rw [store_locate, pure_bind]
  cases hl : b.locate page item with
  | error reason => rfl
  | ok a =>
    have hlt := byteIndex_lt_of_locate hv hl
    have hbytes : (b.put a on).bytes =
        b.bytes.setIfInBounds a.byteIndex (Byte.put b.bytes[a.byteIndex] a.bitIndex on) := by
      refine Array.ext (by simp [Bitmap.put]) fun n h₁ h₂ => ?_
      have hn : n < b.bytes.size := by simpa using h₂
      rw [Array.getElem_setIfInBounds hn]
      simp only [Bitmap.put, Array.getElem_modify]
      split
      · next h => simp only [h]
      · rfl
    dsimp only
    rw [toBitmap_store, index_of_lt hlt, pure_bind, ← hbytes]
    rfl

theorem store_register (hv : b.Valid) (items : Nat) : b.store.register items = pure (b.register items).store := by
  have hpos : ¬ b.chunk = 0 := Nat.ne_of_gt hv.chunk_pos
  unfold register
  rw [toBitmap_store]
  by_cases hless : b.bytes.size < Capacity.bytesFor (b.table.push items).total
  · have hgrown : Capacity.grown? b.bytes.size (Capacity.bytesFor (b.table.push items).total) b.chunk =
        .ok (Capacity.grown b.bytes.size (Capacity.bytesFor (b.table.push items).total) b.chunk) := by
      simp [Capacity.grown?, hpos]
    rw [if_pos hless, hgrown]
    rfl
  · have hsame : Capacity.grown b.bytes.size (Capacity.bytesFor (b.table.push items).total) b.chunk = b.bytes.size :=
      if_pos (Nat.le_of_not_lt hless)
    have hbytes : (b.register items).bytes = b.bytes := by
      simp only [Bitmap.register, Bitmap.grow, Bitmap.usedBytes, Bitmap.capacity, hsame, Nat.sub_self,
        Array.replicate_zero, Array.append_empty]
    rw [if_neg hless, ← hbytes]
    rfl

theorem store_addPage (hv : b.Valid) (page items : Nat) :
    b.store.addPage page items = pure ((Bitmap.Call.addPage page items).next b).store := by
  have hr : b.store.refusal? page items = b.refusal? page items := rfl
  unfold addPage
  rw [hr, Bitmap.Call.next, Bitmap.addPage]
  cases b.refusal? page items with
  | some e => rfl
  | none => exact store_register hv items

/-- A pass over a page meets no trap if none of its steps does. -/
theorem foldlM_scan {α : Type} {f : Store → α → Step Store} {step : Scan → α → Scan}
    (hf : ∀ s x, s.bitmap.Valid → f s.bitmap.store x = pure (step s x).bitmap.store)
    (he : ∀ s x, Bitmap.Edits s.bitmap (step s x).bitmap) (xs : List α) {s : Scan} (hs : s.bitmap.Valid) :
    xs.foldlM f s.bitmap.store = pure (xs.foldl step s).bitmap.store := by
  induction xs generalizing s with
  | nil => rfl
  | cons x xs ih =>
    rw [List.foldlM_cons, hf s x hs, pure_bind]
    exact ih (Bitmap.Edits.valid (he s x) hs)

theorem bitmap_write (s : Scan) (page item : Nat) (on : Bool) :
    (s.write page item on).bitmap = (s.bitmap.write page item on).1 := by
  unfold Scan.write
  cases s.bitmap.write page item on with
  | mk bitmap refusal => cases refusal <;> rfl

theorem store_markUsed (page : Nat) (v : HeapView) {s : Scan} (hs : s.bitmap.Valid) (slot : Nat) :
    markUsed page v s.bitmap.store slot = pure (Scan.markUsed page v s slot).bitmap.store := by
  unfold markUsed Scan.markUsed
  split
  · rw [bitmap_write]
    exact store_write hs page slot true
  · rfl

theorem store_clearHeapOnly (page : Nat) (v : HeapView) {s : Scan} (hs : s.bitmap.Valid) (slot : Nat) :
    clearHeapOnly page v s.bitmap.store slot = pure (Scan.clearHeapOnly page v s slot).bitmap.store := by
  unfold clearHeapOnly Scan.clearHeapOnly
  split
  · rw [store_get hs, pure_bind]
    cases s.bitmap.get page slot with
    | error reason => rfl
    | ok on =>
      cases on with
      | false => rfl
      | true =>
        dsimp only
        rw [bitmap_write]
        exact store_write hs page slot false
  · rfl

theorem store_follow (index : Nat) {s : Scan} (hs : s.bitmap.Valid) (entry : HeapTid × Nat) :
    follow s.bitmap.store entry = pure (Scan.follow index s entry).bitmap.store := by
  unfold follow Scan.follow
  dsimp only
  cases entry.1.item? with
  | none => rfl
  | some item =>
    dsimp only
    rw [bitmap_write]
    exact store_write hs _ item true

theorem store_heapPage (hv : b.Valid) (page : Nat) (v : HeapView) :
    b.store.heapPage page v = pure ((Bitmap.Operation.heapPage page v).next b).store := by
  have hr : b.store.refusal? page v.slotCount = b.refusal? page v.slotCount := rfl
  unfold heapPage Bitmap.Operation.next Scan.heapPage
  dsimp only
  rw [hr]
  cases hno : b.refusal? page v.slotCount with
  | some e => rfl
  | none =>
    let s₀ : Scan := { bitmap := b.register v.slotCount }
    let s₁ : Scan := (List.range v.slotCount).foldl (Scan.markUsed page v) s₀
    have hv₀ : s₀.bitmap.Valid := Bitmap.Edits.valid (Bitmap.edits_addPage hno) hv
    have hv₁ : s₁.bitmap.Valid := Bitmap.Edits.valid (Bitmap.edits_foldl (Bitmap.edits_markUsed page v) _ s₀) hv₀
    have h₁ : (List.range v.slotCount).foldlM (markUsed page v) s₀.bitmap.store = pure s₁.bitmap.store :=
      foldlM_scan (fun _ x hs => store_markUsed page v hs x) (Bitmap.edits_markUsed page v) _ hv₀
    dsimp only
    rw [store_register hv, pure_bind, h₁, pure_bind]
    exact foldlM_scan (fun _ x hs => store_clearHeapOnly page v hs x) (Bitmap.edits_clearHeapOnly page v) _ hv₁

theorem store_next (hv : b.Valid) (op : Bitmap.Operation) : next op b.store = pure (op.next b).store := by
  cases op with
  | call call =>
    cases call with
    | addPage page items => exact store_addPage hv page items
    | set page item on => exact store_write hv page item on
    | get page item =>
      unfold next
      dsimp only
      rw [store_get hv, pure_bind]
      rfl
    | reset => rfl
    | duplicate => rfl
    | clone => rfl
  | heapPage page view => exact store_heapPage hv page view
  | indexPage index page =>
    let s₀ : Scan := { bitmap := b }
    have hv₀ : s₀.bitmap.Valid := hv
    exact foldlM_scan (fun _ x hs => store_follow index hs x) (Bitmap.edits_follow index) _ hv₀

theorem store_operate (hv : b.Valid) (ops : List Bitmap.Operation) :
    b.store.operate ops = pure (b.operate ops).store := by
  induction ops generalizing b with
  | nil => rfl
  | cons op ops ih =>
    unfold operate
    rw [List.foldlM_cons, store_next hv, pure_bind]
    exact ih (Bitmap.Edits.valid (Bitmap.edits_next op b) hv)

/-! ## What is so after every run -/

/-- What is promised of a bitmap in memory: its layout is in order and within the limits, the length that is kept
is right, an item is refused for just the reason there is, and lookups meet no trap. -/
structure Sound (limits : Limits) (s : Store) : Prop where
  registered_le : s.table.registered ≤ s.table.pageCount
  start_le : ∀ page, page < s.table.registered → s.table.start page ≤ s.table.start (page + 1)
  items_le : ∀ page items, s.table.items? page = some items → items ≤ limits.maxItems
  used_eq : s.usedBytes = Capacity.bytesFor s.table.total
  used_le : s.usedBytes ≤ s.bytes.size
  not_byteOutOfRange : ∀ page item k n, s.locate page item ≠ .ok (.error (.byteOutOfRange k n))
  pageOutOfRange_iff : ∀ page item,
    s.locate page item = .ok (.error (.pageOutOfRange page s.table.pageCount)) ↔ s.table.pageCount ≤ page
  pageNotRegistered_iff : ∀ page item,
    s.locate page item = .ok (.error (.pageNotRegistered page s.table.registered)) ↔
      s.table.registered ≤ page ∧ page < s.table.pageCount
  itemOutOfRange_iff : ∀ page item items,
    s.locate page item = .ok (.error (.itemOutOfRange page item items)) ↔
      s.table.items? page = some items ∧ items ≤ item
  located_iff : ∀ page item a,
    s.locate page item = .ok (.ok a) ↔ s.table.Has page item ∧ a.offset = s.table.start page + item
  items?_eq : ∀ page, s.items? page = .ok (s.table.items? page)
  range?_eq : ∀ page, s.range? page = .ok (s.table.range? page)
  span_eq : s.span = .ok (s.bytes.extract 0 s.usedBytes)
  get_eq : ∀ page item, s.get page item = .ok (s.toBitmap.get page item)

theorem sound_store {limits : Limits} (hv : b.Valid) (hmax : b.maxItems = limits.maxItems) : b.store.Sound limits where
  registered_le := hv.ordered.registered_le
  start_le := hv.ordered.start_le
  items_le page items h := by
    rw [← hmax]
    exact hv.items_le page items h
  used_eq := rfl
  used_le := hv.used_le
  not_byteOutOfRange page item k n h := by
    rw [store_locate] at h
    have hl := Except.ok.inj h
    rcases hv.locate_cases page item with ⟨-, -, hl'⟩ | ⟨-, -, hl'⟩ | ⟨items, -, -, -, ⟨-, hl'⟩ | ⟨-, hl'⟩⟩ <;>
      (rw [hl'] at hl; cases hl)
  pageOutOfRange_iff page item := by
    rw [store_locate, toBitmap_store]
    rcases hv.locate_cases page item with ⟨h, -, hl⟩ | ⟨h, -, hl⟩ | ⟨items, h, -, -, ⟨-, hl⟩ | ⟨-, hl⟩⟩ <;>
      simp [hl, pure, Except.pure, h]
  pageNotRegistered_iff page item := by
    rw [store_locate, toBitmap_store]
    rcases hv.locate_cases page item with ⟨h, h', hl⟩ | ⟨h, h', hl⟩ | ⟨items, h, h', -, ⟨-, hl⟩ | ⟨-, hl⟩⟩ <;>
      simp [hl, pure, Except.pure, h, h']
  itemOutOfRange_iff page item items := by
    rw [store_locate, toBitmap_store]
    rcases hv.locate_cases page item with ⟨-, h, hl⟩ | ⟨-, h, hl⟩ | ⟨items, -, -, h, ⟨h', hl⟩ | ⟨h', hl⟩⟩
    · simp [hl, pure, Except.pure, (PageTable.items?_eq_none_iff _ _).2 h]
    · simp [hl, pure, Except.pure, (PageTable.items?_eq_none_iff _ _).2 h]
    · simp [hl, pure, Except.pure, h]
      omega
    · simp [hl, pure, Except.pure, h]
      omega
  located_iff page item a := by
    rw [store_locate, toBitmap_store]
    constructor
    · intro h
      obtain ⟨-, hi, ha, -⟩ := (b.table.locate_eq_ok_iff b.usedBytes page item a).1 (Except.ok.inj h)
      exact ⟨hi, ha⟩
    · rintro ⟨hi, ha⟩
      rw [hv.locate_of_has hi, Bitmap.place, ← ha]
      rfl
  items?_eq page := store_items? hv page
  range?_eq page := store_range? b page
  span_eq := store_span hv
  get_eq page item := store_get hv page item

/-- Whatever is done to a bitmap that is new or decoded, there is no trap, what is promised of it holds, and what
is done after that takes away neither used bytes nor capacity. -/
theorem operate_sound {limits : Limits} (h : b.Origin limits) (ops more : List Bitmap.Operation) :
    ∃ s s', b.store.operate ops = .ok s ∧ s.operate more = .ok s' ∧ s.Sound limits ∧ s'.Sound limits ∧
      s.usedBytes ≤ s'.usedBytes ∧ s.bytes.size ≤ s'.bytes.size ∧ s.toBitmap = b.operate ops := by
  obtain ⟨-, hmax, -⟩ := h.bounds
  have he : Bitmap.Edits b (b.operate ops) := Bitmap.edits_operate b ops
  have he' : Bitmap.Edits (b.operate ops) ((b.operate ops).operate more) := Bitmap.edits_operate _ more
  have hv := Bitmap.Edits.valid he h.valid
  have hv' := Bitmap.Edits.valid he' hv
  have hx := Bitmap.Edits.extends he
  have hx' := Bitmap.Edits.extends he'
  have hmax₁ : (b.operate ops).maxItems = limits.maxItems := hx.maxItems_eq.trans hmax
  have hmax₂ : ((b.operate ops).operate more).maxItems = limits.maxItems := hx'.maxItems_eq.trans hmax₁
  exact ⟨_, _, store_operate h.valid ops, store_operate hv more, sound_store hv hmax₁, sound_store hv' hmax₂,
    hx'.used_le, hx'.capacity_le, rfl⟩

/-- A page out of range, a heap page that makes the buffer grow, and an index page with two bad references. -/
def sampleOps : List Bitmap.Operation :=
  [.call (.addPage 2 1), .heapPage 1 ⟨20, fun _ => true, (· == 3)⟩, .call (.set 1 19 false),
    .indexPage 0 ⟨#[⟨1, 20⟩, ⟨1, 21⟩, ⟨0, 0⟩]⟩]

/-- The image with stray bits, read under limits that make the buffer grow by two bytes. -/
theorem operate_sound_strayImage :
    let limits : Limits := { maxItems := 64, chunkBytes := 2 }
    let b : Bitmap := { Image.strayBitmap with maxItems := 64, chunk := 2 }
    b.Origin limits ∧
      ∃ s, b.store.operate sampleOps = .ok s ∧ s.Sound limits ∧ s.usedBytes = 3 ∧ s.bytes.size = 4 := by
  intro limits b
  have hdecode : Bitmap.decode limits Image.strayImage = .ok b := by decide +kernel
  have h : b.Origin limits := .decoded hdecode
  obtain ⟨s, -, hs, -, hsound, -, -, -, hb⟩ := operate_sound h sampleOps []
  refine ⟨h, s, hs, hsound, ?_, ?_⟩
  · rw [hsound.used_eq, hb]
    decide +kernel
  · rw [hb]
    decide +kernel

end Store

end Occupancy
