import Occupancy.Byte
import Occupancy.Limits
import Occupancy.PageTable
/-!
# Item occupancy bitmaps

A bitmap holds one bit for each item of the pages registered in its table. Its buffer never shrinks: it grows
by whole chunks when a page no longer fits, and the bytes that growth adds are zero. As everywhere, capacities are
taken to be below 2⁶⁴.
-/

namespace Occupancy

structure Bitmap where
  table : PageTable
  /-- The most items that one page may have. -/
  maxItems : Nat
  /-- The step, in bytes, by which the buffer grows. -/
  chunk : Nat
  bytes : Array UInt8
  deriving DecidableEq, Repr

/-- Why a page cannot be registered. -/
inductive RegistrationError where
  | pageOutOfRange (page pageCount : Nat)
  | tooManyItems (page items maxItems : Nat)
  /-- The page is not the one after the last registered page. -/
  | outOfOrder
  /-- The items of all pages together would number 2³² or more. -/
  | totalOverflow (page total items : Nat)
  deriving DecidableEq, Repr

def RegistrationError.message : RegistrationError → String
  | .pageOutOfRange page pageCount => s!"page {page} out of range (page count {pageCount})"
  | .tooManyItems page items maxItems => s!"page {page} has {items} items (max {maxItems})"
  | .outOfOrder => "pages must be added in order without gaps"
  | .totalOverflow page total items => s!"page {page} overflows the item total ({total} + {items})"

namespace Bitmap

/-- A bitmap for `pageCount` pages, none of which is registered. -/
def blank (limits : Limits) (pageCount : Nat) : Bitmap where
  table := { pageCount }
  maxItems := limits.maxItems
  chunk := limits.chunk
  bytes := Array.replicate (Capacity.initial pageCount limits.chunk) 0

variable (b : Bitmap)

def capacity : Nat := b.bytes.size

/-- The number of bytes that hold the bits of all registered items. -/
def usedBytes : Nat := Capacity.bytesFor b.table.total

/-- The bits of the used bytes, among them those past the last item. -/
def usedBits : Nat := 8 * b.usedBytes

/-- The bytes that hold the bits of all registered items. -/
def span : Array UInt8 := b.bytes.extract 0 b.usedBytes

def used : List UInt8 := b.span.toList

theorem used_eq : b.used = b.bytes.toList.take b.usedBytes := by
  simp only [used, span, Array.toList_extract, List.extract_eq_take_drop, Nat.sub_zero, List.drop_zero]

/-- Bit `k` of the buffer; no bit beyond it is set. -/
def bit (k : Nat) : Bool := Byte.bit (b.bytes.getD (k / 8) 0) (k % 8)

/-! ## Items -/

def locate (page item : Nat) : Except AddressError BitAddress := b.table.locate b.usedBytes page item

/-- Whether the item is marked; an item without a bit is refused. -/
def get (page item : Nat) : Except AddressError Bool :=
  (b.locate page item).map fun a => b.bit a.offset

/-- The bitmap with bit `a` written to `on`. -/
def put (a : BitAddress) (on : Bool) : Bitmap :=
  { b with bytes := b.bytes.modify a.byteIndex fun byte => Byte.put byte a.bitIndex on }

/-- The bitmap with the item marked, or not marked. An item without a bit is refused, and leaves the bitmap as it is. -/
def write (page item : Nat) (on : Bool) : Bitmap × Option AddressError :=
  match b.locate page item with
  | .ok a => (b.put a on, none)
  | .error reason => (b, some reason)

/-- Whether the item has a bit and is marked. -/
def isMarked (page item : Nat) : Bool :=
  match b.get page item with
  | .ok on => on
  | .error _ => false

/-- The bits of a registered page, in item order; none for any other page. -/
def pageBits (page : Nat) : List Bool :=
  (List.range ((b.table.items? page).getD 0)).map (b.isMarked page)

/-! ## The whole buffer -/

/-- The bitmap with no item marked. -/
def reset : Bitmap := { b with bytes := b.bytes.map fun _ => 0 }

/-- Another bitmap with the same pages and the same capacity, and no item marked. -/
def duplicate : Bitmap := { b with bytes := Array.replicate b.capacity 0 }

/-- The bitmap with at least `required` bytes. -/
def grow (required : Nat) : Bitmap :=
  let capacity := Capacity.grown b.capacity required b.chunk
  { b with bytes := b.bytes ++ Array.replicate (capacity - b.capacity) 0 }

/-! ## Pages -/

/-- Why page `page` cannot be registered with so many items. -/
def refusal? (page items : Nat) : Option RegistrationError :=
  if b.table.pageCount ≤ page then some (.pageOutOfRange page b.table.pageCount)
  else if b.maxItems < items then some (.tooManyItems page items b.maxItems)
  else if page ≠ b.table.registered then some .outOfOrder
  else if UInt32.size ≤ b.table.total + items then some (.totalOverflow page b.table.total items)
  else none

/-- The bitmap with one more page; its items are not marked. -/
def register (items : Nat) : Bitmap :=
  let b := { b with table := b.table.push items }
  b.grow b.usedBytes

/-- The bitmap with page `page` registered after the others. -/
def addPage (page items : Nat) : Except RegistrationError Bitmap :=
  match b.refusal? page items with
  | some e => .error e
  | none => .ok (b.register items)

/-- Pages registered one after the other, up to the first that is refused. -/
def addPages : Bitmap → List Nat → Bitmap × Option RegistrationError
  | b, [] => (b, none)
  | b, items :: rest =>
    match b.refusal? b.table.registered items with
    | some e => (b, some e)
    | none => (b.register items).addPages rest

/-! ## What stays the same -/

theorem capacity_duplicate : b.duplicate.capacity = b.capacity := by simp [duplicate, capacity]

theorem reset_eq_duplicate : b.reset = b.duplicate := by
  simp only [reset, duplicate, capacity, mk.injEq, true_and]
  apply Array.ext <;> simp

theorem capacity_put (a : BitAddress) (on : Bool) : (b.put a on).capacity = b.capacity := by
  simp [put, capacity]

theorem capacity_grow (required : Nat) :
    (b.grow required).capacity = Capacity.grown b.capacity required b.chunk := by
  have := Capacity.le_grown b.capacity required b.chunk
  simp only [grow, capacity, Array.size_append, Array.size_replicate] at *
  omega

/-! ## What becomes of each bit -/

theorem bit_duplicate (k : Nat) : b.duplicate.bit k = false := by
  simp only [bit, duplicate, Array.getD, Array.size_replicate, Array.getInternal_eq_getElem,
    Array.getElem_replicate]
  split <;> exact Byte.bit_zero _

theorem bit_grow (required k : Nat) : (b.grow required).bit k = b.bit k := by
  simp only [bit, grow, capacity, Array.getD, Array.size_append, Array.size_replicate,
    Array.getInternal_eq_getElem]
  by_cases h : k / 8 < b.bytes.size
  · simp only [h, dite_true, Array.getElem_append_left h]
    split
    · rfl
    · omega
  · simp only [h, dite_false]
    split
    · rw [Array.getElem_append_right (by omega), Array.getElem_replicate]
    · rfl

theorem bit_put (a : BitAddress) (on : Bool) (h : a.byteIndex < b.capacity) (k : Nat) :
    (b.put a on).bit k = if k = a.offset then on else b.bit k := by
  have hd : k = a.offset ↔ k / 8 = a.byteIndex ∧ a.bitIndex = k % 8 := by
    simp only [BitAddress.byteIndex, BitAddress.bitIndex]; omega
  simp only [bit, put, Array.getD, Array.size_modify, Array.getInternal_eq_getElem, Array.getElem_modify]
  by_cases hb : a.byteIndex = k / 8
  · have hk : k / 8 < b.bytes.size := hb ▸ h
    have hm : k % 8 < 8 := Nat.mod_lt k (by decide)
    simp only [hk, dite_true, hb, if_true, Byte.bit_put _ _ _ _ a.bitIndex_lt hm]
    simp only [hd, hb, true_and]
  · have hne : ¬ k = a.offset := fun e => hb (hd.1 e).1.symm
    simp only [hb, if_false, hne]

end Bitmap

end Occupancy
