import Occupancy.Bitmap
/-!
# Bitmaps as bytes

An image is a row of words, each of four bytes with the least significant first: the number of pages, for each
page where its bits end (or the greatest word for a page that is not registered), the number of used bits and
the number of bytes in the buffer; then the buffer. `decode` refuses bytes that are the image of no bitmap
under the given limits, and says which rule of images they break.
-/

namespace Occupancy

/-- The rule of images that a row of bytes breaks. -/
inductive ImageFault where
  /-- A page is registered though one before it is not. -/
  | gap (page : Nat)
  /-- The bits of a page end before those of the page in front of it. -/
  | decreasing (page : Nat)
  | tooManyItems (page items maxItems : Nat)
  /-- The number of used bits does not go with the number of items. -/
  | bitLength (bits items : Nat)
  | trailing (count : Nat)
  /-- The buffer is too small for the used bytes. -/
  | overCapacity (usedBytes capacity : Nat)
  deriving DecidableEq, Repr

def ImageFault.message : ImageFault → String
  | .gap page => s!"page {page} registered after an unregistered page"
  | .decreasing page => s!"cumulative item count decreases at page {page}"
  | .tooManyItems page items maxItems => s!"page {page} has {items} items (max {maxItems})"
  | .bitLength bits items => s!"bit length {bits} does not match {items} items"
  | .trailing count => s!"{count} trailing bytes"
  | .overCapacity usedBytes capacity => s!"{usedBytes} used bytes exceed capacity {capacity}"

/-- Why bytes are no image. -/
inductive ImageError where
  /-- A field ends at byte `expected`, and there are only `actual` bytes. -/
  | shortRead (expected actual : Nat)
  | malformed (fault : ImageFault)
  deriving DecidableEq, Repr

namespace Image

/-- The word that stands for a page that is not registered. -/
def unregistered : Nat := UInt32.size - 1

/-- The words that say where the bits of each page end. -/
def tableWords (t : PageTable) : List Nat :=
  (List.range t.pageCount).map fun page => t.ends.getD page unregistered

end Image

/-- The image of a bitmap; numbers are written modulo 2³². -/
def Bitmap.encode (b : Bitmap) : List UInt8 :=
  Byte.word b.table.pageCount ++ (Image.tableWords b.table).flatMap Byte.word ++
    Byte.word b.usedBits ++ Byte.word b.capacity ++ b.bytes.toList

namespace Image

/-! ## Reading fields -/

/-- What is left of an image of `size` bytes when `position` of them are read. -/
structure Cursor where
  rest : List UInt8
  position : Nat
  size : Nat

namespace Cursor

def ofBytes (bytes : List UInt8) : Cursor := ⟨bytes, 0, bytes.length⟩

/-- The next word. -/
def word : Cursor → Except ImageError (Nat × Cursor)
  | ⟨a :: b :: c :: d :: rest, position, size⟩ => .ok (Byte.ofWord a b c d, ⟨rest, position + 4, size⟩)
  | ⟨_, position, size⟩ => .error (.shortRead (position + 4) size)

/-- All that is left, which has to be `count` bytes. -/
def last (c : Cursor) (count : Nat) : Except ImageError (List UInt8) :=
  let left := c.rest.length
  if left < count then .error (.shortRead (c.position + count) c.size)
  else if count < left then .error (.malformed (.trailing (left - count)))
  else .ok c.rest

end Cursor

/-! ## Reading the pages -/

/-- The pages read so far: those that are registered, and whether one that is not has been met. -/
structure Pages where
  ends : Array Nat := #[]
  closed : Bool := false

/-- Where the bits of the last registered page end. -/
def Pages.total (p : Pages) : Nat := p.ends.back?.getD 0

/-- The pages with the one that `word` describes, which is page `page`. -/
def Pages.push (p : Pages) (maxItems page word : Nat) : Except ImageFault Pages :=
  if word = unregistered then .ok { p with closed := true }
  else if p.closed then .error (.gap page)
  else if word < p.total then .error (.decreasing page)
  else if maxItems < word - p.total then .error (.tooManyItems page (word - p.total) maxItems)
  else .ok { p with ends := p.ends.push word }

/-- Reads `count` pages, the first of which is page `page`. -/
def readPages (maxItems : Nat) : (count page : Nat) → Pages → Cursor → Except ImageError (Pages × Cursor)
  | 0, _, pages, c => .ok (pages, c)
  | count + 1, page, pages, c =>
    match c.word with
    | .error e => .error e
    | .ok (word, c) =>
      match pages.push maxItems page word with
      | .error fault => .error (.malformed fault)
      | .ok pages => readPages maxItems count (page + 1) pages c

/-! ## Reading the whole -/

/-- Goes on only where an image keeps a rule. -/
def require (rule : Prop) [Decidable rule] (fault : ImageFault) : Except ImageError Unit :=
  if rule then .ok () else .error (.malformed fault)

end Image

/-- The bitmap of which the bytes are the image, under `limits`. -/
def Bitmap.decode (limits : Limits) (bytes : List UInt8) : Except ImageError Bitmap := do
  let (pageCount, c) ← (Image.Cursor.ofBytes bytes).word
  let (pages, c) ← Image.readPages limits.maxItems pageCount 0 {} c
  let (bits, c) ← c.word
  let (capacity, c) ← c.word
  let usedBytes := Capacity.bytesFor pages.total
  Image.require (bits = 8 * usedBytes) (.bitLength bits pages.total)
  let buffer ← c.last capacity
  Image.require (usedBytes ≤ capacity) (.overCapacity usedBytes capacity)
  return {
    table := { pageCount, ends := pages.ends }
    maxItems := limits.maxItems
    chunk := limits.chunk
    bytes := buffer.toArray }

end Occupancy
