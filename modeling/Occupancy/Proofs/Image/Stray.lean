import Occupancy.Proofs.Compare
import Occupancy.Proofs.Image.Format
/-!
# Stray bits in images

Decoding checks the words of an image and takes the buffer as it is. A bit of the buffer that belongs to no
item is kept, is counted with those of the items, and is the mark of an item that a later page brings.
`phantomFree_iff` says that just the images without such bits decode to bitmaps without phantoms.
-/

namespace Occupancy

/-- No more is marked than the marked items, and a new page has no marks. -/
structure Bitmap.PhantomFree (b : Bitmap) : Prop where
  zeroTail : b.ZeroTail
  count_eq : (b.count : ℕ∞) = b.marks.encard
  unmarked : ∀ page items b', b.addPage page items = .ok b' → ∀ item, b'.isMarked page item = false

namespace Image

variable {f : Fields} {limits : Limits} {maxItems : Nat}

/-! ## What is decoded is valid -/

theorem Fields.start_bitmap (f : Fields) (limits : Limits) {page : Nat} (h : page < (0 :: f.ends).length) :
    (f.bitmap limits).table.start page = (0 :: f.ends)[page] := by
  cases page with
  | zero => rfl
  | succ before =>
    have h' : before < f.ends.length := by simpa using h
    simp [PageTable.start, Fields.bitmap, h']

theorem Fields.WellFormed.follows (hf : f.WellFormed maxItems) (limits : Limits) {page : Nat}
    (h : page < f.ends.length) :
    Follows maxItems ((f.bitmap limits).table.start page) ((f.bitmap limits).table.start (page + 1)) := by
  have h₀ : page < (0 :: f.ends).length := by rw [List.length_cons]; omega
  have h₁ : page + 1 < (0 :: f.ends).length := by rw [List.length_cons]; omega
  rw [f.start_bitmap limits h₀, f.start_bitmap limits h₁]
  exact List.isChain_iff_getElem.1 hf.chain page h₁

theorem Fields.WellFormed.valid (hf : f.WellFormed limits.maxItems) : (f.bitmap limits).Valid where
  ordered := ⟨hf.ends_le, fun _ hp => (hf.follows limits hp).1⟩
  items_le page items h := by
    obtain ⟨hp, rfl⟩ := PageTable.items?_eq_some_iff.1 h
    exact (hf.follows limits hp).2
  used_le := Nat.le_trans (Nat.le_of_eq (f.usedBytes_bitmap limits)) hf.used_le
  chunk_pos := limits.chunk_pos
  total_lt := by
    have hu := (f.bitmap limits).total_le_usedBits
    rw [Bitmap.usedBits, f.usedBytes_bitmap limits] at hu
    exact Nat.lt_of_le_of_lt hu hf.usedBits_lt

theorem valid_of_decode {bytes : List UInt8} {b : Bitmap} (h : Bitmap.decode limits bytes = .ok b) : b.Valid := by
  obtain ⟨f, hf, -, rfl⟩ := decode_eq_ok_iff.1 h
  exact hf.valid

/-! ## The buffer of an image -/

/-- The bits after the words of an image of `pageCount` pages. -/
def bodyBits (pageCount : Nat) (bytes : List UInt8) : List Bool := Byte.row (bytes.drop (4 * (pageCount + 3)))

theorem length_flatMap_word (ns : List Nat) : (ns.flatMap Byte.word).length = 4 * ns.length := by
  induction ns with
  | nil => rfl
  | cons n ns ih =>
    rw [List.flatMap_cons, List.length_append, ih, List.length_cons, Byte.word]
    simp only [List.length_cons, List.length_nil]
    omega

theorem Fields.WellFormed.length_bytes (hf : f.WellFormed maxItems) :
    f.bytes.length = 4 * (f.pageCount + 3) + f.body.length := by
  have hle := hf.ends_le
  simp only [Fields.bytes, List.length_append, length_flatMap_word, pageWords, List.length_replicate, Byte.word,
    List.length_cons, List.length_nil]
  omega

theorem Fields.WellFormed.drop_bytes (hf : f.WellFormed maxItems) :
    f.bytes.drop (4 * (f.pageCount + 3)) = f.body := by
  have hlength := hf.length_bytes
  rw [Fields.bytes, List.length_append] at hlength
  exact List.drop_left' (Nat.add_right_cancel hlength)

theorem bit_of_decode {bytes : List UInt8} {b : Bitmap} (h : Bitmap.decode limits bytes = .ok b) (k : Nat) :
    b.bit k = (bodyBits b.table.pageCount bytes).getD k false := by
  obtain ⟨f, hf, rfl, rfl⟩ := decode_eq_ok_iff.1 h
  have hbody : bodyBits (f.bitmap limits).table.pageCount f.bytes = Byte.row f.body :=
    congrArg Byte.row hf.drop_bytes
  rw [hbody, Byte.getD_row]
  simp [Bitmap.bit, Fields.bitmap]

/-! ## Phantoms -/

theorem phantomFree_iff_zeroTail {b : Bitmap} (hv : b.Valid) : b.PhantomFree ↔ b.ZeroTail := by
  constructor
  · exact Bitmap.PhantomFree.zeroTail
  · intro hz
    refine ⟨hz, hv.count_eq_marks hz, fun page items b' h item => ?_⟩
    rw [hv.isMarked_addPage h, if_pos rfl, hz _ (Nat.le_add_right ..), Bool.and_false]

/-- A decoded bitmap is without phantoms just where no bit of the image lies past the last item. Such a bit is
counted if it lies in a used byte, and it is the mark of the item that comes to own it. -/
theorem phantomFree_iff {bytes : List UInt8} {b : Bitmap} (h : Bitmap.decode limits bytes = .ok b) :
    (b.PhantomFree ↔ ∀ k, b.table.total ≤ k → (bodyBits b.table.pageCount bytes).getD k false = false) ∧
    (b.count : ℕ∞) = b.marks.encard +
      Nat.count (fun k => (bodyBits b.table.pageCount bytes).getD (b.table.total + k) false = true)
        (b.usedBits - b.table.total) ∧
    ∀ page items b', b.addPage page items = .ok b' → ∀ item,
      b'.isMarked page item =
        (decide (item < items) && (bodyBits b.table.pageCount bytes).getD (b.table.total + item) false) := by
  have hv := valid_of_decode h
  simp only [← bit_of_decode h]
  refine ⟨phantomFree_iff_zeroTail hv, hv.count_eq_marks_add, fun page items b' hb item => ?_⟩
  rw [hv.isMarked_addPage hb, if_pos rfl]

/-- One page of three items and one that is not registered; bits 3 to 8 of the buffer are set. -/
def strayImage : List UInt8 :=
  Byte.word 2 ++ Byte.word 3 ++ Byte.word unregistered ++ Byte.word 8 ++ Byte.word 2 ++ [0xf8, 0x01]

def strayBitmap : Bitmap := ⟨⟨2, #[3]⟩, 291, 1024, #[0xf8, 0x01]⟩

theorem decode_strayImage : Bitmap.decode {} strayImage = .ok strayBitmap := by decide +kernel

theorem phantomFree_iff_strayImage :
    (strayBitmap.PhantomFree ↔ ∀ k, 3 ≤ k → (bodyBits 2 strayImage).getD k false = false) ∧
    (strayBitmap.count : ℕ∞) = strayBitmap.marks.encard + 5 ∧
    (strayBitmap.register 4).isMarked 1 0 = true := by
  obtain ⟨hfree, hcount, hpage⟩ := phantomFree_iff decode_strayImage
  refine ⟨hfree, ?_, ?_⟩
  · have hstray : Nat.count (fun k => (bodyBits 2 strayImage).getD (3 + k) false = true) 5 = 5 := by decide +kernel
    rw [hcount]
    exact congrArg (fun n : Nat => strayBitmap.marks.encard + n) hstray
  · rw [hpage 1 4 _ rfl]
    decide +kernel

/-- The image is accepted, and the page that comes next has a mark that was never set. -/
theorem strayBitmap_not_phantomFree : Bitmap.decode {} strayImage = .ok strayBitmap ∧ ¬ strayBitmap.PhantomFree := by
  refine ⟨decode_strayImage, fun hfree => ?_⟩
  have hmark : (strayBitmap.register 4).isMarked 1 0 = true := by decide +kernel
  rw [hfree.unmarked 1 4 _ rfl 0] at hmark
  cases hmark

end Image

end Occupancy
