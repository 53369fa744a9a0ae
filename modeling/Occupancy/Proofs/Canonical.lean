import Mathlib
import Occupancy.Proofs.Operation
/-!
# One bitmap for each set of items

Bitmaps that are new under the same limits, and then operated on, are equal just when they have the same items
and the same marks (`operate_eq_iff`): the buffer is as long as the used bytes call for, whenever it grew, and
past the last item nothing is set.
-/

namespace Occupancy

theorem Byte.eq_of_bit {a b : UInt8} (h : ∀ i < 8, bit a i = bit b i) : a = b := by
  apply UInt8.eq_of_toBitVec_eq
  apply BitVec.eq_of_getLsbD_eq
  intro i hi
  exact h i hi

namespace Bitmap

variable {a b : Bitmap}

/-- A buffer is its bits. -/
theorem bytes_eq_of_bit (hc : a.capacity = b.capacity) (h : ∀ k, a.bit k = b.bit k) : a.bytes = b.bytes := by
  refine Array.ext hc fun n hna hnb => ?_
  apply Byte.eq_of_bit
  intro i hi
  have hbit := h (8 * n + i)
  have hdiv : (8 * n + i) / 8 = n := by omega
  have hmod : (8 * n + i) % 8 = i := by omega
  simp only [bit, hdiv, hmod, Array.getD_eq_getD_getElem?, Array.getElem?_eq_getElem hna,
    Array.getElem?_eq_getElem hnb, Option.getD_some] at hbit
  exact hbit

/-- In a tidy bitmap the bits of the buffer are the marks of items. -/
theorem Tidy.bit_eq_of_marks (ha : a.Tidy) (hb : b.Tidy) (ht : a.table = b.table)
    (hm : ∀ page item, a.table.Has page item → a.isMarked page item = b.isMarked page item) (k : Nat) :
    a.bit k = b.bit k := by
  rcases Nat.lt_or_ge k a.table.total with hlt | hge
  · obtain ⟨page, item, hi, rfl⟩ := a.table.exists_offset hlt
    have hi' : b.table.Has page item := by rwa [← ht]
    have hmark := hm page item hi
    rw [ha.valid.isMarked_of_has hi, hb.valid.isMarked_of_has hi', ← ht] at hmark
    exact hmark
  · rw [ha.zeroTail k hge, hb.zeroTail k (by rwa [← ht])]

/-- Tidy bitmaps that began as the same one are equal where they have the same items and the same marks. -/
theorem Tidy.eq_of_marks {c : Bitmap} (ha : a.Tidy) (hb : b.Tidy) (hxa : Extends c a) (hxb : Extends c b)
    (hitems : ∀ page, a.table.items? page = b.table.items? page)
    (hm : ∀ page item, a.table.Has page item → a.isMarked page item = b.isMarked page item) : a = b := by
  have hpages : a.table.pageCount = b.table.pageCount := hxa.pageCount_eq.trans hxb.pageCount_eq.symm
  have hmax : a.maxItems = b.maxItems := hxa.maxItems_eq.trans hxb.maxItems_eq.symm
  have hchunk : a.chunk = b.chunk := hxa.chunk_eq.trans hxb.chunk_eq.symm
  have ht : a.table = b.table := ha.valid.ordered.eq_of_items? hb.valid.ordered hpages hitems
  have hcapacity : a.capacity = b.capacity := by
    rw [ha.capacity_eq, hb.capacity_eq, usedBytes, usedBytes, ht, hchunk]
  have hbytes := bytes_eq_of_bit hcapacity (ha.bit_eq_of_marks hb ht hm)
  cases a
  cases b
  simp only at ht hmax hchunk hbytes
  rw [ht, hmax, hchunk, hbytes]

/-- After any two runs from the same beginning, two bitmaps are equal, in their layout, their bounds and the whole
of their buffers, just when the same items were registered on each page and the same of them are marked. -/
theorem operate_eq_iff (limits : Limits) (pageCount : Nat) (ops ops' : List Operation) :
    let a := (blank limits pageCount).operate ops
    let b := (blank limits pageCount).operate ops'
    a = b ↔
      (∀ page, a.table.items? page = b.table.items? page) ∧
      ∀ page item, a.table.Has page item → a.isMarked page item = b.isMarked page item := by
  intro a b
  constructor
  · intro h
    rw [h]
    exact ⟨fun _ => rfl, fun _ _ _ => rfl⟩
  · rintro ⟨hitems, hm⟩
    have hblank := tidy_blank limits pageCount
    have ha : Edits (blank limits pageCount) a := edits_operate _ ops
    have hb : Edits (blank limits pageCount) b := edits_operate _ ops'
    exact (Edits.tidy ha hblank).eq_of_marks (Edits.tidy hb hblank) (Edits.extends ha) (Edits.extends hb) hitems hm

end Bitmap

end Occupancy
