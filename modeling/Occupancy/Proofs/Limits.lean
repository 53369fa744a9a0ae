import Mathlib
import Occupancy.Proofs.Growth
/-!
# What sound limits are good for

Limits are sound when one chunk has a bit for each item of one page. Under limits that are accepted a page never makes
the buffer grow by more than a chunk, wherever in the last byte it begins (`Registers.capacity_le`); as long as the bits
of a chunk fit in a word, two pages are enough under any others for one that makes it grow by two
(`validate_eq_ok_iff_oneChunk`).
-/

namespace Occupancy.Bitmap

/-- Some run on a new bitmap leads to `b`, and one page more to `b'`. -/
inductive Registers (limits : Limits) : Bitmap → Bitmap → Prop where
  | intro {pageCount : Nat} (hcount : pageCount < UInt32.size) (ops : List Operation) {page items : Nat} {b' : Bitmap}
    (hadd : ((blank limits pageCount).operate ops).addPage page items = .ok b') :
    Registers limits ((blank limits pageCount).operate ops) b'

variable {limits : Limits} {b b' : Bitmap}

/-! ## One chunk is enough -/

/-- A page that is no larger than a chunk finds room in one chunk more. -/
theorem Valid.capacity_addPage_le (h : b.Valid) (hmax : b.maxItems ≤ 8 * b.chunk) {page items : Nat}
    (hadd : b.addPage page items = .ok b') : b'.capacity ≤ b.capacity + b.chunk := by
  obtain ⟨hr, rfl⟩ := addPage_eq_ok_iff.1 hadd
  obtain ⟨-, hitems, -, -⟩ := (b.refusal?_eq_none_iff page items).1 hr
  have htotal : b.table.total ≤ 8 * b.capacity := Capacity.bytesFor_le.1 h.used_le
  have hroom : (b.register items).usedBytes ≤ b.capacity + 1 * b.chunk := by
    unfold usedBytes
    rw [table_register, PageTable.total_push, Capacity.bytesFor_le]
    omega
  rw [capacity_register]
  exact (Capacity.grown_least b.capacity _ 1 h.chunk_pos hroom).trans_eq (by rw [Nat.one_mul])

theorem Registers.capacity_le (h : Registers limits b b') (hok : limits.validate = .ok ()) :
    b'.capacity ≤ b.capacity + limits.chunk := by
  have hmax : limits.maxItems ≤ 8 * limits.chunk := by
    have hchunk : limits.chunkBytes ≤ limits.chunk := Nat.le_max_left ..
    have hsound := Limits.maxItems_le_of_validate hok
    omega
  cases h with
  | @intro pageCount _ ops _ _ _ hadd =>
    have hedits := edits_operate (blank limits pageCount) ops
    have hchunk : ((blank limits pageCount).operate ops).chunk = limits.chunk := (Edits.extends hedits).chunk_eq
    have hitems : ((blank limits pageCount).operate ops).maxItems = limits.maxItems :=
      (Edits.extends hedits).maxItems_eq
    rw [← hchunk]
    refine (Edits.valid hedits (valid_blank limits pageCount)).capacity_addPage_le ?_ hadd
    rwa [hitems, hchunk]

/-! ## One chunk is too little -/

/-- A new bitmap for two pages, the first of which fills the one chunk that there is. -/
def full (limits : Limits) : Bitmap := (blank limits 2).register (8 * limits.chunk)

theorem fits_blank (hmax : 8 * limits.chunk < limits.maxItems) (hchunk : limits.chunk ≤ 2 ^ 27) :
    (blank limits 2).Fits [8 * limits.chunk, 8 * limits.chunk + 1] where
  pages_le := Nat.le_refl 2
  items_le n hn := by
    have hbound : (blank limits 2).maxItems = limits.maxItems := rfl
    simp only [List.mem_cons, List.not_mem_nil, or_false] at hn
    omega
  total_lt := by
    have hzero : (blank limits 2).table.total = 0 := rfl
    rw [hzero, UInt32.size, List.sum_cons, List.sum_singleton]
    omega

theorem operate_eq_full (h : (blank limits 2).Fits [8 * limits.chunk, 8 * limits.chunk + 1]) :
    (blank limits 2).operate [.call (.addPage 0 (8 * limits.chunk))] = full limits := by
  have hr : (blank limits 2).refusal? 0 (8 * limits.chunk) = none := h.refusal?_eq
  simp only [operate, List.foldl_cons, List.foldl_nil, Operation.next, Call.next, addPage, hr, full]

theorem total_full (limits : Limits) : (full limits).table.total = 8 * limits.chunk := by
  rw [full, table_register, PageTable.total_push]
  exact Nat.zero_add _

theorem capacity_full (limits : Limits) : (full limits).capacity = limits.chunk := by
  have hone : 2 < 8 * limits.chunk := Nat.lt_of_lt_of_le (by decide) (Nat.mul_le_mul_left 8 limits.chunk_pos)
  have hblank : (blank limits 2).capacity = limits.chunk := by
    unfold capacity blank
    rw [Array.size_replicate, Capacity.initial_of_lt hone]
  have hused : (full limits).usedBytes ≤ limits.chunk := by
    rw [usedBytes, total_full, Capacity.bytesFor_le]
  rw [full] at hused ⊢
  rw [capacity_register, hblank]
  exact Capacity.grown_of_le hused _

/-- On the full bitmap a page that is larger than a chunk calls for two chunks more. -/
theorem le_capacity_full_register (limits : Limits) :
    (full limits).capacity + 2 * limits.chunk ≤ ((full limits).register (8 * limits.chunk + 1)).capacity := by
  have hpos := limits.chunk_pos
  have hchunk : (full limits).chunk = limits.chunk := rfl
  rw [capacity_register, capacity_full, hchunk]
  obtain ⟨k, hk⟩ := Capacity.exists_grown_eq limits.chunk ((full limits).register (8 * limits.chunk + 1)).usedBytes
    limits.chunk
  have hused : ¬ ((full limits).register (8 * limits.chunk + 1)).usedBytes ≤ 2 * limits.chunk := by
    rw [usedBytes, table_register, PageTable.total_push, total_full, Capacity.bytesFor_le]
    omega
  have hheld := Capacity.required_le_grown limits.chunk
    ((full limits).register (8 * limits.chunk + 1)).usedBytes hpos
  rw [hk] at hheld ⊢
  -- one chunk more is not enough for what is used then
  have htwo : 2 ≤ k := by
    by_contra hless
    have hle : k * limits.chunk ≤ 1 * limits.chunk := Nat.mul_le_mul_right _ (by omega)
    omega
  exact Nat.add_le_add_left (Nat.mul_le_mul_right _ htwo) _

theorem exists_registers (hmax : 8 * limits.chunk < limits.maxItems) (hchunk : limits.chunk ≤ 2 ^ 27) :
    ∃ b b', Registers limits b b' ∧ b.capacity + 2 * limits.chunk ≤ b'.capacity := by
  have hfits := fits_blank hmax hchunk
  have hr : (full limits).refusal? 1 (8 * limits.chunk + 1) = none := hfits.register.refusal?_eq
  have hadd := addPage_eq_ok_iff.2 ⟨hr, rfl⟩
  rw [← operate_eq_full hfits] at hadd
  refine ⟨full limits, (full limits).register (8 * limits.chunk + 1), ?_, le_capacity_full_register limits⟩
  rw [← operate_eq_full hfits]
  exact .intro (by decide) _ hadd

/-! ## What limits are sound -/

/-- Limits with a chunk of one byte or more are sound just when no page registered in any run on a new bitmap, whatever
its page count, makes the buffer grow by more than one chunk. Under limits that are not sound some page makes it grow by
two or more. -/
theorem validate_eq_ok_iff_oneChunk (limits : Limits) (hpos : 1 ≤ limits.chunkBytes)
    (hle : limits.chunkBytes ≤ 2 ^ 27) :
    (limits.validate = .ok () ↔ ∀ b b', Registers limits b b' → b'.capacity ≤ b.capacity + limits.chunkBytes) ∧
    (limits.validate ≠ .ok () →
      ∃ b b', Registers limits b b' ∧ b.capacity + 2 * limits.chunkBytes ≤ b'.capacity) := by
  have hchunk : limits.chunk = limits.chunkBytes := Nat.max_eq_left hpos
  -- a chunk of this size has fewer than 2⁶⁴ bits
  have hbits : limits.chunkBits = 8 * limits.chunk := by
    rw [Limits.chunkBits_eq (by rw [UInt64.size]; omega), hchunk, Nat.mul_comm]
  have hlarge (hno : limits.validate ≠ .ok ()) :
      ∃ b b', Registers limits b b' ∧ b.capacity + 2 * limits.chunkBytes ≤ b'.capacity := by
    rw [Ne, limits.validate_eq_ok_iff, hbits] at hno
    rw [← hchunk] at hle ⊢
    exact exists_registers (Nat.lt_of_not_le fun hmax => hno ⟨hpos, hmax⟩) hle
  refine ⟨⟨fun hok b b' h => ?_, fun hall => ?_⟩, hlarge⟩
  · rw [← hchunk]
    exact h.capacity_le hok
  · by_contra hno
    obtain ⟨b, b', h, hgrown⟩ := hlarge hno
    have hone := hall b b' h
    omega

/-- A page of 33 items does not fit in a chunk of four bytes, and one of 32 does. -/
theorem validate_eq_ok_iff_oneChunk_fourBytes :
    (∀ b b', Registers { maxItems := 32, chunkBytes := 4 } b b' → b'.capacity ≤ b.capacity + 4) ∧
    ∃ b b', Registers { maxItems := 33, chunkBytes := 4 } b b' ∧ b.capacity + 8 ≤ b'.capacity :=
  ⟨(validate_eq_ok_iff_oneChunk { maxItems := 32, chunkBytes := 4 } (by decide) (by decide)).1.1 (by decide),
    (validate_eq_ok_iff_oneChunk { maxItems := 33, chunkBytes := 4 } (by decide) (by decide)).2 (by decide)⟩

end Occupancy.Bitmap
