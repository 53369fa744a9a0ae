import Occupancy.Bitmap
import Occupancy.Proofs.PageTable
/-!
# What every bitmap keeps

`Valid` holds of new bitmaps and is kept by every operation; `ZeroTail` says that no bit is set beyond those of
the items. In a valid bitmap the items of registered pages are just those that have an address, and what an
operation does to each item is one equation on `isMarked`.
-/

namespace Occupancy.Bitmap

variable {b : Bitmap}

structure Valid (b : Bitmap) : Prop where
  ordered : b.table.Ordered
  items_le : ∀ page items, b.table.items? page = some items → items ≤ b.maxItems
  used_le : b.usedBytes ≤ b.capacity
  chunk_pos : 0 < b.chunk
  total_lt : b.table.total < UInt32.size

/-- No bit beyond those of the items is set. -/
def ZeroTail (b : Bitmap) : Prop := ∀ k, b.table.total ≤ k → b.bit k = false

/-- The bit of an item. -/
def place (b : Bitmap) (page item : Nat) : BitAddress := ⟨b.table.start page + item⟩

/-! ## Which items have an address -/

theorem Valid.byteIndex_lt_used (h : b.Valid) {page item : Nat} (hi : b.table.Has page item) :
    (b.place page item).byteIndex < b.usedBytes :=
  Capacity.lt_bytesFor (h.ordered.offset_lt_total hi)

theorem Valid.byteIndex_lt (h : b.Valid) {page item : Nat} (hi : b.table.Has page item) :
    (b.place page item).byteIndex < b.capacity :=
  Nat.lt_of_lt_of_le (h.byteIndex_lt_used hi) h.used_le

theorem Valid.locate_of_has (h : b.Valid) {page item : Nat} (hi : b.table.Has page item) :
    b.locate page item = .ok (b.place page item) := by
  have hp : page < b.table.registered := (PageTable.has_iff.1 hi).1
  exact (b.table.locate_eq_ok_iff b.usedBytes page item _).2
    ⟨Nat.lt_of_lt_of_le hp h.ordered.registered_le, hi, rfl, h.byteIndex_lt_used hi⟩

theorem locate_of_not_has {page item : Nat} (hi : ¬ b.table.Has page item) :
    ∃ reason, b.locate page item = .error reason := by
  cases hl : b.locate page item with
  | error reason => exact ⟨reason, rfl⟩
  | ok a => exact absurd ((b.table.locate_eq_ok_iff b.usedBytes page item a).1 hl).2.1 hi

/-- An item has an address when it is one of a registered page; if not, its page or its number is at fault. -/
theorem Valid.locate_cases (h : b.Valid) (page item : Nat) :
    b.table.pageCount ≤ page ∧ b.table.registered ≤ page ∧
        b.locate page item = .error (.pageOutOfRange page b.table.pageCount) ∨
      page < b.table.pageCount ∧ b.table.registered ≤ page ∧
        b.locate page item = .error (.pageNotRegistered page b.table.registered) ∨
      ∃ items, page < b.table.pageCount ∧ page < b.table.registered ∧ b.table.items? page = some items ∧
        (items ≤ item ∧ b.locate page item = .error (.itemOutOfRange page item items) ∨
          item < items ∧ b.locate page item = .ok (b.place page item)) := by
  have hle := h.ordered.registered_le
  rcases Nat.lt_or_ge page b.table.registered with hreg | hreg
  · have hitems := PageTable.items?_eq_some_iff.2 ⟨hreg, rfl⟩
    have hpage : ¬ b.table.pageCount ≤ page := by omega
    refine .inr (.inr ⟨_, Nat.lt_of_lt_of_le hreg hle, hreg, hitems, ?_⟩)
    rcases Nat.lt_or_ge item (b.table.start (page + 1) - b.table.start page) with hlt | hge
    · exact .inr ⟨hlt, h.locate_of_has ⟨_, hitems, hlt⟩⟩
    · refine .inl ⟨hge, ?_⟩
      unfold locate PageTable.locate
      rw [if_neg hpage, hitems]
      exact if_pos hge
  · rcases Nat.lt_or_ge page b.table.pageCount with hlt | hge
    · refine .inr (.inl ⟨hlt, hreg, ?_⟩)
      unfold locate PageTable.locate
      rw [if_neg (Nat.not_le.2 hlt), (PageTable.items?_eq_none_iff _ _).2 hreg]
    · exact .inl ⟨hge, hreg, if_pos hge⟩

theorem Valid.isMarked_of_has (h : b.Valid) {page item : Nat} (hi : b.table.Has page item) :
    b.isMarked page item = b.bit (b.table.start page + item) := by
  simp only [isMarked, get, h.locate_of_has hi, Except.map, place]

theorem isMarked_of_not_has {page item : Nat} (hi : ¬ b.table.Has page item) : b.isMarked page item = false := by
  obtain ⟨reason, hl⟩ := locate_of_not_has hi
  simp only [isMarked, get, hl, Except.map]

theorem Valid.isMarked_iff (h : b.Valid) {page item : Nat} :
    b.isMarked page item = true ↔ b.table.Has page item ∧ b.bit (b.table.start page + item) = true := by
  by_cases hi : b.table.Has page item
  · simp [h.isMarked_of_has hi, hi]
  · simp [isMarked_of_not_has hi, hi]

/-! ## Writing an item -/

theorem Valid.write_of_has (h : b.Valid) {page item : Nat} (hi : b.table.Has page item) (on : Bool) :
    b.write page item on = (b.put (b.place page item) on, none) := by
  simp only [write, h.locate_of_has hi]

theorem write_of_not_has {page item : Nat} (hi : ¬ b.table.Has page item) (on : Bool) :
    ∃ reason, b.locate page item = .error reason ∧ b.write page item on = (b, some reason) := by
  obtain ⟨reason, hl⟩ := locate_of_not_has hi
  exact ⟨reason, hl, by simp only [write, hl]⟩

theorem Valid.write_eq_none_iff (h : b.Valid) (page item : Nat) (on : Bool) :
    (b.write page item on).2 = none ↔ b.table.Has page item := by
  by_cases hi : b.table.Has page item
  · simp [h.write_of_has hi, hi]
  · obtain ⟨reason, -, hw⟩ := write_of_not_has hi on
    simp [hw, hi]

theorem Valid.bit_put_place (h : b.Valid) {page item : Nat} (hi : b.table.Has page item) (on : Bool) (k : Nat) :
    (b.put (b.place page item) on).bit k = if k = b.table.start page + item then on else b.bit k :=
  b.bit_put _ on (h.byteIndex_lt hi) k

theorem Valid.put (h : b.Valid) (a : BitAddress) (on : Bool) : (b.put a on).Valid where
  ordered := h.ordered
  items_le := h.items_le
  used_le := Nat.le_trans h.used_le (Nat.le_of_eq (b.capacity_put a on).symm)
  chunk_pos := h.chunk_pos
  total_lt := h.total_lt

theorem Valid.zeroTail_put (h : b.Valid) (hz : b.ZeroTail) {page item : Nat} (hi : b.table.Has page item)
    (on : Bool) : (b.put (b.place page item) on).ZeroTail := by
  intro k hk
  have hlt := h.ordered.offset_lt_total hi
  have hle : b.table.total ≤ k := hk
  rw [h.bit_put_place hi, if_neg (by omega)]
  exact hz k hle

/-- A write changes no item but its own. -/
theorem Valid.isMarked_put (h : b.Valid) {page item : Nat} (hi : b.table.Has page item) (on : Bool) (p i : Nat) :
    (b.put (b.place page item) on).isMarked p i = if p = page ∧ i = item then on else b.isMarked p i := by
  by_cases hp : b.table.Has p i
  · have hp' : (b.put (b.place page item) on).table.Has p i := hp
    rw [(h.put _ on).isMarked_of_has hp', h.isMarked_of_has hp]
    rw [h.bit_put_place hi]
    by_cases he : p = page ∧ i = item
    · obtain ⟨rfl, rfl⟩ := he
      simp [Bitmap.put]
    · have hne : (b.put (b.place page item) on).table.start p + i ≠ b.table.start page + item :=
        fun e => he (h.ordered.offset_inj hp hi e)
      simp only [he, hne, if_false]
      rfl
  · have hp' : ¬ (b.put (b.place page item) on).table.Has p i := hp
    have hne : ¬ (p = page ∧ i = item) := by
      rintro ⟨rfl, rfl⟩
      exact hp hi
    rw [isMarked_of_not_has hp', isMarked_of_not_has hp, if_neg hne]

/-! ## Clearing the buffer -/

theorem Valid.duplicate (h : b.Valid) : b.duplicate.Valid where
  ordered := h.ordered
  items_le := h.items_le
  used_le := Nat.le_trans h.used_le (Nat.le_of_eq b.capacity_duplicate.symm)
  chunk_pos := h.chunk_pos
  total_lt := h.total_lt

theorem zeroTail_duplicate (b : Bitmap) : b.duplicate.ZeroTail := fun k _ => b.bit_duplicate k

theorem isMarked_of_bits {page item : Nat} (h : ∀ k, b.bit k = false) : b.isMarked page item = false := by
  rw [← Bool.not_eq_true]
  intro hm
  simp only [isMarked, get] at hm
  cases hl : b.locate page item with
  | error reason => simp [hl, Except.map] at hm
  | ok a => simp [hl, Except.map, h] at hm

theorem isMarked_duplicate (b : Bitmap) (page item : Nat) : b.duplicate.isMarked page item = false :=
  isMarked_of_bits b.bit_duplicate

/-! ## Registering a page -/

theorem refusal?_eq_none_iff (b : Bitmap) (page items : Nat) :
    b.refusal? page items = none ↔
      page < b.table.pageCount ∧ items ≤ b.maxItems ∧ page = b.table.registered ∧
        b.table.total + items < UInt32.size := by
  unfold refusal?
  split
  · simp; omega
  · split
    · simp; omega
    · split
      · simp; omega
      · split
        · simp; omega
        · simp only [true_iff]
          omega

theorem addPage_eq_ok_iff {page items : Nat} {b' : Bitmap} :
    b.addPage page items = .ok b' ↔ b.refusal? page items = none ∧ b.register items = b' := by
  unfold addPage
  cases b.refusal? page items <;> simp

theorem table_register (b : Bitmap) (items : Nat) : (b.register items).table = b.table.push items := rfl

theorem bit_register (b : Bitmap) (items k : Nat) : (b.register items).bit k = b.bit k :=
  bit_grow { b with table := b.table.push items } _ k

theorem zeroTail_register (h : b.ZeroTail) (items : Nat) : (b.register items).ZeroTail := by
  intro k hk
  rw [table_register, PageTable.total_push] at hk
  rw [bit_register]
  exact h k (by omega)

theorem Valid.register (h : b.Valid) {items : Nat} (hr : b.refusal? b.table.registered items = none) :
    (b.register items).Valid := by
  obtain ⟨hp, hi, -, ht⟩ := (b.refusal?_eq_none_iff _ items).1 hr
  refine ⟨h.ordered.push items hp, fun page n hn => ?_, ?_, h.chunk_pos, ?_⟩
  · rw [table_register, PageTable.items?_push] at hn
    split at hn
    · cases hn
      exact hi
    · exact h.items_le page n hn
  · have hc := ({ b with table := b.table.push items } : Bitmap).capacity_grow
      (Capacity.bytesFor (b.table.push items).total)
    exact Nat.le_trans (Capacity.required_le_grown _ _ h.chunk_pos) (Nat.le_of_eq hc.symm)
  · rw [table_register, PageTable.total_push]
    exact ht

/-- The new page shows the bits that lay beyond the last item; no other page changes. -/
theorem Valid.isMarked_register (h : b.Valid) {items : Nat} (hr : b.refusal? b.table.registered items = none)
    (page item : Nat) :
    (b.register items).isMarked page item =
      if page = b.table.registered then decide (item < items) && b.bit (b.table.total + item)
      else b.isMarked page item := by
  have hv := h.register hr
  have hiff := b.table.has_push items page item
  by_cases hp : page = b.table.registered
  · subst hp
    have hno : ¬ b.table.Has b.table.registered item := fun hi => Nat.lt_irrefl _ (PageTable.has_iff.1 hi).1
    rw [if_pos rfl]
    by_cases hlt : item < items
    · rw [hv.isMarked_of_has (hiff.2 (.inr ⟨rfl, hlt⟩)), bit_register, table_register,
        PageTable.start_push items (Nat.le_refl _), ← PageTable.total_eq_start]
      simp [hlt]
    · rw [isMarked_of_not_has (fun hi => (hiff.1 hi).elim hno (fun hi => hlt hi.2))]
      simp [hlt]
  · rw [if_neg hp]
    by_cases hi : b.table.Has page item
    · rw [hv.isMarked_of_has (hiff.2 (.inl hi)), h.isMarked_of_has hi, bit_register, table_register,
        PageTable.start_push items (Nat.le_of_lt (PageTable.has_iff.1 hi).1)]
    · rw [isMarked_of_not_has hi, isMarked_of_not_has (fun h' => (hiff.1 h').elim hi (fun h' => hp h'.1))]

theorem Valid.isMarked_addPage (h : b.Valid) {page items : Nat} {b' : Bitmap} (ha : b.addPage page items = .ok b')
    (p i : Nat) :
    b'.isMarked p i =
      if p = page then decide (i < items) && b.bit (b.table.total + i) else b.isMarked p i := by
  obtain ⟨hr, rfl⟩ := addPage_eq_ok_iff.1 ha
  obtain ⟨-, -, rfl, -⟩ := (b.refusal?_eq_none_iff page items).1 hr
  exact h.isMarked_register hr p i

/-! ## New bitmaps -/

theorem bit_blank (limits : Limits) (pageCount k : Nat) : (blank limits pageCount).bit k = false := by
  simp only [bit, blank, Array.getD, Array.size_replicate, Array.getInternal_eq_getElem,
    Array.getElem_replicate]
  split <;> exact Byte.bit_zero _

theorem valid_blank (limits : Limits) (pageCount : Nat) : (blank limits pageCount).Valid where
  ordered := PageTable.ordered_empty pageCount
  items_le page items h := by simp [blank, PageTable.items?, PageTable.range?] at h
  used_le := Capacity.bytesFor_le.2 (Nat.zero_le _)
  chunk_pos := limits.chunk_pos
  total_lt := show 0 < UInt32.size by decide

theorem zeroTail_blank (limits : Limits) (pageCount : Nat) : (blank limits pageCount).ZeroTail :=
  fun k _ => bit_blank limits pageCount k

end Occupancy.Bitmap
