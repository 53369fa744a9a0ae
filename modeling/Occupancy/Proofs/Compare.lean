import Mathlib
import Occupancy.Bitmap.Compare
import Occupancy.Proofs.Bitmap
/-!
# What counting and comparing bits finds

The set bits of the used bytes are those of the marked items and, past the last item, stray ones
(`Valid.count_eq_marks_add`); where there are none, a bitmap counts its marked items. The bits that differ
between bitmaps that have the same items are those of the items that only one of them has marked. `diff` lists, in
order, the items of this kind on the pages that lie at the same place in both (`mem_diff`, `pairwise_diff`).
-/

namespace Occupancy

variable {a b : Bitmap}

/-! ## Bits of a row -/

theorem count_true_eq (l : List Bool) : l.count true = Nat.count (fun k => l.getD k false = true) l.length := by
  induction l with
  | nil => rfl
  | cons x l ih =>
    rw [List.length_cons, Nat.count_succ', List.count_cons, ih]
    cases x <;> simp

theorem count_congr {p q : Nat → Prop} [DecidablePred p] [DecidablePred q] {n : Nat}
    (h : ∀ k < n, p k ↔ q k) : Nat.count p n = Nat.count q n :=
  Nat.le_antisymm (Nat.count_mono_left fun k hk => (h k hk).1) (Nat.count_mono_left fun k hk => (h k hk).2)

namespace Byte

theorem getD_bits (b : UInt8) {k : Nat} (h : k < 8) : (bits b).getD k false = bit b k := by
  simp [bits, h]

theorem getD_row (bs : List UInt8) (k : Nat) : (row bs).getD k false = bit (bs.getD (k / 8) 0) (k % 8) := by
  induction bs generalizing k with
  | nil => simp [row, bit_zero]
  | cons b bs ih =>
    rw [row, List.flatMap_cons, ← row]
    rcases Nat.lt_or_ge k 8 with hk | hk
    · rw [List.getD_append _ _ _ _ (by rwa [length_bits]), getD_bits b hk, Nat.div_eq_of_lt hk,
        Nat.mod_eq_of_lt hk]
      rfl
    · have hdiv : k / 8 = (k - 8) / 8 + 1 := by omega
      have hmod : k % 8 = (k - 8) % 8 := by omega
      rw [List.getD_append_right _ _ _ _ (by rwa [length_bits]), length_bits, ih, hdiv, hmod]
      rfl

theorem count_row (bs : List UInt8) :
    (row bs).count true = Nat.count (fun k => bit (bs.getD (k / 8) 0) (k % 8) = true) (8 * bs.length) := by
  simp only [count_true_eq, getD_row, length_row]

end Byte

namespace Bitmap

/-! ## Bits of the used bytes -/

theorem length_used (h : b.usedBytes ≤ b.capacity) : b.used.length = b.usedBytes := by
  rw [used_eq, List.length_take, Array.length_toList]
  exact Nat.min_eq_left h

theorem getD_used {k : Nat} (hk : k < b.usedBytes) : b.used.getD k 0 = b.bytes.getD k 0 := by
  rw [used_eq, List.getD_eq_getElem?_getD, List.getElem?_take_of_lt hk, Array.getElem?_toList,
    Array.getD_eq_getD_getElem?]

theorem bit_used {k : Nat} (hk : k < b.usedBits) : Byte.bit (b.used.getD (k / 8) 0) (k % 8) = b.bit k := by
  rw [usedBits] at hk
  rw [getD_used (by omega), bit]

theorem count_eq_bits (h : b.usedBytes ≤ b.capacity) : b.count = Nat.count (fun k => b.bit k = true) b.usedBits := by
  rw [count_eq, Byte.count_row, length_used h]
  exact count_congr fun k hk => by rw [bit_used hk]

end Bitmap

/-! ## Items as bits -/

/-- Items of registered pages number as many as their bits. -/
theorem PageTable.Ordered.encard_eq_count {t : PageTable} (h : t.Ordered) {items : Set ItemRef} {p : Nat → Prop}
    [DecidablePred p] (hi : ∀ x, x ∈ items ↔ t.Has x.page x.item ∧ p (t.start x.page + x.item)) :
    items.encard = Nat.count p t.total := by
  -- no two items share an offset, and every offset below the total is that of an item
  have hinj : Set.InjOn (fun x : ItemRef => t.start x.page + x.item) items := by
    rintro ⟨page, item⟩ hx ⟨page', item'⟩ hy e
    obtain ⟨rfl, rfl⟩ := h.offset_inj ((hi _).1 hx).1 ((hi _).1 hy).1 e
    rfl
  have himage : (fun x : ItemRef => t.start x.page + x.item) '' items =
      ((Finset.range t.total).filter p : Finset Nat) := by
    ext k
    simp only [Set.mem_image, Finset.coe_filter, Finset.mem_range, Set.mem_ofPred_eq]
    constructor
    · rintro ⟨x, hx, rfl⟩
      obtain ⟨hhas, hp⟩ := (hi x).1 hx
      exact ⟨h.offset_lt_total hhas, hp⟩
    · rintro ⟨hk, hp⟩
      obtain ⟨page, item, hhas, rfl⟩ := t.exists_offset hk
      exact ⟨⟨page, item⟩, (hi _).2 ⟨hhas, hp⟩, rfl⟩
  rw [← hinj.encard_image, himage, Set.encard_coe_eq_coe_finsetCard, Nat.count_eq_card_filter_range]

namespace Bitmap

/-- The items that are marked. -/
def marks (b : Bitmap) : Set ItemRef := {x | b.isMarked x.page x.item = true}

theorem mem_marks {x : ItemRef} : x ∈ b.marks ↔ b.isMarked x.page x.item = true := Iff.rfl

theorem marks_duplicate (b : Bitmap) : b.duplicate.marks = ∅ := by
  ext x
  simp [mem_marks, isMarked_duplicate]

theorem Valid.marks_put (h : b.Valid) {x : ItemRef} (hi : b.table.Has x.page x.item) :
    (b.put (b.place x.page x.item) true).marks = insert x b.marks := by
  ext ⟨page, item⟩
  rw [mem_marks, h.isMarked_put hi, Set.mem_insert_iff, mem_marks]
  cases x
  simp

theorem Valid.encard_marks (h : b.Valid) : b.marks.encard = Nat.count (fun k => b.bit k = true) b.table.total :=
  h.ordered.encard_eq_count fun _ => h.isMarked_iff

/-- The set bits of the used bytes that belong to no item. -/
def strays (b : Bitmap) : Nat :=
  Nat.count (fun k => b.bit (b.table.total + k) = true) (b.usedBits - b.table.total)

theorem total_le_usedBits (b : Bitmap) : b.table.total ≤ b.usedBits := Capacity.bytesFor_le.1 (Nat.le_refl _)

theorem Valid.count_eq_marks_add (h : b.Valid) : (b.count : ℕ∞) = b.marks.encard + b.strays := by
  have hsplit : b.table.total + (b.usedBits - b.table.total) = b.usedBits := Nat.add_sub_of_le b.total_le_usedBits
  rw [h.encard_marks, count_eq_bits h.used_le, ← hsplit, Nat.count_add, Nat.cast_add, strays]

theorem strays_eq_zero_iff : b.strays = 0 ↔ ∀ k, b.table.total ≤ k → k < b.usedBits → b.bit k = false := by
  rw [strays, Nat.count_iff_forall_not]
  constructor
  · intro h k hk hlt
    have := h (k - b.table.total) (by omega)
    rwa [Nat.add_sub_of_le hk, Bool.not_eq_true] at this
  · intro h k hk
    rw [Bool.not_eq_true]
    exact h _ (Nat.le_add_right ..) (by omega)

theorem Valid.count_eq_marks (h : b.Valid) (hz : b.ZeroTail) : (b.count : ℕ∞) = b.marks.encard := by
  have hs : b.strays = 0 := strays_eq_zero_iff.2 fun k hk _ => hz k hk
  rw [h.count_eq_marks_add, hs, Nat.cast_zero, add_zero]

/-! ## Bits that differ -/

theorem encard_sdiff_eq_zero_iff {s t : Set ItemRef} : (s \ t).encard + (t \ s).encard = 0 ↔ s = t := by
  rw [add_eq_zero, Set.encard_eq_zero, Set.encard_eq_zero, Set.sdiff_eq_empty, Set.sdiff_eq_empty]
  exact Set.Subset.antisymm_iff.symm

theorem compare_of_eq (hp : a.table.pageCount = b.table.pageCount) (ht : a.table.total = b.table.total) :
    a.compare b = (a.differingBits b, []) := by
  unfold compare
  dsimp only
  rw [if_neg (not_not.2 hp), if_neg (not_not.2 ht)]

theorem getD_zipWith_xor (as bs : List UInt8) {k : Nat} (ha : k < as.length) (hb : k < bs.length) :
    (List.zipWith (· ^^^ ·) as bs).getD k 0 = as.getD k 0 ^^^ bs.getD k 0 := by
  simp [ha, hb]

/-- Bits are compared as far as both bitmaps have used bytes. -/
theorem differingBits_eq_bits (ha : a.usedBytes ≤ a.capacity) (hb : b.usedBytes ≤ b.capacity) :
    a.differingBits b = Nat.count (fun k => a.bit k ≠ b.bit k) (min a.usedBits b.usedBits) := by
  have hla := length_used ha
  have hlb := length_used hb
  have hmin : 8 * min a.usedBytes b.usedBytes = min a.usedBits b.usedBits := (Nat.mul_min_mul_left ..).symm
  rw [differingBits_eq, Byte.count_row, List.length_zipWith, hla, hlb, hmin]
  refine count_congr fun k hk => ?_
  obtain ⟨hka, hkb⟩ := Nat.lt_min.1 hk
  have hka' : k / 8 < a.usedBytes := Nat.div_lt_of_lt_mul hka
  have hkb' : k / 8 < b.usedBytes := Nat.div_lt_of_lt_mul hkb
  rw [getD_zipWith_xor _ _ (by rwa [hla]) (by rwa [hlb]), Byte.bit_xor, bit_used hka, bit_used hkb, Bool.xor_iff_ne]

/-- Where nothing is set past the last items, the bits that differ are those of items. -/
theorem Valid.differingBits_eq_count (ha : a.Valid) (hb : b.Valid) (hza : a.ZeroTail) (hzb : b.ZeroTail)
    (ht : a.table.total = b.table.total) :
    a.differingBits b = Nat.count (fun k => a.bit k ≠ b.bit k) a.table.total := by
  have hu : b.usedBits = a.usedBits := by rw [usedBits, usedBits, usedBytes, usedBytes, ht]
  have hsplit : a.table.total + (a.usedBits - a.table.total) = a.usedBits := Nat.add_sub_of_le a.total_le_usedBits
  have htail : Nat.count (fun k => a.bit (a.table.total + k) ≠ b.bit (a.table.total + k))
      (a.usedBits - a.table.total) = 0 := by
    refine Nat.count_iff_forall_not.2 fun k _ => ?_
    rw [hza _ (Nat.le_add_right ..), hzb _ (by rw [ht]; exact Nat.le_add_right ..)]
    exact fun h => h rfl
  rw [differingBits_eq_bits ha.used_le hb.used_le, hu, Nat.min_self, ← hsplit, Nat.count_add, htail, Nat.add_zero]

theorem mem_symmDiff_marks (ha : a.Valid) (hb : b.Valid) (hs : PageTable.SameItems a.table b.table) (x : ItemRef) :
    x ∈ a.marks \ b.marks ∪ b.marks \ a.marks ↔
      a.table.Has x.page x.item ∧ a.bit (a.table.start x.page + x.item) ≠ b.bit (a.table.start x.page + x.item) := by
  simp only [Set.mem_union, Set.mem_sdiff, mem_marks, ha.isMarked_iff, hb.isMarked_iff, ← hs x.page x.item]
  by_cases hi : a.table.Has x.page x.item
  · rw [← ha.ordered.start_eq_of_has hb.ordered hs hi]
    cases a.bit (a.table.start x.page + x.item) <;> cases b.bit (a.table.start x.page + x.item) <;> simp [hi]
  · simp [hi]

theorem Valid.differingBits_eq_marks_of_sameItems (ha : a.Valid) (hb : b.Valid) (hza : a.ZeroTail)
    (hzb : b.ZeroTail) (hs : PageTable.SameItems a.table b.table) :
    (a.differingBits b : ℕ∞) = (a.marks \ b.marks).encard + (b.marks \ a.marks).encard := by
  have hdisjoint : Disjoint (a.marks \ b.marks) (b.marks \ a.marks) := disjoint_sdiff_sdiff
  rw [← Set.encard_union_eq hdisjoint,
    ha.ordered.encard_eq_count (p := fun k => a.bit k ≠ b.bit k) (mem_symmDiff_marks ha hb hs),
    ha.differingBits_eq_count hb hza hzb (ha.ordered.total_eq hb.ordered hs)]

theorem Valid.differingBits_eq_marks (ha : a.Valid) (hb : b.Valid) (hza : a.ZeroTail) (hzb : b.ZeroTail)
    (ht : b.table = a.table) :
    (a.differingBits b : ℕ∞) = (a.marks \ b.marks).encard + (b.marks \ a.marks).encard := by
  have hs : PageTable.SameItems a.table b.table := by
    rw [ht]
    exact fun _ _ => Iff.rfl
  exact ha.differingBits_eq_marks_of_sameItems hb hza hzb hs

end Bitmap

/-! ## Items that differ -/

/-- Items in the order of pages, and on one page in their own. -/
def ItemRef.Before (x y : ItemRef) : Prop := x.page < y.page ∨ x.page = y.page ∧ x.item < y.item

namespace Bitmap

theorem sideOf_eq_some_iff {page item : Nat} {side : Side} :
    sideOf a b page item = some side ↔
      side = .onlyInLeft ∧ (⟨page, item⟩ : ItemRef) ∈ a.marks \ b.marks ∨
      side = .onlyInRight ∧ (⟨page, item⟩ : ItemRef) ∈ b.marks \ a.marks := by
  simp only [sideOf, Set.mem_sdiff, mem_marks]
  cases a.isMarked page item <;> cases b.isMarked page item <;> cases side <;> simp

theorem mem_diffItem {page item : Nat} {d : ItemDiff} :
    d ∈ diffItem a b page item ↔ d.page = page ∧ d.item = item ∧ sideOf a b page item = some d.side := by
  unfold diffItem
  cases sideOf a b page item with
  | none => simp
  | some side =>
    rw [List.mem_singleton]
    constructor
    · rintro rfl
      exact ⟨rfl, rfl, rfl⟩
    · obtain ⟨⟨page', item'⟩, side'⟩ := d
      rintro ⟨rfl, rfl, h⟩
      rw [Option.some.inj h]

theorem pairwise_diffItem (R : ItemDiff → ItemDiff → Prop) (page item : Nat) :
    (diffItem a b page item).Pairwise R := by
  unfold diffItem
  split
  · exact List.pairwise_singleton ..
  · exact .nil

/-- Just the pages that lie at the same place are looked at, item by item. -/
theorem diffPage_eq_ite (a b : Bitmap) (page : Nat) :
    diffPage a b page =
      if a.table.range? page = b.table.range? page then
        (List.range ((a.table.items? page).getD 0)).flatMap (diffItem a b page)
      else [] := by
  cases hr : a.table.range? page with
  | none =>
    have hnone : a.table.items? page = none := by rw [PageTable.items?, hr, Option.map_none]
    have hnil : diffPage a b page = [] := by simp only [diffPage, hr]
    rw [hnil, hnone, Option.getD_none, List.range_zero, List.flatMap_nil, ite_self]
  | some range =>
    obtain ⟨start, stop⟩ := range
    have hitems : a.table.items? page = some (stop - start) := by rw [PageTable.items?, hr, Option.map_some]
    by_cases hr' : b.table.range? page = some (start, stop)
    · rw [if_pos hr'.symm, diffPage_eq hr hr', hitems, Option.getD_some]
    · rw [if_neg (Ne.symm hr')]
      simp only [diffPage, hr, if_neg hr']

theorem mem_diffPage {page : Nat} {d : ItemDiff} :
    d ∈ diffPage a b page ↔
      d.page = page ∧ PageTable.Shared a.table b.table page d.item ∧ sideOf a b page d.item = some d.side := by
  rw [diffPage_eq_ite]
  split
  · next hr =>
    simp only [List.mem_flatMap, List.mem_range, PageTable.lt_getD_items?_iff]
    constructor
    · rintro ⟨item, hi, hd⟩
      obtain ⟨hp, rfl, hside⟩ := mem_diffItem.1 hd
      exact ⟨hp, ⟨hi, hr⟩, hside⟩
    · rintro ⟨hp, ⟨hi, -⟩, hside⟩
      exact ⟨d.item, hi, mem_diffItem.2 ⟨hp, rfl, hside⟩⟩
  · next hr =>
    constructor
    · intro hd
      cases hd
    · rintro ⟨-, hshared, -⟩
      exact absurd hshared.2 hr

theorem mem_diff {d : ItemDiff} :
    d ∈ a.diff b ↔ PageTable.Shared a.table b.table d.page d.item ∧ sideOf a b d.page d.item = some d.side := by
  unfold diff
  rw [List.mem_flatMap]
  constructor
  · rintro ⟨page, -, hd⟩
    obtain ⟨rfl, h⟩ := mem_diffPage.1 hd
    exact h
  · intro h
    have hl := (PageTable.has_iff.1 h.1.1).1
    have hr := (PageTable.has_iff.1 h.1.symm.1).1
    exact ⟨d.page, List.mem_range.2 (Nat.lt_min.2 ⟨hl, hr⟩), mem_diffPage.2 ⟨rfl, h⟩⟩

theorem mem_diff_of_table_eq (ht : b.table = a.table) {d : ItemDiff} :
    d ∈ a.diff b ↔ sideOf a b d.page d.item = some d.side := by
  rw [mem_diff, ht, PageTable.shared_self]
  constructor
  · exact And.right
  · refine fun h => ⟨?_, h⟩
    -- an item without a bit is marked on neither side
    by_contra hno
    have hno' : ¬ b.table.Has d.page d.item := by rwa [ht]
    simp [sideOf, isMarked_of_not_has hno, isMarked_of_not_has hno'] at h

theorem pairwise_diffPage (a b : Bitmap) (page : Nat) :
    (diffPage a b page).Pairwise fun x y => x.toItemRef.Before y.toItemRef := by
  rw [diffPage_eq_ite]
  split
  · rw [List.pairwise_flatMap]
    refine ⟨fun item _ => pairwise_diffItem _ page item, List.pairwise_lt_range.imp fun hlt x hx y hy => ?_⟩
    obtain ⟨hxp, hxi, -⟩ := mem_diffItem.1 hx
    obtain ⟨hyp, hyi, -⟩ := mem_diffItem.1 hy
    exact .inr ⟨by rw [hxp, hyp], by rwa [hxi, hyi]⟩
  · exact .nil

theorem pairwise_diff (a b : Bitmap) : (a.diff b).Pairwise fun x y => x.toItemRef.Before y.toItemRef := by
  unfold diff
  rw [List.pairwise_flatMap]
  refine ⟨fun page _ => pairwise_diffPage a b page, List.pairwise_lt_range.imp fun hlt x hx y hy => .inl ?_⟩
  rwa [(mem_diffPage.1 hx).1, (mem_diffPage.1 hy).1]

end Bitmap

end Occupancy
