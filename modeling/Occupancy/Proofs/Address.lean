import Mathlib
import Occupancy.Proofs.Compare
import Occupancy.Proofs.Store
/-!
# Addresses follow the order of items

Taken page by page, the items of the registered pages own the bits from the first on, one after the other
(`Ordered.map_offset_items`). In memory the address of an item, the number of items of a page and the range of its
bits are each worked out on their own; `operate_addressed` says that after any run they agree, and that addressing
runs through the items in order and leaves no bit out.
-/

namespace Occupancy

namespace PageTable

variable {t : PageTable}

/-- The items of a page, in their order; none if the page is not registered. -/
def itemsOf (t : PageTable) (page : Nat) : List ItemRef :=
  (List.range ((t.items? page).getD 0)).map (ItemRef.mk page)

/-- The items of all registered pages, in the order of pages. -/
def items (t : PageTable) : List ItemRef := (List.range t.registered).flatMap t.itemsOf

/-! ## Which items there are -/

theorem mem_itemsOf {page : Nat} {x : ItemRef} : x ∈ t.itemsOf page ↔ x.page = page ∧ t.Has page x.item := by
  simp only [itemsOf, List.mem_map, List.mem_range, lt_getD_items?_iff]
  constructor
  · rintro ⟨item, hi, rfl⟩
    exact ⟨rfl, hi⟩
  · rintro ⟨rfl, hi⟩
    exact ⟨x.item, hi, rfl⟩

theorem mem_items {x : ItemRef} : x ∈ t.items ↔ t.Has x.page x.item := by
  unfold items
  rw [List.mem_flatMap]
  constructor
  · rintro ⟨page, -, hx⟩
    obtain ⟨rfl, hi⟩ := mem_itemsOf.1 hx
    exact hi
  · intro hi
    exact ⟨x.page, List.mem_range.2 (has_iff.1 hi).1, mem_itemsOf.2 ⟨rfl, hi⟩⟩

theorem pairwise_itemsOf (t : PageTable) (page : Nat) : (t.itemsOf page).Pairwise ItemRef.Before := by
  unfold itemsOf
  rw [List.pairwise_map]
  exact List.pairwise_lt_range.imp fun hlt => .inr ⟨rfl, hlt⟩

theorem pairwise_items (t : PageTable) : t.items.Pairwise ItemRef.Before := by
  unfold items
  rw [List.pairwise_flatMap]
  refine ⟨fun page _ => t.pairwise_itemsOf page, List.pairwise_lt_range.imp fun hlt x hx y hy => .inl ?_⟩
  rwa [(mem_itemsOf.1 hx).1, (mem_itemsOf.1 hy).1]

/-! ## Which bits they own -/

theorem map_offset_itemsOf {page : Nat} (h : page < t.registered) :
    (t.itemsOf page).map (fun x => t.start x.page + x.item) =
      (List.range (t.start (page + 1) - t.start page)).map (t.start page + ·) := by
  unfold itemsOf
  rw [items?_eq_some_iff.2 ⟨h, rfl⟩, List.map_map]
  rfl

/-- The items of the first `count` pages own the bits in front of the page that comes next. -/
theorem Ordered.map_offset_flatMap (h : t.Ordered) {count : Nat} (hcount : count ≤ t.registered) :
    ((List.range count).flatMap t.itemsOf).map (fun x => t.start x.page + x.item) = List.range (t.start count) := by
  induction count with
  | zero => rfl
  | succ page ih =>
    have hsplit : t.start (page + 1) = t.start page + (t.start (page + 1) - t.start page) :=
      (Nat.add_sub_of_le (h.start_le page hcount)).symm
    rw [List.range_succ, List.flatMap_append, List.flatMap_singleton, List.map_append, ih (Nat.le_of_lt hcount),
      map_offset_itemsOf hcount, hsplit, List.range_add, ← hsplit]

theorem Ordered.map_offset_items (h : t.Ordered) :
    t.items.map (fun x => t.start x.page + x.item) = List.range t.total := by
  rw [total_eq_start]
  exact h.map_offset_flatMap (Nat.le_refl _)

end PageTable

/-! ## Addresses in memory -/

namespace Store

variable {s : Store} {limits : Limits}

/-- The range of a page's bits, the number of its items and the addresses of these are worked out alike. -/
def AgreesOn (s : Store) (page : Nat) : Prop :=
  s.table.registered ≤ page ∧ s.range? page = .ok none ∧ s.items? page = .ok none ∧
      (∀ item a, s.locate page item ≠ .ok (.ok a)) ∨
    page < s.table.registered ∧ ∃ start items, s.range? page = .ok (some (start, start + items)) ∧
      s.items? page = .ok (some items) ∧
      ∀ item a, s.locate page item = .ok (.ok a) ↔ item < items ∧ a.offset = start + item

/-- The items of the registered pages, and no others, have addresses: the bits of the used bytes, in order. -/
structure Addressed (s : Store) : Prop where
  /-- The first item has the first bit, the one after it the next, and so on to the last of them. -/
  map_locate : s.table.items.map (fun x => s.locate x.page x.item) =
    (List.range s.table.total).map fun k => .ok (.ok ⟨k⟩)
  pairwise : s.table.items.Pairwise ItemRef.Before
  mem_iff : ∀ page item, ⟨page, item⟩ ∈ s.table.items ↔ ∃ a, s.locate page item = .ok (.ok a)
  agree : ∀ page, s.AgreesOn page
  /-- The bit is one of the used bytes. -/
  within : ∀ page item a, s.locate page item = .ok (.ok a) →
    8 * a.byteIndex + a.bitIndex = a.offset ∧ a.bitIndex < 8 ∧
      ∃ span, s.span = .ok span ∧ a.byteIndex < span.size
  /-- It is the bit of no other item. -/
  inj : ∀ page item page' item' a a', s.locate page item = .ok (.ok a) → s.locate page' item' = .ok (.ok a') →
    a.byteIndex = a'.byteIndex → a.bitIndex = a'.bitIndex → page = page' ∧ item = item'

theorem Sound.ordered (h : s.Sound limits) : s.table.Ordered := ⟨h.registered_le, h.start_le⟩

theorem Sound.locate_of_has (h : s.Sound limits) {page item : Nat} (hi : s.table.Has page item) :
    s.locate page item = .ok (.ok ⟨s.table.start page + item⟩) :=
  (h.located_iff page item _).2 ⟨hi, rfl⟩

theorem Sound.agreesOn (h : s.Sound limits) (page : Nat) : s.AgreesOn page := by
  unfold AgreesOn
  rw [h.range?_eq, h.items?_eq]
  rcases Nat.lt_or_ge page s.table.registered with hlt | hge
  · have hstop := Nat.add_sub_of_le (h.start_le page hlt)
    refine .inr ⟨hlt, s.table.start page, s.table.start (page + 1) - s.table.start page, ?_, ?_, fun item a => ?_⟩
    · rw [PageTable.range?_of_lt hlt, hstop]
    · rw [PageTable.items?_eq_some_iff.2 ⟨hlt, rfl⟩]
    · rw [h.located_iff, PageTable.has_iff]
      omega
  · have hnone := (PageTable.items?_eq_none_iff s.table page).2 hge
    refine .inl ⟨hge, ?_, ?_, fun item a ha => ?_⟩
    · rw [(PageTable.range?_eq_none_iff s.table page).2 hge]
    · rw [hnone]
    · obtain ⟨⟨items, hi, -⟩, -⟩ := (h.located_iff page item a).1 ha
      rw [hnone] at hi
      cases hi

theorem Sound.byteIndex_lt (h : s.Sound limits) {page item : Nat} {a : BitAddress}
    (ha : s.locate page item = .ok (.ok a)) : ∃ span, s.span = .ok span ∧ a.byteIndex < span.size := by
  obtain ⟨hi, hoffset⟩ := (h.located_iff page item a).1 ha
  have hlt : a.offset < s.table.total := by
    rw [hoffset]
    exact h.ordered.offset_lt_total hi
  have hused : a.byteIndex < s.usedBytes := by
    rw [h.used_eq]
    exact Capacity.lt_bytesFor hlt
  refine ⟨_, h.span_eq, ?_⟩
  rw [Array.size_extract, Nat.sub_zero, Nat.min_eq_left h.used_le]
  exact hused

theorem Sound.addressed (h : s.Sound limits) : s.Addressed where
  map_locate := by
    rw [← h.ordered.map_offset_items, List.map_map]
    exact List.map_congr_left fun x hx => h.locate_of_has (PageTable.mem_items.1 hx)
  pairwise := s.table.pairwise_items
  mem_iff page item := by
    rw [PageTable.mem_items]
    constructor
    · exact fun hi => ⟨_, h.locate_of_has hi⟩
    · rintro ⟨a, ha⟩
      exact ((h.located_iff page item a).1 ha).1
  agree := h.agreesOn
  within _ _ a ha := ⟨a.byteIndex_bitIndex, a.bitIndex_lt, h.byteIndex_lt ha⟩
  inj page item page' item' a a' ha ha' hbyte hbit := by
    obtain ⟨hi, hoffset⟩ := (h.located_iff page item a).1 ha
    obtain ⟨hi', hoffset'⟩ := (h.located_iff page' item' a').1 ha'
    have hsame : a.offset = a'.offset := by rw [← a.byteIndex_bitIndex, ← a'.byteIndex_bitIndex, hbyte, hbit]
    exact h.ordered.offset_inj hi hi' (by rw [← hoffset, ← hoffset', hsame])

/-- After any run on a bitmap that is new or decoded, addressing gives the items of the registered pages, in order,
the bits from the first to the last of them. What is worked out elsewhere of a page agrees with it, and no two items
share a bit. -/
theorem operate_addressed {b : Bitmap} (h : b.Origin limits) (ops : List Bitmap.Operation) :
    ∃ s, b.store.operate ops = .ok s ∧ s.toBitmap = b.operate ops ∧ s.Addressed := by
  have hedits := Bitmap.edits_operate b ops
  have hv : (b.operate ops).Valid := Bitmap.Edits.valid hedits h.valid
  have hmax : (b.operate ops).maxItems = limits.maxItems :=
    (Bitmap.Edits.extends hedits).maxItems_eq.trans h.bounds.2.1
  exact ⟨_, store_operate h.valid ops, rfl, (sound_store hv hmax).addressed⟩

/-- The item that comes after `k` others has bit `k`. -/
theorem Addressed.locate_of_getElem? (h : s.Addressed) {k : Nat} {x : ItemRef} (hx : s.table.items[k]? = some x) :
    s.locate x.page x.item = .ok (.ok ⟨k⟩) := by
  have hk := congrArg (fun found => found[k]?) h.map_locate
  rw [List.getElem?_map, List.getElem?_map, hx, Option.map_some] at hk
  obtain ⟨k', hk', hlocate⟩ := Option.map_eq_some_iff.1 hk.symm
  obtain ⟨hlt, hrange⟩ := List.getElem?_eq_some_iff.1 hk'
  rw [List.getElem_range] at hrange
  rw [← hlocate, hrange]

/-- An image of five pages, of which three are registered: with three items, with none, and with ten. -/
def gapImage : List UInt8 :=
  [5, 3, 3, 13, Image.unregistered, Image.unregistered, 16, 2].flatMap Byte.word ++ [0x01, 0x10]

def gapBitmap : Bitmap := ⟨⟨5, #[3, 3, 13]⟩, 64, 2, #[0x01, 0x10]⟩

/-- One more page is registered: the last item of the third page is followed by the first of the fourth. -/
theorem operate_addressed_gapImage :
    gapBitmap.Origin { maxItems := 64, chunkBytes := 2 } ∧
      ∃ s, gapBitmap.store.operate [.call (.addPage 3 5)] = .ok s ∧ s.Addressed ∧ s.table.items.length = 18 ∧
        s.locate 2 9 = .ok (.ok ⟨12⟩) ∧ s.locate 3 0 = .ok (.ok ⟨13⟩) := by
  have hdecode : Bitmap.decode { maxItems := 64, chunkBytes := 2 } gapImage = .ok gapBitmap := by decide +kernel
  obtain ⟨s, hs, hb, haddressed⟩ := operate_addressed (.decoded hdecode) [.call (.addPage 3 5)]
  have htable : s.table = ⟨5, #[3, 3, 13, 18]⟩ := by
    rw [hb]
    decide +kernel
  refine ⟨.decoded hdecode, s, hs, haddressed, ?_, ?_, ?_⟩
  · rw [htable]
    decide +kernel
  · have hlast : s.table.items[12]? = some ⟨2, 9⟩ := by
      rw [htable]
      decide +kernel
    exact haddressed.locate_of_getElem? hlast
  · have hfirst : s.table.items[13]? = some ⟨3, 0⟩ := by
      rw [htable]
      decide +kernel
    exact haddressed.locate_of_getElem? hfirst

end Store

end Occupancy
