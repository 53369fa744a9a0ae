import Mathlib
import Occupancy.Proofs.Marking
/-!
# Comparing bitmaps of other layouts

A comparison lines bits up by their offsets. It reports nothing when there are as many pages and as many items on
both sides, and then counts the offsets whose bits differ. `compare_silent` says that this is the number of items
marked on one side only if the two have the same items, and that otherwise there are marks for which it is not.
-/

namespace Occupancy

/-! ## Offsets that are of other items -/

/-- If equal offsets are those of equal items, then one table has the items of the other. -/
theorem PageTable.Ordered.has_of_aligned {s t : PageTable} (hs : s.Ordered) (hle : s.total ≤ t.total)
    (h : ∀ x y : ItemRef, s.Has x.page x.item → t.Has y.page y.item →
      s.start x.page + x.item = t.start y.page + y.item → x = y) {page item : Nat} (hi : s.Has page item) :
    t.Has page item := by
  obtain ⟨page', item', hi', hoffset⟩ := t.exists_offset (Nat.lt_of_lt_of_le (hs.offset_lt_total hi) hle)
  cases h ⟨page, item⟩ ⟨page', item'⟩ hi hi' hoffset.symm
  exact hi'

/-- Where tables of one total do not have the same items, some offset is that of different items. -/
theorem PageTable.Ordered.exists_shifted {s t : PageTable} (hs : s.Ordered) (ht : t.Ordered)
    (htotal : s.total = t.total) (h : ¬ SameItems s t) :
    ∃ x y : ItemRef, x ≠ y ∧ s.Has x.page x.item ∧ t.Has y.page y.item ∧
      s.start x.page + x.item = t.start y.page + y.item := by
  by_contra hno
  have haligned (x y : ItemRef) (hx : s.Has x.page x.item) (hy : t.Has y.page y.item)
      (e : s.start x.page + x.item = t.start y.page + y.item) : x = y := by
    by_contra hne
    exact hno ⟨x, y, hne, hx, hy, e⟩
  apply h
  intro page item
  constructor
  · exact hs.has_of_aligned (Nat.le_of_eq htotal) haligned
  · exact ht.has_of_aligned (Nat.le_of_eq htotal.symm) fun y x hy hx e => (haligned x y hx hy e.symm).symm

namespace Bitmap

variable {a b : Bitmap}

/-! ## Comparisons that report nothing -/

theorem compare_silent_iff :
    (a.compare b).2 = [] ↔ a.table.pageCount = b.table.pageCount ∧ a.table.total = b.table.total := by
  constructor
  · intro h
    unfold compare at h
    dsimp only at h
    split at h
    · cases h
    · next hp =>
      split at h
      · cases h
      · next ht => exact ⟨not_not.1 hp, not_not.1 ht⟩
  · rintro ⟨hp, ht⟩
    rw [compare_of_eq hp ht]

/-! ## Marks at will -/

/-- The bitmap with these items marked and no others. -/
def marking (b : Bitmap) (xs : List ItemRef) : Bitmap :=
  b.operate (.call .reset :: xs.map fun x => .call (.set x.page x.item true))

theorem Valid.marking_eq (h : b.Valid) {xs : List ItemRef} (hxs : ∀ x ∈ xs, b.table.Has x.page x.item) :
    b.marking xs = b.duplicate.markAll xs := by
  have hxs' : ∀ x ∈ xs, b.duplicate.table.Has x.page x.item := hxs
  rw [marking, operate, List.foldl_cons, next_reset, ← operate]
  exact h.duplicate.operate_sets hxs'

theorem Valid.marking_spec (h : b.Valid) {xs : List ItemRef} (hxs : ∀ x ∈ xs, b.table.Has x.page x.item) :
    (b.marking xs).table = b.table ∧ (b.marking xs).marks = {x | x ∈ xs} := by
  have hxs' : ∀ x ∈ xs, b.duplicate.table.Has x.page x.item := hxs
  rw [h.marking_eq hxs, table_markAll, h.duplicate.marks_markAll hxs', marks_duplicate, Set.empty_union]
  exact ⟨rfl, rfl⟩

/-! ## One mark -/

/-- The bitmap with no item marked but one. -/
def only (b : Bitmap) (x : ItemRef) : Bitmap := b.operate [.call .reset, .call (.set x.page x.item true)]

variable {x : ItemRef}

theorem only_eq_marking (b : Bitmap) (x : ItemRef) : b.only x = b.marking [x] := rfl

theorem Valid.only_eq (h : b.Valid) (hi : b.table.Has x.page x.item) :
    b.only x = b.duplicate.put (b.duplicate.place x.page x.item) true := by
  have hi' : b.duplicate.table.Has x.page x.item := hi
  unfold only operate
  rw [List.foldl_cons, List.foldl_cons, List.foldl_nil, next_reset, h.duplicate.next_set hi']

theorem Valid.marks_only (h : b.Valid) (hi : b.table.Has x.page x.item) : (b.only x).marks = {x} := by
  rw [only_eq_marking, (h.marking_spec (List.forall_mem_singleton.2 hi)).2]
  ext y
  exact List.mem_singleton

theorem Valid.bit_only (h : b.Valid) (hi : b.table.Has x.page x.item) (k : Nat) :
    (b.only x).bit k = decide (k = b.table.start x.page + x.item) := by
  have htable : b.duplicate.table = b.table := rfl
  rw [h.only_eq hi, h.duplicate.bit_put_place hi, bit_duplicate, htable]
  by_cases hk : k = b.table.start x.page + x.item <;> simp [hk]

theorem Valid.table_only (h : b.Valid) (hi : b.table.Has x.page x.item) : (b.only x).table = b.table := by
  rw [only_eq_marking, (h.marking_spec (List.forall_mem_singleton.2 hi)).1]

/-- Marks on different items at one offset go unnoticed. -/
theorem Tidy.compare_only (ha : a.Tidy) (hb : b.Tidy) {x y : ItemRef} (hx : a.table.Has x.page x.item)
    (hy : b.table.Has y.page y.item) (e : a.table.start x.page + x.item = b.table.start y.page + y.item)
    (hp : a.table.pageCount = b.table.pageCount) (ht : a.table.total = b.table.total) :
    (a.only x).compare (b.only y) = (0, []) := by
  have hta : (a.only x).table = a.table := ha.valid.table_only hx
  have htb : (b.only y).table = b.table := hb.valid.table_only hy
  have hax : (a.only x).Tidy := Edits.tidy (edits_operate a _) ha
  have hby : (b.only y).Tidy := Edits.tidy (edits_operate b _) hb
  have hp' : (a.only x).table.pageCount = (b.only y).table.pageCount := by rw [hta, htb, hp]
  have ht' : (a.only x).table.total = (b.only y).table.total := by rw [hta, htb, ht]
  have hnone : (a.only x).differingBits (b.only y) = 0 := by
    rw [hax.valid.differingBits_eq_count hby.valid hax.zeroTail hby.zeroTail ht', Nat.count_iff_forall_not]
    intro k _ hne
    rw [ha.valid.bit_only hx, hb.valid.bit_only hy, e] at hne
    exact hne rfl
  rw [compare_of_eq hp' ht', hnone]

/-! ## What silence says -/

/-- A comparison that reports nothing counts the offsets whose bits differ. If the two have the same items, so many
items are marked on one side only. If not, there are marks on different items that it takes for the same. -/
theorem compare_silent (limits limits' : Limits) (pageCount pageCount' : Nat) (ops ops' : List Operation)
    (h : (((blank limits pageCount).operate ops).compare ((blank limits' pageCount').operate ops')).2 = []) :
    let a := (blank limits pageCount).operate ops
    let b := (blank limits' pageCount').operate ops'
    (a.compare b).1 = Nat.count (fun k => a.bit k ≠ b.bit k) a.table.total ∧
    (PageTable.SameItems a.table b.table →
      ((a.compare b).1 : ℕ∞) = (a.marks \ b.marks).encard + (b.marks \ a.marks).encard ∧
        ((a.compare b).1 = 0 ↔ a.marks = b.marks)) ∧
    (¬ PageTable.SameItems a.table b.table →
      ∃ x y, x ≠ y ∧ (a.only x).marks = {x} ∧ (b.only y).marks = {y} ∧
        (a.only x).compare (b.only y) = (0, [])) := by
  intro a b
  obtain ⟨hp, ht⟩ := compare_silent_iff.1 h
  have ha : a.Tidy := Edits.tidy (edits_operate _ ops) (tidy_blank limits pageCount)
  have hb : b.Tidy := Edits.tidy (edits_operate _ ops') (tidy_blank limits' pageCount')
  have hcount : (a.compare b).1 = a.differingBits b := congrArg Prod.fst (compare_of_eq hp ht)
  rw [hcount]
  refine ⟨?_, fun hs => ?_, fun hs => ?_⟩
  · exact ha.valid.differingBits_eq_count hb.valid ha.zeroTail hb.zeroTail ht
  · have hmarks := ha.valid.differingBits_eq_marks_of_sameItems hb.valid ha.zeroTail hb.zeroTail hs
    refine ⟨hmarks, ?_⟩
    rw [← encard_sdiff_eq_zero_iff, ← hmarks, Nat.cast_eq_zero]
  · obtain ⟨x, y, hne, hx, hy, e⟩ := ha.valid.ordered.exists_shifted hb.valid.ordered ht hs
    exact ⟨x, y, hne, ha.valid.marks_only hx, hb.valid.marks_only hy, ha.compare_only hb hx hy e hp ht⟩

/-- Two pages of three and five items, the first item of the second marked. -/
def sampleThreeFive : Bitmap :=
  (blank {} 2).operate [.call (.addPage 0 3), .call (.addPage 1 5), .call (.set 1 0 true)]

/-- Two pages of five and three items, the fourth item of the first marked. -/
def sampleFiveThree : Bitmap :=
  (blank {} 2).operate [.call (.addPage 0 5), .call (.addPage 1 3), .call (.set 0 3 true)]

theorem compare_silent_threeFive :
    (sampleThreeFive.compare sampleFiveThree).1 = Nat.count (fun k => sampleThreeFive.bit k ≠ sampleFiveThree.bit k) 8 ∧
      ∃ x y, x ≠ y ∧ (sampleThreeFive.only x).marks = {x} ∧ (sampleFiveThree.only y).marks = {y} ∧
        (sampleThreeFive.only x).compare (sampleFiveThree.only y) = (0, []) := by
  have hsilent : (sampleThreeFive.compare sampleFiveThree).2 = [] := by decide +kernel
  obtain ⟨hcount, -, hshifted⟩ := compare_silent {} {} 2 2 _ _ hsilent
  refine ⟨hcount, hshifted fun hs => ?_⟩
  have hno : ¬ sampleThreeFive.table.Has 0 3 := by
    rintro ⟨items, hi, hlt⟩
    cases hi
    exact absurd hlt (by decide)
  exact hno ((hs 0 3).2 ⟨5, by decide +kernel, by decide⟩)

/-- The comparison reports nothing and counts nothing, though each side has a mark that the other has not. -/
theorem threeFive_compare_fiveThree :
    sampleThreeFive.compare sampleFiveThree = (0, []) ∧
      (sampleThreeFive.marks \ sampleFiveThree.marks).encard +
        (sampleFiveThree.marks \ sampleThreeFive.marks).encard ≠ 0 := by
  refine ⟨by decide +kernel, fun hzero => ?_⟩
  have hmem : (⟨1, 0⟩ : ItemRef) ∈ sampleThreeFive.marks := mem_marks.2 (by decide +kernel)
  have hno : sampleFiveThree.isMarked 1 0 = false := by decide +kernel
  rw [encard_sdiff_eq_zero_iff.1 hzero, mem_marks, hno] at hmem
  cases hmem

end Bitmap

end Occupancy
