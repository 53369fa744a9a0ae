import Mathlib
import Occupancy.Proofs.Address
import Occupancy.Proofs.Layout
/-!
# Comparing bitmaps that track different numbers of pages

Such bitmaps are not compared bit by bit: the answer is the larger of the two numbers of items. It bounds the number of
items that are marked on one side only as long as one of the two has all the items that the other has. Of any others
`compare_mismatched` says that they can be marked so that more items differ than that.
-/

namespace Occupancy

/-! ## The items of a table as a set -/

namespace PageTable

/-- The items of registered pages. -/
def itemSet (t : PageTable) : Set ItemRef := {x | t.Has x.page x.item}

/-- Every item of the first table is one of the second. -/
def Within (s t : PageTable) : Prop := ∀ page item, s.Has page item → t.Has page item

variable {s t : PageTable}

theorem within_iff : s.Within t ↔ s.itemSet ⊆ t.itemSet := by
  constructor
  · exact fun h x hx => h x.page x.item hx
  · exact fun h page item hi => h (show (⟨page, item⟩ : ItemRef) ∈ s.itemSet from hi)

theorem itemSet_eq (t : PageTable) : t.itemSet = {x | x ∈ t.items} := by
  ext x
  exact mem_items.symm

theorem Ordered.encard_itemSet (h : t.Ordered) : t.itemSet.encard = t.total := by
  have hcount : t.itemSet.encard = Nat.count (fun _ => True) t.total :=
    h.encard_eq_count fun _ => (and_iff_left trivial).symm
  rw [hcount, Nat.count_true]

theorem finite_itemSet (t : PageTable) : t.itemSet.Finite := by
  rw [itemSet_eq]
  exact List.finite_toSet t.items

end PageTable

/-! ## Sets of items that differ -/

theorem encard_sdiff_add_eq {s t : Set ItemRef} :
    (s \ t).encard + (t \ s).encard = ((s \ t) ∪ (t \ s)).encard :=
  (Set.encard_union_eq disjoint_sdiff_sdiff).symm

theorem encard_sdiff_add_le {s t u v : Set ItemRef} (hs : s ⊆ u) (ht : t ⊆ v) :
    (s \ t).encard + (t \ s).encard ≤ (u ∪ v).encard := by
  rw [encard_sdiff_add_eq]
  apply Set.encard_le_encard
  rintro x (hx | hx)
  · exact .inl (hs hx.1)
  · exact .inr (ht hx.1)

/-- Of two sets that do not contain one another, neither is as large as both together. -/
theorem max_encard_lt {s t : Set ItemRef} (hs : s.Finite) (ht : t.Finite) (hst : ¬ s ⊆ t) (hts : ¬ t ⊆ s) :
    max s.encard t.encard < (s ∪ t).encard := by
  apply max_lt
  · apply hs.encard_lt_encard
    exact ⟨Set.subset_union_left, fun h => hts (Set.subset_union_right.trans h)⟩
  · apply ht.encard_lt_encard
    exact ⟨Set.subset_union_right, fun h => hst (Set.subset_union_left.trans h)⟩

namespace Bitmap

variable {a b : Bitmap}

theorem marks_subset (b : Bitmap) : b.marks ⊆ b.table.itemSet := by
  intro x hx
  by_contra hno
  rw [mem_marks, isMarked_of_not_has hno] at hx
  cases hx

/-! ## The larger number of items -/

theorem compare_of_ne (hp : a.table.pageCount ≠ b.table.pageCount) :
    a.compare b = (max a.table.total b.table.total, [.pageCountMismatch a.table.pageCount b.table.pageCount]) := by
  unfold compare
  dsimp only
  rw [if_pos hp]

/-- As many items can differ as the two have between them. -/
theorem Valid.exists_marking (ha : a.Valid) (hb : b.Valid) :
    ∃ xs ys, (a.marking xs).table = a.table ∧ (b.marking ys).table = b.table ∧
      ((a.marking xs).marks \ (b.marking ys).marks).encard + ((b.marking ys).marks \ (a.marking xs).marks).encard =
        (a.table.itemSet ∪ b.table.itemSet).encard := by
  -- mark all items of the one, and of the other those that are not among them
  obtain ⟨htable, hmarks⟩ := ha.marking_spec fun x hx => PageTable.mem_items.1 hx
  have hys : ∀ y ∈ b.table.items.filter (· ∉ a.table.items), b.table.Has y.page y.item :=
    fun y hy => PageTable.mem_items.1 (List.mem_of_mem_filter hy)
  obtain ⟨htable', hmarks'⟩ := hb.marking_spec hys
  refine ⟨a.table.items, b.table.items.filter (· ∉ a.table.items), htable, htable', ?_⟩
  have hrest : {y | y ∈ b.table.items.filter (· ∉ a.table.items)} = b.table.itemSet \ a.table.itemSet := by
    ext y
    simp [PageTable.itemSet_eq]
  rw [hmarks, hmarks', ← PageTable.itemSet_eq, hrest, encard_sdiff_add_eq]
  congr 1
  ext x
  simp only [Set.mem_union, Set.mem_sdiff]
  tauto

theorem Valid.max_total (ha : a.Valid) (hb : b.Valid) :
    ((max a.table.total b.table.total : Nat) : ℕ∞) = max a.table.itemSet.encard b.table.itemSet.encard := by
  rw [ha.ordered.encard_itemSet, hb.ordered.encard_itemSet]
  exact Nat.mono_cast.map_max

theorem Valid.differ_le_add_total (ha : a.Valid) (hb : b.Valid) :
    (a.marks \ b.marks).encard + (b.marks \ a.marks).encard ≤ (a.table.total + b.table.total : Nat) := by
  refine (encard_sdiff_add_le a.marks_subset b.marks_subset).trans ((Set.encard_union_le ..).trans ?_)
  rw [ha.ordered.encard_itemSet, hb.ordered.encard_itemSet, Nat.cast_add]

theorem Valid.differ_le_compare (ha : a.Valid) (hb : b.Valid) (hp : a.table.pageCount ≠ b.table.pageCount)
    (hwithin : a.table.Within b.table ∨ b.table.Within a.table) :
    (a.marks \ b.marks).encard + (b.marks \ a.marks).encard ≤ (a.compare b).1 := by
  refine (encard_sdiff_add_le a.marks_subset b.marks_subset).trans ?_
  rw [compare_of_ne hp, ha.max_total hb]
  rcases hwithin with hab | hba
  · rw [Set.union_eq_self_of_subset_left (PageTable.within_iff.1 hab)]
    exact le_max_right ..
  · rw [Set.union_eq_self_of_subset_right (PageTable.within_iff.1 hba)]
    exact le_max_left ..

theorem Valid.exists_compare_lt (ha : a.Valid) (hb : b.Valid) (hp : a.table.pageCount ≠ b.table.pageCount)
    (hapart : ¬ (a.table.Within b.table ∨ b.table.Within a.table)) :
    ∃ xs ys, ((a.marking xs).compare (b.marking ys)).1 <
      ((a.marking xs).marks \ (b.marking ys).marks).encard +
        ((b.marking ys).marks \ (a.marking xs).marks).encard := by
  obtain ⟨xs, ys, hta, htb, hunion⟩ := ha.exists_marking hb
  have hp' : (a.marking xs).table.pageCount ≠ (b.marking ys).table.pageCount := by rwa [hta, htb]
  refine ⟨xs, ys, ?_⟩
  rw [hunion, compare_of_ne hp', hta, htb, ha.max_total hb]
  rw [not_or, PageTable.within_iff, PageTable.within_iff] at hapart
  exact max_encard_lt a.table.finite_itemSet b.table.finite_itemSet hapart.1 hapart.2

/-- Of bitmaps that track different numbers of pages a comparison answers with the larger number of items, and reports
the mismatch. No more items are marked on one side only than both have together; if one has all the items of the other,
no more than the answer. If neither has, there are marks for which more items differ than the answer says. -/
theorem compare_mismatched (limits limits' : Limits) {pageCount pageCount' : Nat} (h : pageCount ≠ pageCount')
    (ops ops' : List Operation) :
    let a := (blank limits pageCount).operate ops
    let b := (blank limits' pageCount').operate ops'
    a.compare b = (max a.table.total b.table.total, [.pageCountMismatch pageCount pageCount']) ∧
    (a.marks \ b.marks).encard + (b.marks \ a.marks).encard ≤ (a.table.total + b.table.total : Nat) ∧
    (a.table.Within b.table ∨ b.table.Within a.table →
      (a.marks \ b.marks).encard + (b.marks \ a.marks).encard ≤ (a.compare b).1) ∧
    (¬ (a.table.Within b.table ∨ b.table.Within a.table) →
      ∃ xs ys, ((a.marking xs).compare (b.marking ys)).1 <
        ((a.marking xs).marks \ (b.marking ys).marks).encard +
          ((b.marking ys).marks \ (a.marking xs).marks).encard) := by
  intro a b
  have hea : Edits (blank limits pageCount) a := edits_operate _ ops
  have heb : Edits (blank limits' pageCount') b := edits_operate _ ops'
  have ha : a.Valid := Edits.valid hea (valid_blank ..)
  have hb : b.Valid := Edits.valid heb (valid_blank ..)
  have hpa : a.table.pageCount = pageCount := (Edits.extends hea).pageCount_eq
  have hpb : b.table.pageCount = pageCount' := (Edits.extends heb).pageCount_eq
  have hp : a.table.pageCount ≠ b.table.pageCount := by rwa [hpa, hpb]
  refine ⟨?_, ha.differ_le_add_total hb, ha.differ_le_compare hb hp, ha.exists_compare_lt hb hp⟩
  rw [compare_of_ne hp, hpa, hpb]

/-- One page, with one item that is marked. -/
def sampleFront : Bitmap := (blank {} 1).operate [.call (.addPage 0 1), .call (.set 0 0 true)]

/-- An empty page, and one with one item that is marked. -/
def sampleBack : Bitmap := (blank {} 2).operate [.call (.addPage 0 0), .call (.addPage 1 1), .call (.set 1 0 true)]

/-- All that `sampleFront` has and more: two items on the first page, and a second page. -/
def sampleWider : Bitmap := (blank {} 2).operate [.call (.addPage 0 2), .call (.addPage 1 1), .call (.set 1 0 true)]

theorem compare_mismatched_front :
    1 ≠ 2 ∧ sampleFront.table.Within sampleWider.table ∧
      (sampleFront.marks \ sampleWider.marks).encard + (sampleWider.marks \ sampleFront.marks).encard ≤ (3 : Nat) ∧
      sampleFront.compare sampleBack = (max sampleFront.table.total sampleBack.table.total, [.pageCountMismatch 1 2]) ∧
      (sampleFront.marks \ sampleBack.marks).encard + (sampleBack.marks \ sampleFront.marks).encard ≤ (1 + 1 : Nat) ∧
      ∃ xs ys, ((sampleFront.marking xs).compare (sampleBack.marking ys)).1 <
        ((sampleFront.marking xs).marks \ (sampleBack.marking ys).marks).encard +
          ((sampleBack.marking ys).marks \ (sampleFront.marking xs).marks).encard := by
  have hne : 1 ≠ 2 := by decide
  obtain ⟨hcompare, hle, -, hmore⟩ := compare_mismatched {} {} hne [.call (.addPage 0 1), .call (.set 0 0 true)]
    [.call (.addPage 0 0), .call (.addPage 1 1), .call (.set 1 0 true)]
  obtain ⟨-, -, hbound, -⟩ := compare_mismatched {} {} hne [.call (.addPage 0 1), .call (.set 0 0 true)]
    [.call (.addPage 0 2), .call (.addPage 1 1), .call (.set 1 0 true)]
  rw [← sampleFront, ← sampleBack] at hcompare hle hmore
  rw [← sampleFront, ← sampleWider] at hbound
  have hfront : sampleFront.table = ⟨1, #[1]⟩ := by decide +kernel
  have hback : sampleBack.table = ⟨2, #[0, 1]⟩ := by decide +kernel
  have hwider : sampleWider.table = ⟨2, #[2, 3]⟩ := by decide +kernel
  have hwithin : sampleFront.table.Within sampleWider.table := by
    rw [hfront, hwider]
    intro page item hi
    obtain rfl : page = 0 := Nat.lt_one_iff.1 (PageTable.has_iff.1 hi).1
    obtain ⟨items, hfirst, hlt⟩ := hi
    cases hfirst
    exact ⟨2, rfl, Nat.lt_succ_of_lt hlt⟩
  have hthree : (sampleFront.compare sampleWider).1 = 3 := by decide +kernel
  rw [hfront, hback] at hle
  rw [hthree] at hbound
  refine ⟨hne, hwithin, hbound (.inl hwithin), hcompare, hle, hmore ?_⟩
  -- each has an item that the other has not
  rw [hfront, hback]
  rintro (hab | hba)
  · obtain ⟨items, hi, hlt⟩ := hab 0 0 ⟨1, rfl, Nat.one_pos⟩
    cases hi
    exact Nat.lt_irrefl _ hlt
  · obtain ⟨items, hi, -⟩ := hba 1 0 ⟨1, rfl, Nat.one_pos⟩
    cases hi

/-- Two items are marked on one side only, and the answer is one. -/
theorem front_compare_back :
    sampleFront.table.pageCount ≠ sampleBack.table.pageCount ∧ (sampleFront.compare sampleBack).1 = 1 ∧
      ((sampleFront.compare sampleBack).1 : ℕ∞) <
        (sampleFront.marks \ sampleBack.marks).encard + (sampleBack.marks \ sampleFront.marks).encard := by
  have hone : (sampleFront.compare sampleBack).1 = 1 := by decide +kernel
  have hfront : (sampleFront.marks \ sampleBack.marks).Nonempty := by
    refine ⟨⟨0, 0⟩, mem_marks.2 (by decide +kernel), fun hmem => ?_⟩
    have hno : sampleBack.isMarked 0 0 = false := by decide +kernel
    rw [mem_marks, hno] at hmem
    cases hmem
  have hback : (sampleBack.marks \ sampleFront.marks).Nonempty := by
    refine ⟨⟨1, 0⟩, mem_marks.2 (by decide +kernel), fun hmem => ?_⟩
    have hno : sampleFront.isMarked 1 0 = false := by decide +kernel
    rw [mem_marks, hno] at hmem
    cases hmem
  refine ⟨by decide +kernel, hone, ?_⟩
  have htwo := add_le_add (Set.one_le_encard_iff_nonempty.2 hfront) (Set.one_le_encard_iff_nonempty.2 hback)
  rw [hone]
  exact lt_of_lt_of_le (by decide) htwo

end Bitmap

end Occupancy
