import Mathlib
import Occupancy.Proofs.Store.Check
/-!
# What a comparison counts and a listing names

A listing of differences leaves out the pages that do not lie at the same place in both bitmaps; of the others it
names, in order, the items that only one side has marked (`diff_complete`). A comparison lines up bits and never counts
fewer than the listing names (`diff_within_compare`): what is listed differs at a bit that both sides use.
-/

namespace Occupancy

def ItemDiff.swap (d : ItemDiff) : ItemDiff := { d with side := d.side.swap }

/-- What is reported when the bitmaps are compared the other way round. -/
def Event.swap : Event → Event
  | .pageCountMismatch left right => .pageCountMismatch right left
  | .itemTotalMismatch left right => .itemTotalMismatch right left
  | e => e

theorem ItemRef.Before.ne {x y : ItemRef} (h : x.Before y) : x ≠ y := by
  rintro rfl
  rcases h with h | ⟨-, h⟩
  · exact Nat.lt_irrefl _ h
  · exact Nat.lt_irrefl _ h

namespace Bitmap

variable {a b : Bitmap}

/-! ## Sides -/

theorem sideOf_eq_onlyInLeft_iff {page item : Nat} :
    sideOf a b page item = some .onlyInLeft ↔ a.isMarked page item = true ∧ b.isMarked page item = false := by
  unfold sideOf
  cases a.isMarked page item <;> cases b.isMarked page item <;> simp

theorem sideOf_eq_onlyInRight_iff {page item : Nat} :
    sideOf a b page item = some .onlyInRight ↔ a.isMarked page item = false ∧ b.isMarked page item = true := by
  unfold sideOf
  cases a.isMarked page item <;> cases b.isMarked page item <;> simp

theorem exists_sideOf_iff {page item : Nat} :
    (∃ side, sideOf a b page item = some side) ↔ a.isMarked page item ≠ b.isMarked page item := by
  unfold sideOf
  cases a.isMarked page item <;> cases b.isMarked page item <;> simp

/-! ## The other way round -/

theorem sideOf_swap (a b : Bitmap) (page item : Nat) : sideOf b a page item = (sideOf a b page item).map Side.swap := by
  unfold sideOf
  cases a.isMarked page item <;> cases b.isMarked page item <;> rfl

theorem diffItem_swap (a b : Bitmap) (page item : Nat) :
    diffItem b a page item = (diffItem a b page item).map ItemDiff.swap := by
  unfold diffItem
  rw [sideOf_swap]
  cases sideOf a b page item <;> rfl

theorem diffPage_swap (a b : Bitmap) (page : Nat) : diffPage b a page = (diffPage a b page).map ItemDiff.swap := by
  rw [diffPage_eq_ite, diffPage_eq_ite]
  by_cases hr : a.table.range? page = b.table.range? page
  · have hitems : b.table.items? page = a.table.items? page := by rw [PageTable.items?, PageTable.items?, hr]
    rw [if_pos hr, if_pos hr.symm, hitems, List.map_flatMap]
    exact List.flatMap_congr fun item _ => diffItem_swap a b page item
  · rw [if_neg hr, if_neg (Ne.symm hr), List.map_nil]

theorem diff_swap (a b : Bitmap) : b.diff a = (a.diff b).map ItemDiff.swap := by
  unfold diff
  rw [Nat.min_comm, List.map_flatMap]
  exact List.flatMap_congr fun page _ => diffPage_swap a b page

theorem differingBits_comm (a b : Bitmap) : b.differingBits a = a.differingBits b := by
  unfold differingBits
  rw [Array.zipWith_comm]
  simp only [UInt8.xor_comm]

theorem compare_swap (a b : Bitmap) : b.compare a = ((a.compare b).1, (a.compare b).2.map Event.swap) := by
  unfold compare
  dsimp only
  by_cases hp : a.table.pageCount = b.table.pageCount
  · by_cases ht : a.table.total = b.table.total
    · simp [hp, ht, differingBits_comm a b]
    · simp [hp, ht, Ne.symm ht, differingBits_comm a b, Event.swap]
  · simp [hp, Ne.symm hp, Nat.max_comm, Event.swap]

/-! ## The listing -/

theorem nodup_diff (a b : Bitmap) : ((a.diff b).map (·.toItemRef)).Nodup := by
  rw [List.Nodup, List.pairwise_map]
  exact (pairwise_diff a b).imp ItemRef.Before.ne

/-- Whatever two bitmaps that are new or decoded went through, the listing of their differences is found. It names,
once and in order, the items of pages that lie at the same place in both, and are marked on the one side that it says
and not on the other. The other way round it is the same but for the sides. -/
theorem diff_complete {limits limits' : Limits} {a₀ b₀ : Bitmap} (ha : a₀.Origin limits) (hb : b₀.Origin limits')
    (ops ops' : List Operation) :
    let a := a₀.operate ops
    let b := b₀.operate ops'
    a.store.diff b.store = .ok (a.diff b) ∧
    (∀ page item, ⟨⟨page, item⟩, .onlyInLeft⟩ ∈ a.diff b ↔
      PageTable.Shared a.table b.table page item ∧ a.isMarked page item = true ∧ b.isMarked page item = false) ∧
    (∀ page item, ⟨⟨page, item⟩, .onlyInRight⟩ ∈ a.diff b ↔
      PageTable.Shared a.table b.table page item ∧ a.isMarked page item = false ∧ b.isMarked page item = true) ∧
    (a.diff b).Pairwise (fun x y => x.toItemRef.Before y.toItemRef) ∧
    ((a.diff b).map (·.toItemRef)).Nodup ∧
    b.diff a = (a.diff b).map ItemDiff.swap := by
  intro a b
  have hva : a.Valid := Edits.valid (edits_operate a₀ ops) ha.valid
  have hvb : b.Valid := Edits.valid (edits_operate b₀ ops') hb.valid
  refine ⟨Store.store_diff hva hvb, fun page item => ?_, fun page item => ?_, pairwise_diff a b, nodup_diff a b,
    diff_swap a b⟩
  · rw [mem_diff, sideOf_eq_onlyInLeft_iff]
  · rw [mem_diff, sideOf_eq_onlyInRight_iff]

/-- Pages of two, three and four items. -/
def sampleAscending : Bitmap :=
  (blank {} 3).operate [.call (.addPage 0 2), .call (.addPage 1 3), .call (.addPage 2 4),
    .call (.set 0 0 true), .call (.set 2 1 true)]

/-- Pages of three, two, four items and one: of these only the third lies where `sampleAscending` has it. -/
def sampleUneven : Bitmap :=
  (blank { maxItems := 64, chunkBytes := 2 } 4).operate [.call (.addPage 0 3), .call (.addPage 1 2),
    .call (.addPage 2 4), .call (.addPage 3 1), .call (.set 2 3 true), .call (.set 3 0 true)]

theorem diff_complete_uneven :
    (blank {} 3).Origin {} ∧ (blank { maxItems := 64, chunkBytes := 2 } 4).Origin { maxItems := 64, chunkBytes := 2 } ∧
      ⟨⟨2, 1⟩, .onlyInLeft⟩ ∈ sampleAscending.diff sampleUneven ∧
      ⟨⟨0, 0⟩, .onlyInLeft⟩ ∉ sampleAscending.diff sampleUneven ∧
      sampleUneven.diff sampleAscending = [⟨⟨2, 1⟩, .onlyInRight⟩, ⟨⟨2, 3⟩, .onlyInLeft⟩] := by
  have ha : (blank {} 3).Origin {} := .blank (by decide)
  have hb : (blank { maxItems := 64, chunkBytes := 2 } 4).Origin { maxItems := 64, chunkBytes := 2 } :=
    .blank (by decide)
  obtain ⟨-, hleft, -, -, -, hswap⟩ := diff_complete ha hb
    [.call (.addPage 0 2), .call (.addPage 1 3), .call (.addPage 2 4), .call (.set 0 0 true), .call (.set 2 1 true)]
    [.call (.addPage 0 3), .call (.addPage 1 2), .call (.addPage 2 4), .call (.addPage 3 1), .call (.set 2 3 true),
      .call (.set 3 0 true)]
  rw [← sampleAscending, ← sampleUneven] at hleft hswap
  refine ⟨ha, hb, ?_, ?_, ?_⟩
  · have hhas : sampleAscending.table.Has 2 1 := ⟨4, by decide +kernel, by decide⟩
    exact (hleft 2 1).2 ⟨⟨hhas, by decide +kernel⟩, by decide +kernel, by decide +kernel⟩
  · intro hlisted
    have hshared := ((hleft 0 0).1 hlisted).1.2
    have hapart : sampleAscending.table.range? 0 ≠ sampleUneven.table.range? 0 := by decide +kernel
    exact hapart hshared
  · rw [hswap]
    decide +kernel

/-! ## What is listed is counted -/

/-- The items of pages that lie at the same place in both, and whose bits differ. -/
def unequal (a b : Bitmap) : Set ItemRef :=
  {x | PageTable.Shared a.table b.table x.page x.item ∧
    a.bit (a.table.start x.page + x.item) ≠ b.bit (a.table.start x.page + x.item)}

theorem Valid.mem_map_diff (ha : a.Valid) (hb : b.Valid) {x : ItemRef} :
    x ∈ (a.diff b).map (·.toItemRef) ↔ x ∈ a.unequal b := by
  have hlisted : x ∈ (a.diff b).map (·.toItemRef) ↔
      PageTable.Shared a.table b.table x.page x.item ∧ ∃ side, sideOf a b x.page x.item = some side := by
    rw [List.mem_map]
    constructor
    · rintro ⟨d, hd, rfl⟩
      obtain ⟨hshared, hside⟩ := mem_diff.1 hd
      exact ⟨hshared, d.side, hside⟩
    · rintro ⟨hshared, side, hside⟩
      exact ⟨⟨x, side⟩, mem_diff.2 ⟨hshared, hside⟩, rfl⟩
  rw [hlisted, exists_sideOf_iff]
  refine and_congr_right fun hshared => ?_
  rw [ha.isMarked_of_has hshared.1, hb.isMarked_of_has hshared.symm.1, ← hshared.start_eq]

theorem Valid.length_diff (ha : a.Valid) (hb : b.Valid) : ((a.diff b).length : ℕ∞) = (a.unequal b).encard := by
  have hitems : a.unequal b = ((a.diff b).map (·.toItemRef)).toFinset := by
    ext x
    rw [Finset.mem_coe, List.mem_toFinset, ha.mem_map_diff hb]
  rw [hitems, Set.encard_coe_eq_coe_finsetCard, List.toFinset_card_of_nodup (nodup_diff a b), List.length_map]

/-- What is listed lies below both totals. -/
theorem Valid.length_diff_le_count (ha : a.Valid) (hb : b.Valid) :
    (a.diff b).length ≤ Nat.count (fun k => k < b.table.total ∧ a.bit k ≠ b.bit k) a.table.total := by
  have hcount : {x : ItemRef | a.table.Has x.page x.item ∧ a.table.start x.page + x.item < b.table.total ∧
      a.bit (a.table.start x.page + x.item) ≠ b.bit (a.table.start x.page + x.item)}.encard = _ :=
    ha.ordered.encard_eq_count (p := fun k => k < b.table.total ∧ a.bit k ≠ b.bit k) fun _ => Iff.rfl
  rw [← Nat.cast_le (α := ℕ∞), ← hcount, ha.length_diff hb]
  apply Set.encard_le_encard
  rintro x ⟨hshared, hne⟩
  refine ⟨hshared.1, ?_, hne⟩
  rw [hshared.start_eq]
  exact hb.ordered.offset_lt_total hshared.symm.1

theorem Valid.length_diff_le_differingBits (ha : a.Valid) (hb : b.Valid) :
    (a.diff b).length ≤ a.differingBits b := by
  refine Nat.le_trans (ha.length_diff_le_count hb) ?_
  rw [differingBits_eq_bits ha.used_le hb.used_le, Nat.count_eq_card_filter_range, Nat.count_eq_card_filter_range]
  apply Finset.card_le_card
  intro k hk
  simp only [Finset.mem_filter, Finset.mem_range] at hk ⊢
  have hleft := Nat.lt_of_lt_of_le hk.1 a.total_le_usedBits
  have hright := Nat.lt_of_lt_of_le hk.2.1 b.total_le_usedBits
  exact ⟨Nat.lt_min.2 ⟨hleft, hright⟩, hk.2.2⟩

theorem Valid.length_diff_le_compare (ha : a.Valid) (hb : b.Valid) : (a.diff b).length ≤ (a.compare b).1 := by
  have hbits := ha.length_diff_le_differingBits hb
  unfold compare
  dsimp only
  split
  · have hcount := Nat.le_trans (ha.length_diff_le_count hb) (Nat.count_le ..)
    exact Nat.le_trans hcount (Nat.le_max_left ..)
  · split
    · exact hbits
    · exact hbits

/-- Under one layout all items are looked at, and where nothing is set past the last of them there are no other bits. -/
theorem Valid.differingBits_eq_length_diff (ha : a.Valid) (hb : b.Valid) (hza : a.ZeroTail) (hzb : b.ZeroTail)
    (ht : a.table = b.table) : a.differingBits b = (a.diff b).length := by
  have hcount : (a.unequal b).encard = Nat.count (fun k => a.bit k ≠ b.bit k) a.table.total := by
    refine ha.ordered.encard_eq_count fun x => ?_
    rw [unequal, Set.mem_ofPred_eq, ← ht, PageTable.shared_self]
  rw [ha.differingBits_eq_count hb hza hzb (congrArg PageTable.total ht), ← Nat.cast_inj (R := ℕ∞), ← hcount,
    ha.length_diff hb]

/-- Whatever two bitmaps that are new or decoded went through, a comparison meets no trap, and it counts at least as
many differences as a listing names. If they have one layout and nothing is set past the last item, it counts just
these and reports nothing. The other way round it counts as many and reports the same with the sides exchanged. -/
theorem diff_within_compare {limits limits' : Limits} {a₀ b₀ : Bitmap} (ha : a₀.Origin limits)
    (hb : b₀.Origin limits') (ops ops' : List Operation) :
    let a := a₀.operate ops
    let b := b₀.operate ops'
    (∀ sink, (a.store.compare b.store).run sink = .ok ((a.compare b).1, sink ++ (a.compare b).2)) ∧
    (a.diff b).length ≤ (a.compare b).1 ∧
    (a.table = b.table → a.ZeroTail → b.ZeroTail → a.compare b = ((a.diff b).length, [])) ∧
    b.compare a = ((a.compare b).1, (a.compare b).2.map Event.swap) := by
  intro a b
  have hva : a.Valid := Edits.valid (edits_operate a₀ ops) ha.valid
  have hvb : b.Valid := Edits.valid (edits_operate b₀ ops') hb.valid
  refine ⟨Store.run_compare hva hvb, hva.length_diff_le_compare hvb, fun ht hza hzb => ?_, compare_swap a b⟩
  rw [compare_of_eq (congrArg PageTable.pageCount ht) (congrArg PageTable.total ht),
    hva.differingBits_eq_length_diff hvb hza hzb ht]

/-- A page of three items, of which the second is marked. -/
def sampleSecond : Bitmap := (blank {} 2).operate [.call (.addPage 0 3), .call (.set 0 1 true)]

def sampleCleared : Bitmap := (blank {} 2).operate [.call (.addPage 0 3), .call (.set 0 1 true), .call .reset]

/-- The stray bits of an image are counted and not listed; without any, no more is counted than is listed. -/
theorem diff_within_compare_strayImage :
    Image.strayBitmap.Origin {} ∧ (blank {} 2).Origin {} ∧
      (Image.strayBitmap.diff sampleSecond).length ≤ (Image.strayBitmap.compare sampleSecond).1 ∧
      Image.strayBitmap.compare sampleSecond = (6, []) ∧ (Image.strayBitmap.diff sampleSecond).length = 1 ∧
      sampleSecond.table = sampleCleared.table ∧ sampleSecond.ZeroTail ∧ sampleCleared.ZeroTail ∧
      sampleSecond.compare sampleCleared = ((sampleSecond.diff sampleCleared).length, []) := by
  have ha : Image.strayBitmap.Origin {} := .decoded Image.decode_strayImage
  have hb : (blank {} 2).Origin {} := .blank (by decide)
  have hsecond : sampleSecond.Tidy := Edits.tidy (edits_operate _ _) (tidy_blank {} 2)
  have hcleared : sampleCleared.Tidy := Edits.tidy (edits_operate _ _) (tidy_blank {} 2)
  have ht : sampleSecond.table = sampleCleared.table := by decide +kernel
  obtain ⟨-, hle, -, -⟩ := diff_within_compare ha hb [] [.call (.addPage 0 3), .call (.set 0 1 true)]
  obtain ⟨-, -, heq, -⟩ := diff_within_compare hb hb [.call (.addPage 0 3), .call (.set 0 1 true)]
    [.call (.addPage 0 3), .call (.set 0 1 true), .call .reset]
  rw [← sampleSecond] at hle heq
  rw [← sampleCleared] at heq
  exact ⟨ha, hb, hle, by decide +kernel, by decide +kernel, ht, hsecond.zeroTail, hcleared.zeroTail,
    heq ht hsecond.zeroTail hcleared.zeroTail⟩

end Bitmap

end Occupancy
