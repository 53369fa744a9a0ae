import Occupancy.Bitmap
import Occupancy.Event
/-!
# What two bitmaps hold in common

`compare` counts the bits that differ and reports when the bitmaps cannot be lined up; `diff` names the items
that differ, on those pages whose bits lie at the same place in both.
-/

namespace Occupancy

/-- The bitmap, of two, that holds an item. -/
inductive Side where
  | onlyInLeft
  | onlyInRight
  deriving DecidableEq, Repr

def Side.swap : Side → Side
  | .onlyInLeft => .onlyInRight
  | .onlyInRight => .onlyInLeft

/-- An item of the heap. -/
structure ItemRef where
  page : Nat
  item : Nat
  deriving DecidableEq, Repr

/-- An item that one bitmap holds and the other does not. -/
structure ItemDiff extends ItemRef where
  side : Side
  deriving DecidableEq, Repr

namespace Bitmap

/-- The number of marked bits among the used bytes. -/
def count (b : Bitmap) : Nat := Byte.population b.span

theorem count_eq (b : Bitmap) : b.count = (Byte.row b.used).count true := Byte.population_eq b.span

/-- The number of bits that differ in the bytes that both use. -/
def differingBits (left right : Bitmap) : Nat :=
  Byte.population (Array.zipWith (· ^^^ ·) left.span right.span)

theorem differingBits_eq (left right : Bitmap) :
    left.differingBits right = (Byte.row (List.zipWith (· ^^^ ·) left.used right.used)).count true := by
  rw [differingBits, Byte.population_eq, Array.toList_zipWith, used, used]

/-- The number of differing bits and what is reported on the way. Bitmaps with different numbers of pages are
not compared bit by bit: the answer is then the larger number of items. -/
def compare (left right : Bitmap) : Nat × List Event :=
  let (l, r) := (left.table, right.table)
  if l.pageCount ≠ r.pageCount then
    (max l.total r.total, [.pageCountMismatch l.pageCount r.pageCount])
  else if l.total ≠ r.total then
    (differingBits left right, [.itemTotalMismatch l.total r.total])
  else (differingBits left right, [])

/-- The side, if it is only one, that has the item marked. -/
def sideOf (left right : Bitmap) (page item : Nat) : Option Side :=
  match left.isMarked page item, right.isMarked page item with
  | true, false => some .onlyInLeft
  | false, true => some .onlyInRight
  | _, _ => none

/-- The item, if it is marked on one side only. -/
def diffItem (left right : Bitmap) (page item : Nat) : List ItemDiff :=
  match sideOf left right page item with
  | some side => [{ page, item, side }]
  | none => []

/-- The items of a page that differ; none where the page's bits do not lie at the same place in both. An item
whose bit is set on neither side needs no closer look. -/
def diffPage (left right : Bitmap) (page : Nat) : List ItemDiff :=
  match left.table.range? page with
  | none => []
  | some (start, stop) =>
    if right.table.range? page = some (start, stop) then
      (stop - start).foldRev (fun item _ later =>
        if left.bit (start + item) || right.bit (start + item) then diffItem left right page item ++ later
        else later) []
    else []

/-- The items that differ, in the order of pages and items. -/
def diff (left right : Bitmap) : List ItemDiff :=
  (List.range (min left.table.registered right.table.registered)).flatMap (diffPage left right)

/-! ## No item is passed over -/

theorem bit_of_isMarked {b : Bitmap} {page item : Nat} (h : b.isMarked page item = true) :
    b.bit (b.table.start page + item) = true := by
  simp only [isMarked, get] at h
  cases hl : b.locate page item with
  | error e => simp only [hl, Except.map] at h; exact absurd h (by decide)
  | ok a =>
    obtain ⟨_, _, ha, _⟩ := (b.table.locate_eq_ok_iff b.usedBytes page item a).1 hl
    rw [← ha]
    simpa only [hl, Except.map] using h

theorem diffItem_of_bit {left right : Bitmap} {page item : Nat}
    (hl : left.bit (left.table.start page + item) = false)
    (hr : right.bit (right.table.start page + item) = false) : diffItem left right page item = [] := by
  have hl' : left.isMarked page item = false := by
    rw [← Bool.not_eq_true]
    exact fun h => by rw [bit_of_isMarked h] at hl; cases hl
  have hr' : right.isMarked page item = false := by
    rw [← Bool.not_eq_true]
    exact fun h => by rw [bit_of_isMarked h] at hr; cases hr
  simp only [diffItem, sideOf, hl', hr']

/-- Every item of a page that lies at the same place in both is looked at. -/
theorem diffPage_eq {left right : Bitmap} {page start stop : Nat}
    (hl : left.table.range? page = some (start, stop)) (hr : right.table.range? page = some (start, stop)) :
    diffPage left right page = (List.range (stop - start)).flatMap (diffItem left right page) := by
  have step (item : Nat) (later : List ItemDiff) :
      (if left.bit (start + item) || right.bit (start + item) then diffItem left right page item ++ later
        else later) = diffItem left right page item ++ later := by
    split
    · rfl
    · rename_i h
      simp only [Bool.or_eq_true, not_or, Bool.not_eq_true] at h
      rw [← PageTable.start_of_range? hl] at h
      rw [diffItem_of_bit h.1 (by rw [PageTable.start_of_range? hr, ← PageTable.start_of_range? hl]; exact h.2),
        List.nil_append]
  have all (n : Nat) (later : List ItemDiff) :
      n.foldRev (fun item _ later => diffItem left right page item ++ later) later =
        (List.range n).flatMap (diffItem left right page) ++ later := by
    induction n generalizing later with
    | zero => rfl
    | succ n ih =>
      simp only [Nat.foldRev_succ, ih, List.range_succ, List.flatMap_append, List.flatMap_cons,
        List.flatMap_nil, List.append_nil, List.append_assoc]
  simp only [diffPage, hl, hr, if_true, step, all, List.append_nil]

end Bitmap

end Occupancy
